import Mathlib.Algebra.BigOperators.Fin
import RmwAxon.Advertised
import RmwAxon.SyncWire

namespace RmwAxon.ServiceCount

open Advertised NodeTable Registry Function List Finset
open Qos (QosProfile)
open SyncWire (validUtf8)

variable {n : Nat}

/-- A session that looks for services. -/
structure Viewer where
  nodeId : Nat
  domainId : Nat
  includeAllDomains : Bool
  localServices : List String

def isDaemonNodeAlive (alive : Nat → Nat → Bool) (e : NodeTableEntry) : Bool :=
  if 0 < e.pid then alive e.pid e.procStarttime else e.daemonOrigin ≠ 0

/-- A name that is no longer valid is read as the empty one. -/
def named (name : String) (t : TopicEntry) : Bool :=
  let text := readStr t.topicName
  (if validUtf8 text then text else []) = asBytes (serviceResponsePrefix ++ name)

def inView (v : Viewer) (e : NodeTableEntry) : Bool :=
  e.state = .active ∧ (e.domainId = v.domainId ∨ v.includeAllDomains = true)

def counted (alive : Nat → Nat → Bool) (v : Viewer) (name : String) (e : NodeTableEntry) : Nat :=
  if inView v e ∧ e.nodeId ≠ v.nodeId ∧ isDaemonNodeAlive alive e then e.publishedTopics.countP (named name)
  else 0

def countServices (alive : Nat → Nat → Bool) (v : Viewer) (table : Table n) (name : String) : Nat :=
  v.localServices.count name + ∑ k, counted alive v name (table k)

def serviceAvailable (v : Viewer) (table : Table n) (name : String) : Bool :=
  v.localServices.contains name ||
    (List.finRange n).any fun k => inView v (table k) && (table k).publishedTopics.any (named name)

theorem validUtf8_asBytes (s : String) : validUtf8 (asBytes s) = true := by
  simp [validUtf8, asBytes, ByteArray.validateUTF8_eq_true_iff, s.isValidUTF8]

theorem readStr_copyStr_iff {size : Nat} {value : Text} (hsize : 0 < size) :
    readStr (copyStr size value) = value ↔ value.length < size ∧ 0 ∉ value := by
  refine ⟨fun h => ?_, fun h => readStr_copyStr h.1 h.2⟩
  have hzero : 0 ∉ value := by
    intro h0
    rw [← h] at h0
    simpa using all_eq_true.mp all_takeWhile 0 h0
  refine ⟨Nat.lt_of_not_le fun hlong => hzero ?_, hzero⟩
  -- The whole buffer would be the text, and it ends with a zero.
  have hfront : value <+: copyStr size value := by
    conv_lhs => rw [← h]
    exact takeWhile_prefix _
  have hlen : (copyStr size value).length = size := by
    simp only [copyStr, length_append, length_take, length_replicate]
    omega
  rw [hfront.eq_of_length_le (by omega), copyStr]
  exact mem_append_right _ (mem_replicate.mpr ⟨by omega, rfl⟩)

theorem named_iff (owner : Owner) (hash : Nat) (name type : String) (qos : QosProfile) :
    named name (topicEntry owner ⟨hash, serviceResponsePrefix ++ name, type, qos⟩) = true ↔
      fitsText maxTopicNameLen (serviceResponsePrefix ++ name) := by
  have hne : [] ≠ asBytes (serviceResponsePrefix ++ name) := by
    intro h
    have hlen := congrArg length h
    have hpos : 0 < serviceResponsePrefix.utf8ByteSize := by decide
    simp only [asBytes, length_nil, Array.length_toList, ByteArray.size_data, String.toByteArray_append,
      ByteArray.size_append, String.size_toByteArray] at hlen
    omega
  rw [fitsText, ← readStr_copyStr_iff (by decide), named, topicEntry]
  dsimp only
  rw [decide_eq_true_iff]
  split_ifs with hvalid
  · rfl
  · exact iff_of_false hne fun h => hvalid (by rw [h, validUtf8_asBytes])

variable {alive : Nat → Nat → Bool} {v : Viewer} {table : Table n} {k : Fin n} {name : String}

theorem countServices_insert {pre post : List TopicEntry} {t : TopicEntry} (hview : inView v (table k) = true)
    (hother : (table k).nodeId ≠ v.nodeId) (halive : isDaemonNodeAlive alive (table k) = true)
    (hlist : (table k).publishedTopics = pre ++ t :: post) :
    countServices alive v table name =
      countServices alive v (update table k { table k with publishedTopics := pre ++ post }) name +
        if named name t then 1 else 0 := by
  have hrest : ∀ e, ∑ j ∈ univ.erase k, counted alive v name (update table k e j) =
      ∑ j ∈ univ.erase k, counted alive v name (table j) := fun e =>
    sum_congr rfl fun j hj => by rw [update_of_ne (ne_of_mem_erase hj)]
  rw [countServices, countServices, ← add_sum_erase _ _ (mem_univ k),
    ← add_sum_erase _ (fun j => counted alive v name (update table k _ j)) (mem_univ k), hrest,
    update_self]
  have hkept : counted alive v name (table k) = _ := if_pos ⟨hview, hother, halive⟩
  have hless : counted alive v name { table k with publishedTopics := pre ++ post } =
      (pre ++ post).countP (named name) := if_pos ⟨hview, hother, halive⟩
  rw [hkept, hless, hlist]
  simp only [countP_append, countP_cons]
  omega

/-- A server that was created with room in the list is seen by the other sessions
exactly if its name fits the table together with the word before it. -/
theorem server_counted_iff {owner : Owner} {slot : NodeTableEntry} {s : Nat} {type : String}
    {qos : QosProfile} {later : List TopicEntry} (hroom : slot.publishedTopics.length < maxTopicsPerNode)
    (hlist : (table k).publishedTopics =
      (register owner slot ⟨.server s, name, type, qos⟩).publishedTopics ++ later)
    (hview : inView v (table k) = true) (hother : (table k).nodeId ≠ v.nodeId)
    (halive : isDaemonNodeAlive alive (table k) = true) :
    (countServices alive v table name = countServices alive v
        (update table k { table k with publishedTopics := slot.publishedTopics ++ later }) name + 1 ∧
      serviceAvailable v table name = true) ↔ fitsText maxTopicNameLen (serviceResponsePrefix ++ name) := by
  rw [register_publishedTopics] at hlist
  simp only [Live.published, Option.elim, append, if_pos hroom, append_assoc, singleton_append] at hlist
  rw [countServices_insert hview hother halive hlist,
    ← named_iff owner (serviceResponseTopic s) name type qos]
  constructor
  · rintro ⟨hcount, -⟩
    by_contra hnamed
    rw [if_neg hnamed] at hcount
    omega
  · intro hnamed
    rw [if_pos hnamed]
    refine ⟨rfl, Bool.or_eq_true_iff.mpr (.inr (any_eq_true.mpr ⟨k, mem_finRange k, ?_⟩))⟩
    rw [hview, hlist]
    simp [hnamed]

def serverNode (name : String) : NodeTableEntry :=
  register ⟨"adder", "/"⟩ { zeroEntry with state := .active, nodeId := 1, daemonOrigin := 7 }
    ⟨.server 5, name, "example_interfaces/srv/AddTwoInts", Qos.defaultSensor⟩

def onlooker : Viewer := ⟨2, 0, false, []⟩

theorem short_name_counted :
    countServices (fun _ _ => true) onlooker (fun _ : Fin 1 => serverNode "/add") "/add" = 1 := by
  have h := (@server_counted_iff 1 (fun _ _ => true) onlooker (fun _ => serverNode "/add") 0 "/add"
    ⟨"adder", "/"⟩ { zeroEntry with state := .active, nodeId := 1, daemonOrigin := 7 } 5 _
    Qos.defaultSensor [] (by decide) rfl (by decide) (by decide) (by decide)).mpr (by decide +kernel)
  exact h.1.trans (by decide +kernel)

def longName : String := "/" ++ String.ofList (List.replicate 240 'a')

theorem long_name_missed :
    countServices (fun _ _ => true) onlooker (fun _ : Fin 1 => serverNode longName) longName = 0 ∧
      serviceAvailable onlooker (fun _ : Fin 1 => serverNode longName) longName = false := by
  decide +kernel

end RmwAxon.ServiceCount
