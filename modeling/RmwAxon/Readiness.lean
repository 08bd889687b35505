import RmwAxon.ReceiveSpec

namespace RmwAxon.Readiness

open Compress Session Receive ReceiveSpec RingHistory List
open SubscriberQueue (select)
open RingBuffer (Bytes Ring Geometry currentSeq oldestAvailableSeq slotCount)

variable {codec : Codec} {w : World} {m : Ring} {log : List Bytes} {now t h c : Nat} {out : Bytes}

/-- The number that a scan from a delivers: a itself, or the newest if the
payload of a is empty, or none if both are. -/
def target (log : List Bytes) (a : Nat) : Option Nat :=
  if log.getD a [] ≠ [] then some a
  else if log.getD (log.length - 1) [] ≠ [] then some (log.length - 1)
  else none

def Ample (log : List Bytes) (out : Bytes) : Prop := ∀ data ∈ log, data.length ≤ out.length

variable {a s : Nat}

theorem read_represented (hm : Represents m log) (hout : Ample log out)
    (hs : s < log.length) (hw : log.length ≤ s + slotCount m) :
    (log.getD s [] ≠ [] → ∃ out' m', RingBuffer.read m s out = (.ok (log.getD s []).length, out', m')) ∧
    (log.getD s [] = [] → RingBuffer.read m s out = (.error .slotNotYetWritten, out, m)) := by
  have hd : log[s]? = some (log.getD s []) := by simp [hs]
  have hread := readSlot_represented hm hw hd out
  constructor
  · intro hne
    rw [readMessage_ok hne (hout _ (mem_of_getElem? hd))] at hread
    exact ⟨_, _, read_ok hread⟩
  · intro hnil
    rw [hnil] at hread
    simp [RingBuffer.read, hread, readMessage]

theorem receiveLoop_empty {latest : Nat} (hl : latest = currentSeq m - 1) (requested retries : Nat)
    (ha : RingBuffer.read m a out = (.error .slotNotYetWritten, out, m))
    (hlast : RingBuffer.read m latest out = (.error .slotNotYetWritten, out, m)) :
    receiveLoop m requested retries a out = (.error .noData, out, m) := by
  subst hl
  induction retries generalizing a with
  | zero => simp only [receiveLoop, ha]
  | succ retries ih =>
    rw [receiveLoop]
    simp only [ha]
    split_ifs
    · exact ih hlast
    · exact ih ha

theorem receiveLoop_represented (hm : Represents m log) (hout : Ample log out) (requested : Nat)
    (ha : a < log.length) (hw : log.length ≤ a + slotCount m) :
    (∀ s, target log a = some s → ∃ out' m', receiveLoop m requested 4 a out =
      (.ok ((log.getD s []).length, s), out', m')) ∧
    (target log a = none → receiveLoop m requested 4 a out = (.error .noData, out, m)) := by
  have hpos := m.geometry.slotCount_pos
  have hlatest : log.length - 1 = currentSeq m - 1 := by rw [currentSeq, hm.length]
  have hfirst := read_represented hm hout ha hw
  have hlast := read_represented hm hout (s := log.length - 1) (by omega) (by simp only [slotCount]; omega)
  unfold target
  by_cases hd : log.getD a [] = []
  · by_cases hl : log.getD (log.length - 1) [] = []
    · simp only [hd, hl, ne_eq, not_true_eq_false, if_false]
      exact ⟨by simp, fun _ => receiveLoop_empty hlatest requested 4 (hfirst.2 hd) (hlast.2 hl)⟩
    · have hne : a < log.length - 1 := by
        rcases Nat.lt_or_ge a (log.length - 1) with hlt | hge
        · exact hlt
        · obtain rfl : a = log.length - 1 := by omega
          exact absurd hd hl
      simp only [hd, hl, ne_eq, not_true_eq_false, if_false, not_false_eq_true, if_true,
        Option.some.injEq, reduceCtorEq, false_implies, and_true]
      rintro s rfl
      obtain ⟨out', m', hread⟩ := hlast.1 hl
      refine ⟨out', m', ?_⟩
      rw [receiveLoop]
      simp only [hfirst.2 hd, ← hlatest, hne, if_true]
      exact receiveLoop_ok requested 3 hread
  · simp only [hd, ne_eq, not_false_eq_true, if_true, Option.some.injEq, reduceCtorEq,
      false_implies, and_true]
    rintro s rfl
    obtain ⟨out', m', hread⟩ := hfirst.1 hd
    exact ⟨out', m', receiveLoop_ok requested 4 hread⟩

theorem target_retained (hs : target log a = some s) {oldest : Nat}
    (ha : oldest ≤ a) (hl : oldest ≤ log.length - 1) : oldest ≤ s := by
  unfold target at hs
  split_ifs at hs <;> cases hs
  · exact ha
  · exact hl

def Takes (w : World) (now t h : Nat) (log : List Bytes) (c : Nat) : Prop :=
  qosAdmits w.session t = true ∧ ∃ s, target log (startSeq (ringOf w h) c) = some s ∧
    outlived (lifespanOf w.session t) now (localTimestamp w t h s) = false

theorem receiveLocal_ok_iff (hm : Represents (ringOf w h) log) (hout : Ample log out) :
    (∃ n s, (receiveLocal w now t h c out).1 = .ok (n, s)) ↔ c < log.length ∧ Takes w now t h log c := by
  have hcur : currentSeq (ringOf w h) = log.length := hm.length
  rcases Nat.lt_or_ge c log.length with hc | hc
  · have hc' : c < currentSeq (ringOf w h) := hcur ▸ hc
    obtain ⟨hlt, hwin⟩ := startSeq_window hc'
    rw [hcur] at hlt hwin
    obtain ⟨hsome, hnone⟩ := receiveLoop_represented hm hout c hlt hwin
    have hnot : ¬ (currentSeq (ringOf w h) = 0 ∨ currentSeq (ringOf w h) ≤ c) := by omega
    simp only [hc, true_and, Takes]
    cases hqos : qosAdmits w.session t with
    | false => simp [receiveLocal, hnot, hqos]
    | true =>
      cases htarget : target log (startSeq (ringOf w h) c) with
      | none => simp [receiveLocal, hnot, hqos, hnone htarget]
      | some s =>
        obtain ⟨out', m', hloop⟩ := hsome s htarget
        have hold : oldestAvailableSeq (ringOf w h) ≤ s := by
          refine target_retained htarget (oldest_le_startSeq hc') ?_
          have := (ringOf w h).geometry.slotCount_pos
          simp only [oldestAvailableSeq, hcur, slotCount]
          omega
        obtain ⟨w', hw⟩ := receiveLocal_found now hc' hqos hloop hold
        rw [hw]
        by_cases hexp : outlived (lifespanOf w.session t) now (localTimestamp w t h s) = true <;> simp [hexp]
  · have hnot : currentSeq (ringOf w h) = 0 ∨ currentSeq (ringOf w h) ≤ c := by omega
    simp [receiveLocal, hnot, Nat.not_lt.mpr hc]

theorem ring_ready_iff (hm : Represents m log) : RingBuffer.dataAvailableFrom m c = true ↔
      c < log.length ∧ (log.length ≤ c + slotCount m ∨ m.readIndex < log.length) := by
  have hlen := hm.length
  unfold RingBuffer.dataAvailableFrom
  rcases Nat.lt_or_ge c log.length with hc | hc
  · rcases Nat.lt_or_ge (c + slotCount m) log.length with hw | hw
    · rw [slotDataSize_overwritten (hlen ▸ hw)]
      simp only [hlen, decide_eq_true_eq]
      omega
    · have hd : log[c]? = some log[c] := getElem?_eq_getElem hc
      rw [slotDataSize_of_holds (hm.tracks.held c _ hd (hlen ▸ hw)) (hlen ▸ hc) (hlen ▸ hw)]
      by_cases hnil : log[c] = []
      · simp [hnil, hlen, hc, hw]
      · simpa [hnil, hc, hw] using length_pos_iff.mpr hnil
  · rw [slotDataSize_future (hlen ▸ hc)]
    simp [hlen, Nat.not_lt.mpr hc]

/-- A cursor before the end of the log whose number is retained has something
to take. One whose number is overwritten is served the newest message, and the
shared watermark is behind exactly if that message can be taken. -/
def Agrees (w : World) (now t h : Nat) (log : List Bytes) (c : Nat) : Prop :=
  c < log.length →
    (log.length ≤ c + slotCount (ringOf w h) → Takes w now t h log c) ∧
    (c + slotCount (ringOf w h) < log.length →
      (Takes w now t h log c ↔ (ringOf w h).readIndex < log.length))

/-- Readiness of a subscription on a ring of whole operations, without remote
messages, agrees with what a receive takes exactly if these conditions hold. -/
theorem ready_iff_takeable (codec : Codec) (g : Geometry) (ops : List Op) (hops : Accepted g ops)
    (hsub : w.session.subscriptions t = some h)
    (hring : ringOf w h = applyAll (RingBuffer.create g) ops)
    (hqueue : ∀ q, w.session.remoteRecvQueues t = some q → q.messages = [])
    (hout : Ample (written ops) out) :
    (dataAvailableFrom w t c = true ↔ ∃ n s, (receiveNext codec w now t c out).1 = .ok (n, s)) ↔
      Agrees w now t h (written ops) c := by
  obtain ⟨_, hr, _⟩ := applyAll_represents (create_represents g) ops hops
  rw [nil_append, ← hring] at hr
  have hsel : selected w.session t c = none :=
    selected_none_iff.mpr fun q hr => by simp [select, hqueue q hr]
  have hready : dataAvailableFrom w t c = RingBuffer.dataAvailableFrom (ringOf w h) c := by
    unfold dataAvailableFrom
    cases hq : w.session.remoteRecvQueues t with
    | none => simp [hsub]
    | some q => simp [hsub, SubscriberQueue.dataAvailableFrom, hqueue q hq]
  rw [hready, receive_unselected codec out hsel hsub, ring_ready_iff hr, receiveLocal_ok_iff hr hout, Agrees]
  rcases Nat.lt_or_ge (c + slotCount (ringOf w h)) (written ops).length with hw | hw
  · simp only [hw, Nat.not_le.mpr hw]
    tauto
  · simp only [hw, Nat.not_lt.mpr hw]
    tauto

def subscriber (m : Ring) : World :=
  ⟨fun _ => m, fun _ => ⟨0, fun _ => none, fun _ => none⟩,
    { newTables 1 false with subscriptions := fun _ => some 0 }⟩

theorem subscriber_ring (m : Ring) : ringOf (subscriber m) 0 = m := rfl

/-- Three writes into two slots, and the newest is consumed: a cursor at 0 has
fallen behind, and the watermark hides that the newest can still be taken. -/
def consumedNewest : List Op := [.write [1], .write [2], .write [3], .read 2 [0]]

theorem behind_cursor_not_ready :
    ¬ ∀ codec g ops w now t h c out, Accepted g ops → w.session.subscriptions t = some h →
      ringOf w h = applyAll (RingBuffer.create g) ops →
      (∀ q, w.session.remoteRecvQueues t = some q → q.messages = []) → Ample (written ops) out →
      qosAdmits w.session t = true → lifespanOf w.session t = none →
      (dataAvailableFrom w t c = true ↔
        ∃ n s, (receiveNext codec w now t c out).1 = .ok (n, s)) := by
  intro hall
  have htake : (receiveNext plain (subscriber (applyAll (RingBuffer.create twoSlots)
      consumedNewest)) 0 5 0 [0]).1 = .ok (1, 2) := by decide +kernel
  have hready : dataAvailableFrom (subscriber (applyAll (RingBuffer.create twoSlots)
      consumedNewest)) 5 0 ≠ true := by decide +kernel
  refine hready ((hall plain twoSlots consumedNewest (subscriber _) 0 5 0 0 [0] ?_ rfl
    (subscriber_ring _) ?_ ?_ rfl rfl).mpr ⟨1, 2, htake⟩)
  · simp [Accepted, consumedNewest]
    decide
  · simp [subscriber, newTables]
  · simp [Ample, consumedNewest, written]

/-- Two messages, of which the first has been taken. -/
def firstTaken : Ring := applyAll (RingBuffer.create twoSlots) [.write [1], .write [2], .read 0 [0]]

theorem second_write_ready : dataAvailableFrom (subscriber firstTaken) 5 1 = true ↔
    ∃ n s, (receiveNext plain (subscriber firstTaken) 0 5 1 [0]).1 = .ok (n, s) := by
  refine (ready_iff_takeable (h := 0) plain twoSlots [.write [1], .write [2], .read 0 [0]]
    (by simp [Accepted]; decide) rfl (subscriber_ring _) (by simp [subscriber, newTables])
    (by simp [Ample, written])).mpr fun _ => ?_
  exact ⟨fun _ => ⟨rfl, 1, rfl, rfl⟩, fun hw => absurd hw (by decide)⟩

end RmwAxon.Readiness
