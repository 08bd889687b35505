import RmwAxon.DomainSync
import RmwAxon.Endian
import RmwAxon.MatchKeys
import RmwAxon.SendOrder
import Mathlib.Data.Nat.Pairing

namespace RmwAxon.RemoteFanout

open MatchKeys NodeTable RetainedHistory List
open DomainSync (remoteNode)
open Endian (fromBe)
open PeerSync (fillEntry)

variable {n : Nat}

def sockAddr (port : Nat) (a : Addr) : Nat := Nat.pair port (fromBe [a.1, a.2.1, a.2.2.1, a.2.2.2])

theorem sockAddr_injective {port port' : Nat} {a a' : Addr} (h : sockAddr port a = sockAddr port' a') :
    port = port' ∧ a = a' := by
  obtain ⟨hport, haddr⟩ := Nat.pair_eq_pair.mp h
  refine ⟨hport, ?_⟩
  obtain ⟨b, c, d, e⟩ := a
  obtain ⟨b', c', d', e'⟩ := a'
  have hlt := fun x : UInt8 => x.toNat_lt
  have := hlt b; have := hlt c; have := hlt d; have := hlt e
  have := hlt b'; have := hlt c'; have := hlt d'; have := hlt e'
  simp only [fromBe, foldl_cons, foldl_nil] at haddr
  simp only [Prod.mk.injEq]
  refine ⟨UInt8.toNat_inj.mp ?_, UInt8.toNat_inj.mp ?_, UInt8.toNat_inj.mp ?_, UInt8.toNat_inj.mp ?_⟩ <;>
    omega

def Remote (table : Table n) (nodeId : Nat) : Prop :=
  ∃ j, (table j).nodeId = nodeId ∧ (table j).state = .active ∧ (table j).daemonOrigin ≠ 0

instance (table : Table n) : DecidablePred (Remote table) :=
  fun nodeId => inferInstanceAs (Decidable (∃ j, (table j).nodeId = nodeId ∧ _))

def validMatch (table : Table n) (m : MatchEntry) : Option Match :=
  (findSlotByNodeId table m.nodeId).bind fun j =>
    if (table j).state = .active ∧ (table j).daemonOrigin ≠ 0 then
      some ⟨m.nodeId, m.topicHash, sockAddr m.port m.addr⟩
    else none

def readEntry (table : Table n) (slot : Fin n) : Entry where
  active := decide ((table slot).state = .active)
  responseGen := (table slot).responseGen
  matchCount := (table slot).remoteMatches.length
  valid := ((table slot).remoteMatches.take maxMatches).filterMap (validMatch table)

def syncDaemonMatches (s : Tables) (e : Entry) : Tables :=
  match enter s e with
  | (s, some (.wipe tables valid)) =>
    let s := tables.foldl wipeTable s
    if valid = [] then s else route (know s valid) valid
  | (s, _) => s

def publishPeers (s : Tables) (e : Entry) (order : List (Nat × Nat) → List (Nat × Nat)) (topic : Nat) :
    List Nat :=
  let s := syncDaemonMatches s e
  livePeers { s with knownAddrs := order s.knownAddrs } topic

section Tables

variable {valid : List Match} {known : List (Nat × Nat)} {m : Match} {p a topic : Nat}

theorem mem_know {s : Tables} (h : s.knownAddrs = []) :
    (p, a) ∈ (know s valid).knownAddrs ↔ (valid.find? (·.peer = p)).map Match.addr = some a := by
  rw [know, h]
  simp only [foldl_reverse]
  induction valid with
  | nil => simp
  | cons m valid ih =>
    rw [foldr_cons, insertKnown, mem_cons, mem_filter, ih, find?_cons]
    by_cases hm : m.peer = p
    · simp [hm, eq_comm]
    · simp [hm, Ne.symm hm]

theorem find?_known (hkeys : (known.map Prod.fst).Nodup) :
    (known.find? fun q => decide (q.1 = p)) = some (p, a) ↔ (p, a) ∈ known := by
  refine ⟨mem_of_find?_eq_some, fun hmem => ?_⟩
  induction known with
  | nil => cases hmem
  | cons q known ih =>
    rw [map_cons, nodup_cons] at hkeys
    rcases mem_cons.mp hmem with rfl | hmem
    · simp
    · have hne : q.1 ≠ p := fun hq => hkeys.1 (hq ▸ List.mem_map_of_mem hmem)
      rw [find?_cons_of_neg (by simpa using hne)]
      exact ih hkeys.2 hmem

theorem know_keys {s : Tables} (h : s.knownAddrs = []) : ((know s valid).knownAddrs.map Prod.fst).Nodup := by
  rw [know, h]
  simp only [foldl_reverse]
  induction valid with
  | nil => simp
  | cons m valid ih =>
    rw [foldr_cons, insertKnown, map_cons, nodup_cons]
    refine ⟨?_, ih.sublist (filter_sublist.map _)⟩
    simp

theorem mem_addRoute {routes : Nat → List Nat} : a ∈ addRoute known routes m topic ↔ a ∈ routes topic ∨
      m.topic = topic ∧ ∃ q ∈ known.find? (fun q => decide (q.1 = m.peer)), q.2 = a := by
  cases hfind : known.find? fun q => decide (q.1 = m.peer) with
  | none => simp [addRoute, hfind]
  | some q =>
    have heq : addRoute known routes m = if q.2 ∈ routes m.topic then routes
        else Function.update routes m.topic (routes m.topic ++ [q.2]) := by
      simp only [addRoute, hfind]
    simp only [heq, Option.mem_some_iff, exists_eq_left']
    split_ifs with hb
    · exact ⟨.inl, by rintro (h | ⟨rfl, rfl⟩) <;> assumption⟩
    · by_cases ht : topic = m.topic
      · simp [ht, eq_comm]
      · simp [ht, Ne.symm ht]

theorem mem_route {s : Tables} (h : s.remoteRoutes = fun _ => []) : a ∈ (route s valid).remoteRoutes topic ↔
      ∃ m ∈ valid, m.topic = topic ∧ ∃ q ∈ s.knownAddrs.find? (fun q => decide (q.1 = m.peer)), q.2 = a := by
  have hall : ∀ routes, a ∈ valid.foldl (addRoute s.knownAddrs) routes topic ↔ a ∈ routes topic ∨
      ∃ m ∈ valid, m.topic = topic ∧ ∃ q ∈ s.knownAddrs.find? (fun q => decide (q.1 = m.peer)), q.2 = a := by
    induction valid with
    | nil => simp
    | cons m valid ih =>
      intro routes
      rw [foldl_cons, ih, mem_addRoute, or_assoc]
      simp only [mem_cons, exists_eq_or_imp]
  rw [route, hall, h]
  simp

theorem mem_livePeers {s : Tables} : p ∈ livePeers s topic ↔ ∃ addr ∈ s.remoteRoutes topic,
      ∃ q ∈ s.knownAddrs.find? (fun q => decide (q.2 = addr)), q.1 = p := by
  have hall : ∀ addrs seen : List Nat, p ∈ addrs.foldl (addPeer s.knownAddrs) seen ↔ p ∈ seen ∨
      ∃ addr ∈ addrs, ∃ q ∈ s.knownAddrs.find? (fun q => decide (q.2 = addr)), q.1 = p := by
    intro addrs
    induction addrs with
    | nil => simp
    | cons addr addrs ih =>
      intro seen
      rw [foldl_cons, ih]
      simp only [mem_cons, exists_eq_or_imp, ← or_assoc]
      refine or_congr ?_ Iff.rfl
      unfold addPeer
      cases hfind : s.knownAddrs.find? fun q => decide (q.2 = addr) with
      | none => simp
      | some q =>
        simp only [Option.mem_some_iff, exists_eq_left']
        split_ifs with hin
        · exact ⟨.inl, by rintro (h | rfl) <;> assumption⟩
        · simp [eq_comm]
  rw [livePeers, hall]
  simp

end Tables

def Target (table : Table n) (slot : Fin n) (topic p : Nat) : Prop :=
  (∃ m ∈ (table slot).remoteMatches, m.nodeId = p ∧ m.topicHash = topic) ∧ Remote table p
  deriving Decidable

def firstAddr (ms : List MatchEntry) (p : Nat) : Option (Nat × Addr) :=
  (ms.find? (·.nodeId = p)).map fun m => (m.port, m.addr)

section Entries

variable {table : Table n} {slot : Fin n} {ms : List MatchEntry} {p a topic : Nat}

theorem validMatch_eq_some (hd : DistinctIds table) {m : MatchEntry} {v : Match} :
    validMatch table m = some v ↔
      Remote table m.nodeId ∧ v = ⟨m.nodeId, m.topicHash, sockAddr m.port m.addr⟩ := by
  have hfound : ∀ j, findSlotByNodeId table m.nodeId = some j →
      isOccupied (table j) = true ∧ (table j).nodeId = m.nodeId := fun j hj => by
    simpa using MergeRounds.firstSlot_eq_some hj
  simp only [validMatch, Option.bind_eq_some_iff, Option.ite_none_right_eq_some, Option.some.injEq]
  constructor
  · rintro ⟨j, hj, ⟨hstate, horigin⟩, rfl⟩
    exact ⟨⟨j, (hfound j hj).2, hstate, horigin⟩, rfl⟩
  rintro ⟨⟨j, hid, hstate, horigin⟩, rfl⟩
  have hocc : isOccupied (table j) = true := by simp [isOccupied, hstate]
  cases hslot : findSlotByNodeId table m.nodeId with
  | none =>
    have hnone := MergeRounds.firstSlot_eq_none hslot j
    simp [hocc, hid] at hnone
  | some k =>
    obtain ⟨hk, hkid⟩ := hfound k hslot
    have hkj : k = j := hd k j hk hocc (hkid.trans hid.symm)
    exact ⟨k, rfl, ⟨hkj ▸ hstate, hkj ▸ horigin⟩, rfl⟩

theorem find?_valid (hd : DistinctIds table) :
    (((ms.filterMap (validMatch table)).find? (·.peer = p)).map Match.addr = some a) ↔
      Remote table p ∧ ∃ x, firstAddr ms p = some x ∧ a = sockAddr x.1 x.2 := by
  induction ms with
  | nil => simp [firstAddr]
  | cons m ms ih =>
    by_cases hm : m.nodeId = p
    · have hfirst : firstAddr (m :: ms) p = some (m.port, m.addr) := by simp [firstAddr, hm]
      rw [hfirst]
      by_cases hremote : Remote table p
      · have hvalid := (validMatch_eq_some hd (m := m)).mpr ⟨hm ▸ hremote, rfl⟩
        rw [filterMap_cons_some hvalid, find?_cons_of_pos (by simpa using hm)]
        simp [hremote, eq_comm]
      have hnone : validMatch table m = none := by
        by_contra hsome
        obtain ⟨v, hv⟩ := Option.ne_none_iff_exists'.mp hsome
        exact hremote (hm ▸ ((validMatch_eq_some hd).mp hv).1)
      rw [filterMap_cons_none hnone, ih]
      simp [hremote]
    · have hfirst : firstAddr (m :: ms) p = firstAddr ms p := by simp [firstAddr, hm]
      rw [hfirst, ← ih]
      cases hv : validMatch table m with
      | none => rw [filterMap_cons_none hv]
      | some v =>
        have hpeer : v.peer = m.nodeId := by rw [((validMatch_eq_some hd).mp hv).2]
        rw [filterMap_cons_some hv, find?_cons_of_neg (by simpa [hpeer] using hm)]

theorem exists_firstAddr (h : ∃ m ∈ ms, m.nodeId = p) : ∃ x, firstAddr ms p = some x := by
  obtain ⟨m, hm, hid⟩ := h
  cases hfind : ms.find? (·.nodeId = p) with
  | none => simpa [hid] using find?_eq_none.mp hfind m hm
  | some m' => exact ⟨_, by rw [firstAddr, hfind, Option.map_some]⟩

end Entries

section Sync

variable {s : Tables} {e : Entry} {table : Table n} {slot : Fin n} {p a topic : Nat}

theorem sync_active (hactive : e.active = true) (hgen : s.daemonLastResponseGen ≠ e.responseGen)
    (hnone : e.matchCount = 0 → e.valid = []) :
    ∃ w : Tables, w.knownAddrs = [] ∧ w.remoteRoutes = (fun _ => []) ∧
      (syncDaemonMatches s e).knownAddrs = (know w e.valid).knownAddrs ∧
      (syncDaemonMatches s e).remoteRoutes = (route (know w e.valid) e.valid).remoteRoutes := by
  refine ⟨{ s with knownAddrs := [], remoteRoutes := fun _ => [] }, rfl, rfl, ?_⟩
  by_cases hcount : e.matchCount = 0
  · simp [syncDaemonMatches, enter, hactive, hgen, hcount, hnone, wipeTable, know, route]
  · by_cases hvalid : e.valid = [] <;>
      simp [syncDaemonMatches, enter, hactive, hgen, hcount, hvalid, wipeTable, know, route]

/-- What the two tables hold after a synchronisation: each remote node with the
address of its first match, and for each topic the addresses of its targets. -/
theorem sync_tables (hd : DistinctIds table) (hlen : (table slot).remoteMatches.length ≤ maxMatches)
    (hgen : s.daemonLastResponseGen ≠ (table slot).responseGen) (hactive : (table slot).state = .active) :
    (∀ p a, (p, a) ∈ (syncDaemonMatches s (readEntry table slot)).knownAddrs ↔
      Remote table p ∧ ∃ x, firstAddr (table slot).remoteMatches p = some x ∧ a = sockAddr x.1 x.2) ∧
    ∀ topic a, a ∈ (syncDaemonMatches s (readEntry table slot)).remoteRoutes topic ↔
      ∃ p, Target table slot topic p ∧ (p, a) ∈ (syncDaemonMatches s (readEntry table slot)).knownAddrs := by
  have hvalid : (readEntry table slot).valid = (table slot).remoteMatches.filterMap (validMatch table) := by
    rw [readEntry, take_of_length_le hlen]
  obtain ⟨w, hwk, hwr, hknown, hroutes⟩ := sync_active (s := s) (e := readEntry table slot)
    (by simp [readEntry, hactive]) hgen fun hcount => by
      rw [hvalid, length_eq_zero_iff.mp hcount, filterMap_nil]
  refine ⟨fun p a => by rw [hknown, mem_know hwk, hvalid, find?_valid hd], fun topic a => ?_⟩
  have hfind : ∀ q, (∃ r ∈ (know w (readEntry table slot).valid).knownAddrs.find?
      (fun r => decide (r.1 = q)), r.2 = a) ↔ (q, a) ∈ (know w (readEntry table slot).valid).knownAddrs := by
    intro q
    rw [← find?_known (know_keys hwk)]
    refine ⟨?_, fun h => ⟨(q, a), h, rfl⟩⟩
    rintro ⟨r, hr, rfl⟩
    have hq : r.1 = q := by simpa using find?_some hr
    exact hq ▸ hr
  rw [hroutes, mem_route (by rw [know, hwr]), hknown]
  simp only [hfind]
  constructor
  · rintro ⟨v, hv, htopic, hmem⟩
    rw [hvalid] at hv
    obtain ⟨m, hm, hsome⟩ := mem_filterMap.mp hv
    obtain ⟨hremote, rfl⟩ := (validMatch_eq_some hd).mp hsome
    exact ⟨m.nodeId, ⟨⟨m, hm, rfl, htopic⟩, hremote⟩, hmem⟩
  · rintro ⟨p, ⟨⟨m, hm, rfl, htopic⟩, hremote⟩, hmem⟩
    refine ⟨⟨m.nodeId, m.topicHash, sockAddr m.port m.addr⟩, ?_, htopic, hmem⟩
    rw [hvalid]
    exact mem_filterMap.mpr ⟨m, hm, (validMatch_eq_some hd).mpr ⟨hremote, rfl⟩⟩

end Sync

/-- The message goes to the targets of its topic, to each of them once, and to
nobody else. -/
def Exact (table : Table n) (slot : Fin n) (topic : Nat) (peers : List Nat) : Prop :=
  peers.Nodup ∧ ∀ p, p ∈ peers ↔ Target table slot topic p

/-- No target of the topic has the same first address as another remote node of
the list. -/
def OwnAddresses (table : Table n) (slot : Fin n) (topic : Nat) : Prop :=
  ∀ p q, Target table slot topic p → (∃ topic', Target table slot topic' q) →
    firstAddr (table slot).remoteMatches p = firstAddr (table slot).remoteMatches q → p = q

section Publish

variable {s : Tables} {table : Table n} {slot : Fin n} {p q a topic : Nat}
  {order : List (Nat × Nat) → List (Nat × Nat)}

theorem publishPeers_inactive (hactive : (table slot).state ≠ .active) :
    publishPeers s (readEntry table slot) order topic = [] := by
  have hroutes : (syncDaemonMatches s (readEntry table slot)).remoteRoutes = fun _ => [] := by
    simp [syncDaemonMatches, enter, readEntry, hactive, wipeTable]
  refine eq_nil_iff_forall_not_mem.mpr fun p hp => ?_
  obtain ⟨addr, haddr, _⟩ := mem_livePeers.mp hp
  rw [hroutes] at haddr
  cases haddr

variable (hd : DistinctIds table) (hlen : (table slot).remoteMatches.length ≤ maxMatches)
  (hgen : s.daemonLastResponseGen ≠ (table slot).responseGen) (hactive : (table slot).state = .active)

include hd hlen hgen hactive

theorem known_same (hp : (p, a) ∈ (syncDaemonMatches s (readEntry table slot)).knownAddrs)
    (hq : (q, a) ∈ (syncDaemonMatches s (readEntry table slot)).knownAddrs) :
    firstAddr (table slot).remoteMatches p = firstAddr (table slot).remoteMatches q ∧
      ∃ topic', Target table slot topic' q := by
  have hknown := (sync_tables hd hlen hgen hactive).1
  obtain ⟨_, x, hx, ha⟩ := (hknown p a).mp hp
  obtain ⟨hremote, y, hy, ha'⟩ := (hknown q a).mp hq
  obtain ⟨hport, haddr⟩ := sockAddr_injective (ha.symm.trans ha')
  obtain ⟨m, hm, _⟩ := Option.map_eq_some_iff.mp hy
  exact ⟨by rw [hx, hy, Prod.ext hport haddr], m.topicHash,
    ⟨m, mem_of_find?_eq_some hm, by simpa using find?_some hm, rfl⟩, hremote⟩

theorem exists_known (ht : Target table slot topic p) :
    ∃ a, (p, a) ∈ (syncDaemonMatches s (readEntry table slot)).knownAddrs := by
  obtain ⟨⟨m, hm, hid, _⟩, hremote⟩ := ht
  obtain ⟨x, hx⟩ := exists_firstAddr ⟨m, hm, hid⟩
  exact ⟨_, ((sync_tables hd hlen hgen hactive).1 p _).mpr ⟨hremote, x, hx, rfl⟩⟩

theorem publishPeers_exact (hown : OwnAddresses table slot topic) (horder : ∀ l, (order l).Perm l) :
    Exact table slot topic (publishPeers s (readEntry table slot) order topic) := by
  have hroutes := (sync_tables hd hlen hgen hactive).2
  refine ⟨SendOrder.livePeers_nodup _ _, fun p => mem_livePeers.trans ⟨?_, fun ht => ?_⟩⟩
  · rintro ⟨addr, haddr, q, hq, rfl⟩
    obtain ⟨p, ht, hp⟩ := (hroutes topic addr).mp haddr
    have hqaddr : q.2 = addr := by simpa using find?_some hq
    have hmem := (horder _).mem_iff.mp (mem_of_find?_eq_some hq)
    obtain ⟨hsame, hother⟩ := known_same hd hlen hgen hactive hp (q := q.1) (hqaddr ▸ hmem)
    exact hown p q.1 ht hother hsame ▸ ht
  · obtain ⟨a, ha⟩ := exists_known hd hlen hgen hactive ht
    refine ⟨a, (hroutes topic a).mpr ⟨p, ht, ha⟩, ?_⟩
    cases hfind : (order (syncDaemonMatches s (readEntry table slot)).knownAddrs).find?
        (fun q => decide (q.2 = a)) with
    | none =>
      have hmiss := find?_eq_none.mp hfind (p, a) ((horder _).mem_iff.mpr ha)
      simp at hmiss
    | some q =>
      have hqaddr : q.2 = a := by simpa using find?_some hfind
      have hmem := (horder _).mem_iff.mp (mem_of_find?_eq_some hfind)
      obtain ⟨hsame, hother⟩ := known_same hd hlen hgen hactive ha (q := q.1) (hqaddr ▸ hmem)
      exact ⟨q, rfl, (hown p q.1 ht hother hsame).symm⟩

def bringForward (r : Nat × Nat) (l : List (Nat × Nat)) : List (Nat × Nat) :=
  if r ∈ l then r :: l.erase r else l

omit hd hlen hgen hactive in
theorem bringForward_perm (r : Nat × Nat) (l : List (Nat × Nat)) : (bringForward r l).Perm l := by
  unfold bringForward
  split_ifs with hmem
  · exact (perm_cons_erase hmem).symm
  · exact .refl l

theorem ownAddresses_of_exact
    (hexact : ∀ order : List (Nat × Nat) → List (Nat × Nat), (∀ l, (order l).Perm l) →
      Exact table slot topic (publishPeers s (readEntry table slot) order topic)) :
    OwnAddresses table slot topic := by
  have hknown := (sync_tables hd hlen hgen hactive).1
  intro p q hp hother hsame
  obtain ⟨_, hq⟩ := hother
  obtain ⟨a, ha⟩ := exists_known hd hlen hgen hactive hp
  have hqa : (q, a) ∈ (syncDaemonMatches s (readEntry table slot)).knownAddrs := by
    obtain ⟨_, x, hx, rfl⟩ := (hknown p a).mp ha
    exact (hknown q _).mpr ⟨hq.2, x, hsame ▸ hx, rfl⟩
  obtain ⟨addr, _, r, hr, hrp⟩ := mem_livePeers.mp (((hexact _ (bringForward_perm (q, a))).2 p).mpr hp)
  have hraddr : r.2 = addr := by simpa using find?_some hr
  have hmem := (bringForward_perm (q, a) _).mem_iff.mp (mem_of_find?_eq_some hr)
  have haddr : addr = a := by
    obtain ⟨_, x, hx, rfl⟩ := (hknown p a).mp ha
    obtain ⟨_, y, hy, heq⟩ := (hknown r.1 r.2).mp hmem
    rw [hrp, hx, Option.some.injEq] at hy
    rw [← hraddr, heq, hy]
  rw [bringForward, if_pos hqa, find?_cons_of_pos (by simp [haddr]), Option.mem_some_iff] at hr
  exact hrp.symm.trans (congrArg Prod.fst hr.symm)

end Publish

/-- A publish call reaches its targets in every order of the table of addresses
exactly if there are none, or the slot is active and no target shares its first
address. -/
theorem publish_exact_iff (table : Table n) (slot : Fin n) (s : Tables) (topic : Nat)
    (hd : DistinctIds table) (hlen : (table slot).remoteMatches.length ≤ maxMatches)
    (hgen : s.daemonLastResponseGen ≠ (table slot).responseGen) :
    (∀ order : List (Nat × Nat) → List (Nat × Nat), (∀ l, (order l).Perm l) →
        Exact table slot topic (publishPeers s (readEntry table slot) order topic)) ↔
      (∀ p, ¬ Target table slot topic p) ∨
        (table slot).state = .active ∧ OwnAddresses table slot topic := by
  by_cases hactive : (table slot).state = .active
  · constructor
    · exact fun hexact => .inr ⟨hactive, ownAddresses_of_exact hd hlen hgen hactive hexact⟩
    · rintro (hnone | ⟨_, hown⟩) order horder
      · exact publishPeers_exact hd hlen hgen hactive (fun p _ hp => absurd hp (hnone p)) horder
      · exact publishPeers_exact hd hlen hgen hactive hown horder
  · constructor
    · refine fun hexact => .inl fun p hp => ?_
      have hmem := ((hexact id fun l => .refl l).2 p).mpr hp
      rw [publishPeers_inactive hactive] at hmem
      cases hmem
    · rintro (hnone | ⟨hstate, _⟩) order _
      · rw [publishPeers_inactive hactive]
        exact ⟨nodup_nil, fun p => iff_of_false (by simp) (hnone p)⟩
      · exact absurd hstate hactive

def twoListeners (addr : Addr) : Table 3 :=
  tableOf 3 [{ fillEntry 0 5 (remoteNode 1 0) zeroEntry with
      responseGen := 3
      remoteMatches := [⟨5, 7, 7000, (10, 0, 0, 5)⟩, ⟨6, 7, 7000, addr⟩] },
    fillEntry 9 5 (remoteNode 5 0) zeroEntry, fillEntry 9 5 (remoteNode 6 0) zeroEntry]

theorem own_addresses_reached :
    ∃ slot, Target (twoListeners (10, 0, 0, 6)) slot 7 5 ∧
      ∀ order : List (Nat × Nat) → List (Nat × Nat), (∀ l, (order l).Perm l) →
        Exact (twoListeners (10, 0, 0, 6)) slot 7
          (publishPeers noTables (readEntry (twoListeners (10, 0, 0, 6)) slot) order 7) := by
  have hfacts : let table := twoListeners (10, 0, 0, 6)
      DistinctIds table ∧ ∃ slot, (table slot).remoteMatches.length ≤ maxMatches ∧
        noTables.daemonLastResponseGen ≠ (table slot).responseGen ∧ (table slot).state = .active ∧
        (∀ m ∈ (table slot).remoteMatches, ∀ m' ∈ (table slot).remoteMatches,
          firstAddr (table slot).remoteMatches m.nodeId = firstAddr (table slot).remoteMatches m'.nodeId →
            m.nodeId = m'.nodeId) ∧
        Target table slot 7 5 := by
    dsimp only [DistinctIds]
    decide +kernel
  obtain ⟨hd, slot, hlen, hgen, hactive, hown, htarget⟩ := hfacts
  refine ⟨slot, htarget, (publish_exact_iff _ slot noTables 7 hd hlen hgen).mpr (.inr ⟨hactive, ?_⟩)⟩
  rintro p q ⟨⟨m, hm, rfl, _⟩, _⟩ ⟨_, ⟨m', hm', rfl, _⟩, _⟩ hsame
  exact hown m hm m' hm' hsame

/-- Of two listeners with one address only one receives the message. -/
theorem shared_address_loses_peer :
    ¬ ∀ (n : Nat) (table : Table n) (slot : Fin n) (s : Tables) (topic : Nat)
      (order : List (Nat × Nat) → List (Nat × Nat)), DistinctIds table →
      (table slot).remoteMatches.length ≤ maxMatches →
      s.daemonLastResponseGen ≠ (table slot).responseGen → (∀ l, (order l).Perm l) →
        Exact table slot topic (publishPeers s (readEntry table slot) order topic) := by
  intro hall
  have hfacts : let table := twoListeners (10, 0, 0, 5)
      DistinctIds table ∧ ∃ slot, (table slot).remoteMatches.length ≤ maxMatches ∧
        noTables.daemonLastResponseGen ≠ (table slot).responseGen ∧ ∃ p ∈ [5, 6],
          Target table slot 7 p ∧ p ∉ publishPeers noTables (readEntry table slot) id 7 := by
    dsimp only [DistinctIds]
    decide +kernel
  obtain ⟨hd, slot, hlen, hgen, p, _, htarget, hmissed⟩ := hfacts
  have hexact := hall 3 (twoListeners (10, 0, 0, 5)) slot noTables 7 id hd hlen hgen fun l => .refl l
  exact hmissed ((hexact.2 p).mpr htarget)

end RmwAxon.RemoteFanout
