import RmwAxon.Matching

namespace RmwAxon.MatchPass

open Loops Matching NodeTable Function List Option

variable {n : Nat}

def node (e : NodeTableEntry) : NodeTableEntry := { e with remoteMatches := [], responseGen := 0 }

def SameNode (e e' : NodeTableEntry) : Prop := node e' = node e

def SameNodes (table table' : Table n) : Prop := ∀ k, SameNode (table k) (table' k)

namespace SameNode

variable {e e' e'' : NodeTableEntry}

theorem refl (e : NodeTableEntry) : SameNode e e := rfl

theorem trans (h : SameNode e e') (h' : SameNode e' e'') : SameNode e e'' := Eq.trans h' h

theorem field {β : Type} (h : SameNode e e') (f : NodeTableEntry → β) (hf : ∀ e, f (node e) = f e) :
    f e' = f e := by
  rw [← hf e', ← hf e, h]

variable (h : SameNode e e')
include h

theorem state : e'.state = e.state := h.field _ fun _ => rfl

theorem domainId : e'.domainId = e.domainId := h.field _ fun _ => rfl

theorem nodeId : e'.nodeId = e.nodeId := h.field _ fun _ => rfl

theorem quicPort : e'.quicPort = e.quicPort := h.field _ fun _ => rfl

theorem quicAddrs : e'.quicAddrs = e.quicAddrs := h.field _ fun _ => rfl

theorem daemonOrigin : e'.daemonOrigin = e.daemonOrigin := h.field _ fun _ => rfl

theorem publishedTopics : e'.publishedTopics = e.publishedTopics :=
  h.field _ fun _ => rfl

theorem subscribedTopics : e'.subscribedTopics = e.subscribedTopics :=
  h.field _ fun _ => rfl

end SameNode

theorem SameNodes.refl (table : Table n) : SameNodes table table := fun k => .refl (table k)

variable {table : Table n} {ms : List MatchEntry} {m : MatchEntry} {p : TopicEntry} {i j : Fin n}

theorem SameNodes.trans {table' table'' : Table n} (h : SameNodes table table')
    (h' : SameNodes table' table'') : SameNodes table table'' := fun k => (h k).trans (h' k)

variable {k x z : Fin n}

theorem sameNodes_update {table' : Table n} (h : SameNodes table table')
    {e : NodeTableEntry} (he : SameNode (table' k) e) :
    SameNodes table (update table' k e) := by
  intro j
  rw [update_apply]
  split_ifs with hj
  · subst hj
    exact (h j).trans he
  · exact h j

def fresh (ms : List MatchEntry) (nodeId topicHash port : Nat) (addrs : List Addr) :
    List MatchEntry :=
  ((addrs.take (min (min addrs.length maxQuicAddrs) (maxMatches - ms.length))).map
    fun addr => MatchEntry.mk nodeId topicHash port addr).filter fun m => !known ms m

def enlarge (ms : List MatchEntry) (nodeId topicHash port : Nat) (addrs : List Addr) :
    List MatchEntry :=
  ms ++ fresh ms nodeId topicHash port addrs

theorem insert_loop (hms : ms.length ≤ maxMatches) (nodeId topicHash port : Nat) (addrs : List Addr)
    (acc : List MatchEntry) (hroom : acc.length + addrs.length ≤ maxMatches) :
    addrs.foldlM (fun acc addr => do
      let old ← slice maxMatches ms
      let m : MatchEntry := ⟨nodeId, topicHash, port, addr⟩
      if known old m then some acc else store acc m) acc =
    some (acc ++ (addrs.map fun addr => MatchEntry.mk nodeId topicHash port addr).filter
      fun m => !known ms m) := by
  induction addrs generalizing acc with
  | nil => simp
  | cons addr addrs ih =>
    rw [length_cons] at hroom
    rw [foldlM_cons]
    simp only [slice, hms, if_true, bind_eq_bind, bind_some]
    cases hk : known ms ⟨nodeId, topicHash, port, addr⟩ with
    | true =>
      simp only [if_true, bind_some]
      simpa [slice, hms, hk] using ih acc (by omega)
    | false =>
      have hlt : acc.length < maxMatches := by omega
      have := ih (acc ++ [⟨nodeId, topicHash, port, addr⟩]) (by simp; omega)
      simpa [store, slice, hms, hk, hlt] using this

theorem insertMatches_eq (ms : List MatchEntry) (nodeId topicHash port : Nat) (addrs : List Addr) :
    insertMatches ms nodeId topicHash port addrs = some (enlarge ms nodeId topicHash port addrs) := by
  rcases Nat.lt_or_ge maxMatches ms.length with hbig | hms
  · have h0 : maxMatches - ms.length = 0 := by omega
    simp [insertMatches, enlarge, fresh, h0]
  · refine insert_loop hms nodeId topicHash port _ ms ?_
    rw [length_take]
    omega

theorem known_eq_true : known ms m = true ↔
      ∃ k ∈ ms, k.nodeId = m.nodeId ∧ k.topicHash = m.topicHash ∧ k.addr = m.addr := by
  simp [known]

theorem known_of_subset {ms' : List MatchEntry} (h : ms ⊆ ms') (hm : known ms m = true) :
    known ms' m = true := by
  obtain ⟨k, hk, hkey⟩ := known_eq_true.mp hm
  exact known_eq_true.mpr ⟨k, h hk, hkey⟩

theorem known_of_mem (h : m ∈ ms) : known ms m = true :=
  known_eq_true.mpr ⟨m, h, rfl, rfl, rfl⟩

variable {ms : List MatchEntry} {nodeId topicHash port : Nat} {addrs : List Addr}

theorem prefix_enlarge : ms <+: enlarge ms nodeId topicHash port addrs := List.prefix_append ..

theorem mem_enlarge (h : m ∈ enlarge ms nodeId topicHash port addrs) :
    m ∈ ms ∨ ∃ addr ∈ addrs.take maxQuicAddrs, m = ⟨nodeId, topicHash, port, addr⟩ := by
  rcases mem_append.mp h with h | h
  · exact .inl h
  · obtain ⟨hm, _⟩ := mem_filter.mp h
    obtain ⟨addr, haddr, rfl⟩ := mem_map.mp hm
    exact .inr ⟨addr, take_subset_take_left addrs (by omega) haddr, rfl⟩

theorem length_enlarge_le (h : ms.length ≤ maxMatches) :
    (enlarge ms nodeId topicHash port addrs).length ≤ maxMatches := by
  have hfilter := length_filter_le (fun m => !known ms m)
    ((addrs.take (min (min addrs.length maxQuicAddrs) (maxMatches - ms.length))).map
      fun addr => MatchEntry.mk nodeId topicHash port addr)
  rw [length_map, length_take] at hfilter
  rw [enlarge, fresh, length_append]
  omega

theorem known_enlarge {addr : Addr}
    (haddr : addr ∈ addrs.take (min (min addrs.length maxQuicAddrs) (maxMatches - ms.length))) :
    known (enlarge ms nodeId topicHash port addrs) ⟨nodeId, topicHash, port, addr⟩ = true := by
  cases hk : known ms ⟨nodeId, topicHash, port, addr⟩ with
  | true => exact known_of_subset prefix_enlarge.subset hk
  | false =>
    apply known_of_mem
    apply mem_append_right
    exact mem_filter.mpr ⟨mem_map_of_mem haddr, by simp [hk]⟩

theorem enlarge_covers (hroom : ms.length + maxQuicAddrs ≤ maxMatches) {addr : Addr}
    (haddr : addr ∈ addrs.take maxQuicAddrs) :
    known (enlarge ms nodeId topicHash port addrs) ⟨nodeId, topicHash, port, addr⟩ = true := by
  refine known_enlarge ((take_eq_take_iff.mpr ?_) ▸ haddr)
  omega

def Pair (table : Table n) (p s : Fin n) (t : Nat) : Prop :=
  ∃ pe ∈ (table p).publishedTopics, pe.hash = t ∧
    ∃ se ∈ (table s).subscribedTopics, se.hash = t ∧ topicEntryQosCompatible pe se = true
  deriving Decidable

structure Offer (table : Table n) (x z : Fin n) (t : Nat) : Prop where
  distinct : x ≠ z
  activeX : (table x).state = .active
  activeZ : (table z).state = .active
  domain : (table z).domainId = (table x).domainId
  pair : Pair table z x t ∨ Pair table x z t

theorem Offer.symm {t : Nat} (h : Offer table x z t) : Offer table z x t :=
  ⟨h.distinct.symm, h.activeZ, h.activeX, h.domain.symm, h.pair.symm⟩

theorem offered_eq_true {subs : List TopicEntry} : offered p subs = true ↔
      ∃ s ∈ subs, s.hash = p.hash ∧ topicEntryQosCompatible p s = true := by
  simp [offered]

def enlargeFor (table : Table n) (z : Fin n) (t : Nat) (ms : List MatchEntry) : List MatchEntry :=
  enlarge ms (table z).nodeId t (table z).quicPort (table z).quicAddrs

def Stable (base : Table n) (P : Fin n → List MatchEntry → Prop) : Prop :=
  ∀ x z t ms, Offer base x z t → P x ms → P x (enlargeFor base z t ms)

structure Keeps (base : Table n) (P : Fin n → List MatchEntry → Prop) (table : Table n) : Prop where
  nodes : SameNodes base table
  lists : ∀ x, P x (table x).remoteMatches

variable {base table table' : Table n} {P : Fin n → List MatchEntry → Prop}

theorem Keeps.update (h : Keeps base P table) {e : NodeTableEntry}
    (he : SameNode (table k) e) (hP : P k e.remoteMatches) :
    Keeps base P (Function.update table k e) := by
  refine ⟨sameNodes_update h.nodes he, fun x => ?_⟩
  rw [update_apply]
  split_ifs with hx
  · exact hx ▸ hP
  · exact h.lists x

theorem enlarge_sameNode (h : SameNodes base table) (z : Fin n) (t : Nat) (ms : List MatchEntry) :
    enlarge ms (table z).nodeId t (table z).quicPort (table z).quicAddrs = enlargeFor base z t ms := by
  rw [(h z).nodeId, (h z).quicPort, (h z).quicAddrs, enlargeFor]

theorem Keeps.addMatches (hstable : Stable base P) (h : Keeps base P table) {t : Nat}
    (ho : Offer base x z t) :
    Keeps base P (Function.update table x
      (setMatches (table x) (enlargeFor base z t (table x).remoteMatches))) :=
  h.update rfl (hstable x z t _ ho (h.lists x))

theorem offerTopic_eq (hij : i ≠ j) (hnodes : SameNodes base table)
    (h : offerTopic i j table p = some table') :
    offered p (base j).subscribedTopics = false ∧ table' = table ∨
      offered p (base j).subscribedTopics = true ∧ table' = update (update table j
            (setMatches (table j) (enlargeFor base i p.hash (table j).remoteMatches))) i
          (setMatches (table i) (enlargeFor base j p.hash (table i).remoteMatches)) := by
  rw [← (hnodes j).subscribedTopics]
  simp only [offerTopic, bind_eq_bind, bind_eq_some_iff, slice_eq_some] at h
  obtain ⟨subs, ⟨_, rfl⟩, h⟩ := h
  cases ho : offered p (table j).subscribedTopics with
  | false => exact .inl ⟨rfl, by simpa [ho] using h.symm⟩
  | true =>
    refine .inr ⟨rfl, ?_⟩
    rw [← enlarge_sameNode hnodes, ← enlarge_sameNode hnodes]
    simpa [ho, insertMatches_eq, hij, setMatches] using h.symm

theorem offerTopic_keeps (hstable : Stable base P) (h : Keeps base P table) (hij : i ≠ j)
    (hi : (base i).state = .active) (hj : (base j).state = .active)
    (hd : (base j).domainId = (base i).domainId) (hp : p ∈ (base i).publishedTopics)
    (ho : offerTopic i j table p = some table') :
    Keeps base P table' := by
  rcases offerTopic_eq hij h.nodes ho with ⟨_, rfl⟩ | ⟨hoff, rfl⟩
  · exact h
  obtain ⟨s, hs, hhash, hqos⟩ := offered_eq_true.mp hoff
  have hoffer : Offer base i j p.hash :=
    ⟨hij, hi, hj, hd, .inr ⟨p, hp, rfl, s, hs, hhash, hqos⟩⟩
  have hboth := (h.addMatches hstable hoffer.symm).addMatches hstable hoffer
  rwa [update_of_ne hij] at hboth

theorem wakeChanged_remoteMatches (before table : Table n) (k x : Fin n) :
    (wakeChanged before table k x).remoteMatches = (table x).remoteMatches := by
  unfold wakeChanged
  split_ifs
  · rw [update_apply]
    split_ifs with hx
    · rw [hx, wake]
    · rfl
  · rfl

theorem Keeps.wakeChanged (h : Keeps base P table) (before : Table n) (k : Fin n) :
    Keeps base P (wakeChanged before table k) := by
  refine ⟨h.nodes.trans ?_, fun x => ?_⟩
  · unfold Matching.wakeChanged
    split_ifs
    · exact sameNodes_update (SameNodes.refl table) rfl
    · exact .refl table
  · rw [wakeChanged_remoteMatches]
    exact h.lists x

theorem matchPair_eq (hnodes : SameNodes base table) (h : matchPair i table j = some table') :
    (i = j ∨ (base j).state ≠ .active ∨ (base j).domainId ≠ (base i).domainId ∨
      (base j).subscribedTopics = []) ∧ table' = table ∨
    (i ≠ j ∧ (base j).state = .active ∧ (base j).domainId = (base i).domainId) ∧
      ∃ r, (base i).publishedTopics.foldlM (offerTopic i j) table = some r ∧
        table' = wakeChanged table (wakeChanged table r j) i := by
  rw [← (hnodes j).state, ← (hnodes j).domainId, ← (hnodes i).domainId, ← (hnodes j).subscribedTopics,
    ← (hnodes i).publishedTopics]
  simp only [matchPair] at h
  split_ifs at h with hskip
  · exact .inl ⟨hskip, by simpa using h.symm⟩
  simp only [bind_eq_bind, bind_eq_some_iff, slice_eq_some] at h
  obtain ⟨pubs, ⟨_, rfl⟩, r, hr, h⟩ := h
  simp only [not_or, not_not] at hskip
  exact .inr ⟨⟨hskip.1, hskip.2.1, hskip.2.2.1⟩, r, hr, by simpa using h.symm⟩

theorem matchPair_keeps (hstable : Stable base P) (h : Keeps base P table)
    (hi : (base i).state = .active) (hm : matchPair i table j = some table') :
    Keeps base P table' := by
  rcases matchPair_eq h.nodes hm with ⟨_, rfl⟩ | ⟨⟨hij, hj, hd⟩, r, hr, rfl⟩
  · exact h
  · have hrk : Keeps base P r := foldlM_invariant
      (fun p hp _ _ hk ho => offerTopic_keeps hstable hk hij hi hj hd hp ho) h hr
    exact (hrk.wakeChanged table j).wakeChanged table i

theorem matchPublisher_eq (hnodes : SameNodes base table) (h : matchPublisher table i = some table') :
    ((base i).state ≠ .active ∨ (base i).publishedTopics = []) ∧ table' = table ∨
      (base i).state = .active ∧ (List.finRange n).foldlM (matchPair i) table = some table' := by
  rw [← (hnodes i).state, ← (hnodes i).publishedTopics]
  simp only [matchPublisher] at h
  split_ifs at h with hskip
  · exact .inl ⟨hskip, by simpa using h.symm⟩
  · simp only [not_or, not_not] at hskip
    exact .inr ⟨hskip.1, h⟩

theorem matchPublisher_keeps (hstable : Stable base P) (h : Keeps base P table)
    (hm : matchPublisher table i = some table') : Keeps base P table' := by
  rcases matchPublisher_eq h.nodes hm with ⟨_, rfl⟩ | ⟨hi, hm⟩
  · exact h
  · exact foldlM_invariant (fun j _ _ _ hk hp => matchPair_keeps hstable hk hi hp) h hm

theorem matchTopics_keeps (hstable : Stable base P) (h : Keeps base P table)
    (hm : matchTopics table = some table') : Keeps base P table' :=
  foldlM_invariant (fun _ _ _ _ hk hp => matchPublisher_keeps hstable hk hp) h hm

def TopicsInRange (table : Table n) : Prop :=
  ∀ k, (table k).publishedTopics.length ≤ maxTopicsPerNode ∧
    (table k).subscribedTopics.length ≤ maxTopicsPerNode

theorem TopicsInRange.congr (h : TopicsInRange base) (hnodes : SameNodes base table) :
    TopicsInRange table := by
  intro k
  rw [(hnodes k).publishedTopics, (hnodes k).subscribedTopics]
  exact h k

theorem offerTopic_isSome (i j : Fin n) (table : Table n) (p : TopicEntry) :
    (offerTopic i j table p).isSome = decide ((table j).subscribedTopics.length ≤ maxTopicsPerNode) := by
  by_cases hrange : (table j).subscribedTopics.length ≤ maxTopicsPerNode
  · simp only [offerTopic, slice, hrange, if_true, bind_eq_bind, bind_some, insertMatches_eq]
    split_ifs <;> simp
  · simp [offerTopic, slice, hrange]

theorem stable_true (base : Table n) : Stable base fun _ _ => True := fun _ _ _ _ _ _ => trivial

def pairInRange (base : Table n) (i j : Fin n) : Bool :=
  decide (i = j ∨ (base j).state ≠ .active ∨ (base j).domainId ≠ (base i).domainId ∨
      (base j).subscribedTopics = []) ||
    decide ((base i).publishedTopics.length ≤ maxTopicsPerNode) && (base i).publishedTopics.all fun _ =>
      decide ((base j).subscribedTopics.length ≤ maxTopicsPerNode)

def inRange (base : Table n) : Bool :=
  (List.finRange n).all fun i => decide ((base i).state ≠ .active ∨ (base i).publishedTopics = []) ||
    (List.finRange n).all (pairInRange base i)

theorem matchPair_isSome (h : SameNodes base table) (hi : (base i).state = .active) (j : Fin n) :
    (matchPair i table j).isSome = pairInRange base i j := by
  simp only [matchPair, (h j).state, (h j).domainId, (h i).domainId, (h j).subscribedTopics,
    (h i).publishedTopics, pairInRange]
  split_ifs with hskip
  · simp [hskip]
  rw [decide_eq_false hskip, Bool.false_or]
  simp only [not_or, not_not] at hskip
  by_cases hrange : (base i).publishedTopics.length ≤ maxTopicsPerNode
  · have hloop := @foldlM_isSome _ _ (offerTopic i j) (base i).publishedTopics table
      (Keeps base fun _ _ => True) _
      (fun p _ u hu => (offerTopic_isSome i j u p).trans (by rw [(hu.nodes j).subscribedTopics]))
      (fun p hp _ _ hu ho => offerTopic_keeps (stable_true base) hu hskip.1 hi hskip.2.1 hskip.2.2.1 hp ho)
      ⟨h, fun _ => trivial⟩
    rw [decide_eq_true hrange, Bool.true_and, ← hloop]
    cases hr : (base i).publishedTopics.foldlM (offerTopic i j) table <;> simp [slice, hrange, hr]
  · simp [slice, hrange]

theorem matchTopics_isSome (h : SameNodes base table) : (matchTopics table).isSome = inRange base := by
  refine foldlM_isSome (I := Keeps base fun _ _ => True) (fun i _ u hu => ?_)
    (fun _ _ _ _ hu hm => matchPublisher_keeps (stable_true base) hu hm) ⟨h, fun _ => trivial⟩
  simp only [matchPublisher, (hu.nodes i).state, (hu.nodes i).publishedTopics]
  split_ifs with hskip
  · simp [hskip]
  rw [decide_eq_false hskip, Bool.false_or]
  simp only [not_or, not_not] at hskip
  exact foldlM_isSome (I := Keeps base fun _ _ => True) (fun j _ v hv => matchPair_isSome hv.nodes hskip.1 j)
    (fun j _ _ _ hv hm => matchPair_keeps (stable_true base) hv hskip.1 hm) hu

theorem TopicsInRange.matchTopics_isSome (h : TopicsInRange table) : (matchTopics table).isSome = true := by
  rw [MatchPass.matchTopics_isSome (SameNodes.refl table)]
  simp [inRange, pairInRange, fun k => (h k).1, fun k => (h k).2]

end RmwAxon.MatchPass
