import RmwAxon.MatchPass
import RmwAxon.Transition
import Mathlib.Data.Fintype.Defs
import Mathlib.Data.Fintype.Basic

namespace RmwAxon.TopicUpdates

open Loops Matching MatchPass NodeTable List

variable {n : Nat} {base table table' : Table n}

theorem compactMatches_remoteMatches (keep : MatchEntry → Bool) (e : NodeTableEntry) :
    (compactMatches keep e.remoteMatches.length e).remoteMatches =
      (e.remoteMatches.take maxMatches).filter keep := by
  have hlimit : min e.remoteMatches.length maxMatches ≤ e.remoteMatches.length := by omega
  have htake : e.remoteMatches.take (min e.remoteMatches.length maxMatches) =
      e.remoteMatches.take maxMatches := take_eq_take_iff.mpr (by omega)
  simp only [compactMatches]
  split_ifs with hlt
  · rw [← htake]
    exact take_sweep hlimit
  rw [sweep_count hlimit, htake] at hlt
  have hle := length_filter_le keep (e.remoteMatches.take maxMatches)
  have hle' := length_take_le' maxMatches e.remoteMatches
  have hall : e.remoteMatches.take maxMatches = e.remoteMatches :=
    take_of_length_le (by rw [length_take] at hle; omega)
  rw [hall] at hle hlt ⊢
  exact (filter_eq_self.mpr (length_filter_eq_length_iff.mp (by omega))).symm

theorem dropInactive_sameNodes (table : Table n) : SameNodes table (dropInactive table) := by
  intro k
  simp only [dropInactive]
  split_ifs
  · rfl
  · simp only [compactMatches]
    split_ifs <;> rfl

theorem dropInactive_remoteMatches {k : Fin n} (hk : (table k).state = .active) :
    (dropInactive table k).remoteMatches = ((table k).remoteMatches.take maxMatches).filter
      fun m => (activeNodeIds table).contains m.nodeId := by
  simp only [dropInactive, hk, ne_eq, not_true, false_or]
  split_ifs with h0
  · simp [length_eq_zero_iff.mp h0]
  · exact compactMatches_remoteMatches ..

theorem mem_activeNodeIds {id : Nat} :
    id ∈ activeNodeIds table ↔ ∃ k, (table k).state = .active ∧ (table k).nodeId ≠ 0 ∧
      (table k).nodeId = id := by
  simp [activeNodeIds, and_assoc]

def Grows (base u v : Table n) : Prop :=
  SameNodes base u → Keeps base (fun x ms => (u x).remoteMatches <+: ms) v

theorem grows_refl (base u : Table n) : Grows base u u := fun h => ⟨h, fun _ => List.prefix_refl _⟩

theorem grows_trans (base u v w : Table n) (huv : Grows base u v) (hvw : Grows base v w) :
    Grows base u w := fun h =>
  ⟨(hvw (huv h).nodes).nodes, fun x => ((huv h).lists x).trans ((hvw (huv h).nodes).lists x)⟩

theorem stable_keeps_front (base u : Table n) : Stable base fun x ms => (u x).remoteMatches <+: ms :=
  fun _ _ _ _ _ h => h.trans prefix_enlarge

def Roomy (table : Table n) : Prop :=
  ∀ x, (table x).remoteMatches.length ≤ maxMatches - maxQuicAddrs

variable {u v mid : Table n} {x z i j : Fin n} {t : Nat} {p : TopicEntry}

def Covered (base table : Table n) (x z : Fin n) (t : Nat) : Prop :=
  ∀ addr ∈ (base z).quicAddrs.take maxQuicAddrs,
    known (table x).remoteMatches ⟨(base z).nodeId, t, (base z).quicPort, addr⟩ = true

theorem Covered.grows (h : Covered base u x z t) (hu : SameNodes base u) (hg : Grows base u v) :
    Covered base v x z t :=
  fun addr haddr => known_of_subset ((hg hu).lists x).subset (h addr haddr)

theorem enlargeFor_covers {ms : List MatchEntry} (hms : ms.length ≤ maxMatches - maxQuicAddrs)
    (hx : (table x).remoteMatches = enlargeFor base z t ms) : Covered base table x z t := by
  have hle : maxQuicAddrs ≤ maxMatches := by decide
  intro addr haddr
  rw [hx]
  exact enlarge_covers (by omega) haddr

def Done (base : Table n) (i j : Fin n) (p : TopicEntry) (table : Table n) : Prop :=
  SameNodes base table ∧ (offered p (base j).subscribedTopics = true →
    Covered base table j i p.hash ∧ Covered base table i j p.hash)

theorem Done.grows (h : Done base i j p u) (hg : Grows base u v) : Done base i j p v :=
  ⟨(hg h.1).nodes, fun ho => ⟨(h.2 ho).1.grows h.1 hg, (h.2 ho).2.grows h.1 hg⟩⟩

theorem offerTopic_enlarges (hij : i ≠ j) (hoff : offered p (base j).subscribedTopics = true)
    (h : SameNodes base table) (ho : offerTopic i j table p = some table') :
    (table' j).remoteMatches = enlargeFor base i p.hash (table j).remoteMatches ∧
      (table' i).remoteMatches = enlargeFor base j p.hash (table i).remoteMatches := by
  rcases offerTopic_eq hij h ho with ⟨hnot, _⟩ | ⟨_, heq⟩
  · rw [hoff] at hnot
    cases hnot
  · exact ⟨by simp [heq, hij.symm, setMatches], by simp [heq, setMatches]⟩

section Each

-- last is the table at the end of the pass, D what an offer from i to j leaves behind
variable {last : Table n} {D : Table n → Prop} (hi : (base i).state = .active) (hij : i ≠ j)
  (hj : (base j).state = .active) (hd : (base j).domainId = (base i).domainId)
  (hp : p ∈ (base i).publishedTopics) (hoff : offered p (base j).subscribedTopics = true)
  (hkeep : ∀ u v, D u → Grows base u v → D v)
  (hmark : ∀ u u', SameNodes base u → SameNodes base u' → offerTopic i j u p = some u' →
    Grows base u' last → D u')

include hi hij hj hd hp hoff hkeep hmark

variable (h : SameNodes base table)
include h

theorem matchPair_each (hm : matchPair i table j = some table')
    (hlast : Grows base table' last) : D table' := by
  rcases matchPair_eq h hm with ⟨hskip, _⟩ | ⟨_, r, hr, rfl⟩
  · obtain ⟨s, hs, _⟩ := offered_eq_true.mp hoff
    simp [hij, hj, hd, ne_nil_of_mem hs] at hskip
  have hwoken : Grows base r (wakeChanged table (wakeChanged table r j) i) := fun hr =>
    (((grows_refl base r hr).wakeChanged table j).wakeChanged table i)
  have hstep : ∀ q ∈ (base i).publishedTopics, ∀ u u', offerTopic i j u q = some u' →
      Grows base u u' := fun q hq u u' ho hu =>
    offerTopic_keeps (stable_keeps_front base u) ⟨hu, fun _ => prefix_refl _⟩ hij hi hj hd hq ho
  refine hkeep r _ (foldlM_each (grows_refl base) (grows_trans base) hstep hp hkeep ?_ hr) hwoken
  intro u u' hsu ho hut
  have hu := (hsu h).nodes
  exact hmark u u' hu (hstep p hp u u' ho hu).nodes ho
    (grows_trans base _ _ _ hut (grows_trans base _ _ _ hwoken hlast))

theorem matchPublisher_each (hm : matchPublisher table i = some table')
    (hlast : Grows base table' last) : D table' := by
  rcases matchPublisher_eq h hm with ⟨hskip, _⟩ | ⟨_, hloop⟩
  · simp [hi, ne_nil_of_mem hp] at hskip
  have hstep : ∀ k ∈ finRange n, ∀ u u', matchPair i u k = some u' → Grows base u u' :=
    fun k _ u u' ho hu =>
      matchPair_keeps (stable_keeps_front base u) ⟨hu, fun _ => prefix_refl _⟩ hi ho
  refine foldlM_each (grows_refl base) (grows_trans base) hstep (mem_finRange j) hkeep ?_ hloop
  intro u u' hsu ho hut
  exact matchPair_each hi hij hj hd hp hoff hkeep hmark (hsu h).nodes ho (grows_trans base _ _ _ hut hlast)

theorem matchTopics_each (hm : matchTopics table = some last) : D last := by
  have hstep : ∀ k ∈ finRange n, ∀ u u', matchPublisher u k = some u' → Grows base u u' :=
    fun k _ u u' ho hu =>
      matchPublisher_keeps (stable_keeps_front base u) ⟨hu, fun _ => prefix_refl _⟩ ho
  refine foldlM_each (grows_refl base) (grows_trans base) hstep (mem_finRange i) hkeep ?_ hm
  intro u u' hsu ho hut
  exact matchPublisher_each hi hij hj hd hp hoff hkeep hmark (hsu h).nodes ho hut

end Each

theorem matchTopics_done (hroom : Roomy table') (hm : matchTopics table = some table')
    (hi : (table i).state = .active) (hij : i ≠ j) (hj : (table j).state = .active)
    (hd : (table j).domainId = (table i).domainId) (hp : p ∈ (table i).publishedTopics)
    (hoff : offered p (table j).subscribedTopics = true) :
    Covered table table' j i p.hash ∧ Covered table table' i j p.hash := by
  refine (matchTopics_each (D := Done table i j p) hi hij hj hd hp hoff (fun _ _ h hg => h.grows hg)
    (fun u u' hu hu' ho hg => ?_) (SameNodes.refl table) hm).2 hoff
  have hroom' : Roomy u' := fun x => ((hg hu').lists x).length_le.trans (hroom x)
  refine ⟨hu', fun hoff => ?_⟩
  obtain ⟨hj, hi⟩ := offerTopic_enlarges hij hoff hu ho
  refine ⟨enlargeFor_covers (Nat.le_trans ?_ (hroom' j)) hj,
    enlargeFor_covers (Nat.le_trans ?_ (hroom' i)) hi⟩
  · rw [hj]
    exact prefix_enlarge.length_le
  · rw [hi]
    exact prefix_enlarge.length_le

theorem matchTopics_covers (hroom : Roomy table') (hm : matchTopics table = some table')
    (ho : Offer table x z t) : Covered table table' x z t := by
  rcases ho.pair with ⟨p, hp, rfl, s, hs, hhash, hqos⟩ | ⟨p, hp, rfl, s, hs, hhash, hqos⟩
  · exact (matchTopics_done hroom hm ho.activeZ ho.distinct.symm ho.activeX ho.domain.symm hp
      (offered_eq_true.mpr ⟨s, hs, hhash, hqos⟩)).1
  · exact (matchTopics_done hroom hm ho.activeX ho.distinct ho.activeZ ho.domain hp
      (offered_eq_true.mpr ⟨s, hs, hhash, hqos⟩)).2

/-- A match refers to an active node of the domain, by its port and one of its
addresses, with a compatible pair of endpoints. -/
def Justified (table : Table n) (x : Fin n) (m : MatchEntry) : Prop :=
  ∃ z, (table z).state = .active ∧ (table z).domainId = (table x).domainId ∧
    m.nodeId = (table z).nodeId ∧ m.port = (table z).quicPort ∧
    m.addr ∈ (table z).quicAddrs.take maxQuicAddrs ∧
    (Pair table z x m.topicHash ∨ Pair table x z m.topicHash)
  deriving Decidable

theorem stable_justified (table : Table n) :
    Stable table fun x ms => (table x).state = .active → ∀ m ∈ ms, Justified table x m := by
  intro x z t ms ho h hx m hm
  rcases mem_enlarge hm with hm | ⟨addr, haddr, rfl⟩
  · exact h hx m hm
  · exact ⟨z, ho.activeZ, ho.domain, rfl, rfl, haddr, ho.pair⟩

structure Numbered (table : Table n) : Prop where
  distinct : ∀ x y, (table x).state = .active → (table y).state = .active →
    (table x).nodeId = (table y).nodeId → x = y
  nonzero : ∀ x, (table x).state = .active → (table x).nodeId ≠ 0

theorem processTopicUpdates_eq (hm : matchTopics table = some mid) :
    processTopicUpdates table = some (dropInactive mid) := by
  simp [processTopicUpdates, hm]

theorem mem_dropInactive (hnum : Numbered table) (hnodes : SameNodes table mid) (hroom : Roomy mid)
    (hx : (table x).state = .active) {m : MatchEntry} (hj : Justified table x m) :
    m ∈ (dropInactive mid x).remoteMatches ↔ m ∈ (mid x).remoteMatches := by
  have hle : maxMatches - maxQuicAddrs ≤ maxMatches := Nat.sub_le ..
  obtain ⟨z, hz, _, hid, _⟩ := hj
  rw [dropInactive_remoteMatches ((hnodes x).state.trans hx),
    take_of_length_le (Nat.le_trans (hroom x) hle), mem_filter]
  have hmem : m.nodeId ∈ activeNodeIds mid := by
    refine mem_activeNodeIds.mpr ⟨z, (hnodes z).state.trans hz, ?_, ?_⟩
    · rw [(hnodes z).nodeId]
      exact hnum.nonzero z hz
    · rw [(hnodes z).nodeId, hid]
  simp [hmem]

theorem mem_of_known (hnum : Numbered table) {y : Fin n} (hy : (table y).state = .active)
    (hjust : ∀ m ∈ (mid x).remoteMatches, Justified table x m) {addr : Addr}
    (hk : known (mid x).remoteMatches ⟨(table y).nodeId, t, (table y).quicPort, addr⟩ = true) :
    ⟨(table y).nodeId, t, (table y).quicPort, addr⟩ ∈ (mid x).remoteMatches := by
  obtain ⟨m, hm, hid, ht, haddr⟩ := known_eq_true.mp hk
  obtain ⟨z, hz, _, hmid, hport, _⟩ := hjust m hm
  have hzy : z = y := hnum.distinct z y hz hy (hmid.symm.trans hid)
  subst hzy
  have heq : m = ⟨(table z).nodeId, t, (table z).quicPort, addr⟩ := by
    cases m
    simp_all
  exact heq ▸ hm

/-- Between two active nodes there is a match exactly for each compatible pair
of endpoints and each address. The lists of the other nodes stay. -/
theorem topic_updates_match_active (table : Table n) (hnum : Numbered table)
    (hold : ∀ x, (table x).state = .active → ∀ m ∈ (table x).remoteMatches, Justified table x m) :
    (TopicsInRange table → (processTopicUpdates table).isSome = true) ∧
    ∀ mid table', matchTopics table = some mid → Roomy mid →
      processTopicUpdates table = some table' →
      SameNodes table table' ∧
      (∀ x y, x ≠ y → (table x).state = .active → (table y).state = .active → ∀ t addr,
        (⟨(table y).nodeId, t, (table y).quicPort, addr⟩ ∈ (table' x).remoteMatches ↔
          (table x).domainId = (table y).domainId ∧
          addr ∈ (table y).quicAddrs.take maxQuicAddrs ∧ (Pair table y x t ∨ Pair table x y t))) ∧
      (∀ x, (table x).state = .active → ∀ m ∈ (table' x).remoteMatches, Justified table x m) ∧
      ∀ x, (table x).state ≠ .active → (table' x).remoteMatches = (table x).remoteMatches := by
  refine ⟨fun hrange => ?_, fun mid table' hm hroom hp => ?_⟩
  · obtain ⟨mid, hm⟩ := Option.isSome_iff_exists.mp hrange.matchTopics_isSome
    rw [processTopicUpdates_eq hm]
    rfl
  have hjust := (matchTopics_keeps (stable_justified table) ⟨SameNodes.refl table, hold⟩ hm).lists
  have hstable : Stable table fun x ms => (table x).state ≠ .active → ms = (table x).remoteMatches :=
    fun _ _ _ _ ho _ hx => absurd ho.activeX hx
  have hinactive := matchTopics_keeps hstable ⟨SameNodes.refl table, fun _ _ => rfl⟩ hm
  have hnodes := hinactive.nodes
  rw [processTopicUpdates_eq hm, Option.some.injEq] at hp
  subst hp
  refine ⟨hnodes.trans (dropInactive_sameNodes mid), fun x y hxy hx hy t addr => ?_,
    fun x hx m hmem => ?_, fun x hx => ?_⟩
  · constructor
    · intro hmem
      rw [dropInactive_remoteMatches ((hnodes x).state.trans hx)] at hmem
      obtain ⟨z, hz, hd, hid, _, haddr, hpair⟩ :=
        hjust x hx _ (mem_of_mem_take (mem_of_mem_filter hmem))
      have hzy : z = y := hnum.distinct z y hz hy hid.symm
      subst hzy
      exact ⟨hd.symm, haddr, hpair⟩
    · rintro ⟨hd, haddr, hpair⟩
      have hcovered := matchTopics_covers hroom hm ⟨hxy, hx, hy, hd.symm, hpair⟩
      refine (mem_dropInactive hnum hnodes hroom hx ?_).mpr
        (mem_of_known hnum hy (hjust x hx) (hcovered addr haddr))
      exact ⟨y, hy, hd.symm, rfl, rfl, haddr, hpair⟩
  · rw [dropInactive_remoteMatches ((hnodes x).state.trans hx)] at hmem
    exact hjust x hx m (mem_of_mem_take (mem_of_mem_filter hmem))
  · rw [dropInactive, if_pos (.inl (by rwa [(hnodes x).state]))]
    exact hinactive.lists x hx

def listener : NodeTableEntry :=
  { zeroEntry with
    state := .active
    nodeId := 1
    quicPort := 7001
    quicAddrs := [(10, 0, 0, 1)]
    subscribedTopics := [plainTopic 7] }

def talker : NodeTableEntry :=
  { zeroEntry with
    state := .active
    nodeId := 2
    quicPort := 7002
    quicAddrs := [(10, 0, 0, 2)]
    publishedTopics := [plainTopic 7] }

def toTalker : MatchEntry := ⟨2, 7, 7002, (10, 0, 0, 2)⟩

def idleTalkerAndListener : Table 2 := tableOf 2 [listener, talker]

/-- The pass lets the two find each other. -/
theorem listener_finds_talker :
    ∃ table', processTopicUpdates idleTalkerAndListener = some table' ∧
      ∃ x, (idleTalkerAndListener x).nodeId = 1 ∧ toTalker ∈ (table' x).remoteMatches := by
  have hnum : Numbered idleTalkerAndListener := ⟨by decide +kernel, by decide +kernel⟩
  have hold : ∀ x, (idleTalkerAndListener x).state = .active →
      ∀ m ∈ (idleTalkerAndListener x).remoteMatches, Justified idleTalkerAndListener x m := by
    decide +kernel
  have hrun : (matchTopics idleTalkerAndListener).any (fun mid =>
      decide (∀ x, (mid x).remoteMatches.length ≤ maxMatches - maxQuicAddrs)) = true := by
    decide +kernel
  have hslots : let table := idleTalkerAndListener
      ∃ x y : Fin 2, x ≠ y ∧ (table x).nodeId = 1 ∧
      (table x).state = .active ∧ (table y).state = .active ∧
      toTalker = ⟨(table y).nodeId, 7, (table y).quicPort, (10, 0, 0, 2)⟩ ∧
      (table x).domainId = (table y).domainId ∧
      (10, 0, 0, 2) ∈ (table y).quicAddrs.take maxQuicAddrs ∧
      Pair table y x 7 := by
    dsimp only
    decide +kernel
  obtain ⟨mid, hmid, hroom⟩ := Transition.exists_of_any hrun
  obtain ⟨x, y, hxy, hid, hx, hy, hto, hd, haddr, hpair⟩ := hslots
  have hp := processTopicUpdates_eq hmid
  have hmatch := (topic_updates_match_active idleTalkerAndListener hnum hold).2 mid _ hmid hroom hp
  exact ⟨_, hp, x, hid, hto ▸ (hmatch.2.1 x y hxy hx hy 7 (10, 0, 0, 2)).mpr ⟨hd, haddr, .inl hpair⟩⟩

def leavingListener : Table 2 :=
  tableOf 2 [{ listener with state := .leaving, remoteMatches := [toTalker] }, talker]

/-- A node that is leaving keeps its matches until its slot is cleared. -/
theorem leaving_node_keeps_matches :
    ¬ ∀ (n : Nat) (table mid table' : Table n), Numbered table →
      (∀ x, ∀ m ∈ (table x).remoteMatches, Justified table x m) →
      matchTopics table = some mid → Roomy mid → processTopicUpdates table = some table' →
      ∀ x y, x ≠ y → ∀ t addr,
        (⟨(table y).nodeId, t, (table y).quicPort, addr⟩ ∈ (table' x).remoteMatches ↔
          ((table x).state = .active ∧ (table y).state = .active) ∧
          (table x).domainId = (table y).domainId ∧
          addr ∈ (table y).quicAddrs.take maxQuicAddrs ∧ (Pair table y x t ∨ Pair table x y t)) := by
  intro hall
  have hnum : Numbered leavingListener := ⟨by decide +kernel, by decide +kernel⟩
  have hold : ∀ x, ∀ m ∈ (leavingListener x).remoteMatches, Justified leavingListener x m := by
    decide +kernel
  have hmid : matchTopics leavingListener = some leavingListener := by decide +kernel
  have hroom : ∀ x, (leavingListener x).remoteMatches.length ≤ maxMatches - maxQuicAddrs := by
    decide +kernel
  have hp : processTopicUpdates leavingListener = some leavingListener := by decide +kernel
  have hslots : ∃ x y : Fin 2, x ≠ y ∧ (leavingListener x).state ≠ .active ∧
      ⟨(leavingListener y).nodeId, 7, (leavingListener y).quicPort, (10, 0, 0, 2)⟩ ∈
        (leavingListener x).remoteMatches := by
    decide +kernel
  obtain ⟨x, y, hxy, hx, hmem⟩ := hslots
  exact hx ((hall 2 _ _ _ hnum hold hmid hroom hp x y hxy 7 (10, 0, 0, 2)).mp hmem).1.1

end RmwAxon.TopicUpdates
