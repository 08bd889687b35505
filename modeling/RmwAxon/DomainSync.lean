import RmwAxon.MergeRounds
import Mathlib.Data.Fintype.Card
import Mathlib.Data.List.Perm.Basic

namespace RmwAxon.DomainSync

open MatchPass MergeRounds NodeTable Function List
open PeerSync (PeerNodeInfo fillEntry mergeRemoteNodes)
open InlineMerge (inlineMerge)

variable {n : Nat} {table table' : Table n}

inductive Side
  | receiving
  | requesting
  deriving DecidableEq

def merge : Side → Nat → Nat → List PeerNodeInfo → Table n → Table n
  | .receiving => mergeRemoteNodes
  | .requesting => inlineMerge

def Elsewhere (origin domain : Nat) (e : NodeTableEntry) : Prop :=
  isOccupied e = true ∧ e.daemonOrigin = origin ∧ e.domainId ≠ domain
  deriving Decidable

structure DomainNodes where
  domainId : Nat
  nodes : List PeerNodeInfo

def ids (l : DomainNodes) : List Nat := l.nodes.map PeerNodeInfo.nodeId

/-- The lists of a round, one for each domain, name each node once. -/
structure OneRound (lists : List DomainNodes) : Prop where
  domains : (lists.map DomainNodes.domainId).Nodup
  inDomain : ∀ l ∈ lists, ∀ m ∈ l.nodes, m.domainId = l.domainId
  numbers : (lists.flatMap ids).Nodup

def syncRound (side : Nat → Side) (origin : Nat) (now : Nat → Nat) (round : List DomainNodes)
    (table : Table n) : Table n :=
  round.foldl (fun t l => merge (side l.domainId) origin (now l.domainId) l.nodes t) table

def Contains (origin : Nat) (m : PeerNodeInfo) (table : Table n) : Prop :=
  ∃ k, isOccupied (table k) = true ∧ (table k).nodeId = m.nodeId ∧
    (table k).domainId = m.domainId ∧ (table k).daemonOrigin = origin

def free (table : Table n) : Finset (Fin n) :=
  Finset.univ.filter fun k => k.val < maxNodes ∧ isOccupied (table k) = false

section Rounds

variable {origin now : Nat} {node : PeerNodeInfo}
  {nodes : List PeerNodeInfo}

def gone (side : Side) (origin : Nat) (nodes : List PeerNodeInfo) : NodeTableEntry → Bool :=
  match side with
  | .receiving => obsolete origin nodes
  | .requesting => stale origin nodes

theorem merge_merged (side : Side) (horigin : origin ≠ 0) (now : Nat) (nodes : List PeerNodeInfo)
    (table : Table n) :
    Merged (gone side origin nodes) origin now nodes table (merge side origin now nodes table) := by
  cases side with
  | receiving => exact mergeRemoteNodes_merged horigin nodes table
  | requesting => exact inlineMerge_merged nodes table

theorem gone_of_stale (side : Side) {e : NodeTableEntry} (hocc : isOccupied e = true)
    (ho : e.daemonOrigin = origin) (hid : e.nodeId ∉ nodes.map PeerNodeInfo.nodeId) :
    gone side origin nodes e = true := by
  have hstale : PeerSync.staleFromOrigin origin (nodes.map PeerNodeInfo.nodeId) e = true := by
    rw [PeerSync.staleFromOrigin, Bool.and_eq_true, Bool.not_eq_true']
    exact ⟨decide_eq_true ho, by simpa only [contains_eq_mem, decide_eq_false_iff_not] using hid⟩
  cases side with
  | receiving => simp [gone, obsolete, hocc, hstale]
  | requesting => simp [gone, stale, hocc, hstale]

def Named (origin : Nat) (nodes : List PeerNodeInfo) (table : Table n) : Prop :=
  ∀ k, isOccupied (table k) = true → (table k).daemonOrigin = origin →
    (table k).nodeId ∈ nodes.map PeerNodeInfo.nodeId

theorem Named.placed (h : Named origin nodes table) (hnode : node ∈ nodes) {idx : Fin n}
    (hp : Placed origin now node idx table table') : Named origin nodes table' := by
  obtain ⟨r, e, start, hr, rfl, _⟩ := hp
  intro k
  rw [update_apply]
  split_ifs
  · exact fun _ _ => mem_map_of_mem hnode
  · rw [(hr k).isOccupied, (hr k).same.daemonOrigin, (hr k).same.nodeId]
    exact h k

theorem Named.rounds {rest : List PeerNodeInfo} (h : Named origin nodes table) (hrest : rest ⊆ nodes)
    (hr : Rounds origin now rest table table') : Named origin nodes table' := by
  induction hr with
  | nil => exact h
  | placed idx hp _ ih =>
    exact ih (h.placed (hrest mem_cons_self) hp) fun m hm => hrest (mem_cons_of_mem _ hm)
  | passed _ _ ih => exact ih h fun m hm => hrest (mem_cons_of_mem _ hm)

theorem merge_named (side : Side) (horigin : origin ≠ 0) (now : Nat) (nodes : List PeerNodeInfo)
    (table : Table n) : Named origin nodes (merge side origin now nodes table) := by
  obtain ⟨t, hthin, hrounds⟩ := merge_merged side horigin now nodes table
  refine Named.rounds (fun k hk ho => ?_) (List.Subset.refl nodes) hrounds
  rcases hthin k with ⟨_, e, hblank, hpruned⟩ | ⟨hkept, hpruned⟩
  · rw [hpruned.isOccupied, hblank.isOccupied] at hk
    cases hk
  rw [hpruned.isOccupied] at hk
  rw [hpruned.same.daemonOrigin] at ho
  rw [hpruned.same.nodeId]
  by_contra hid
  rw [gone_of_stale side hk ho hid] at hkept
  cases hkept

theorem contains_placed {idx : Fin n} (h : Placed origin now node idx table table') :
    Contains origin node table' := by
  obtain ⟨r, e, start, _, rfl, _⟩ := h
  refine ⟨idx, ?_⟩
  rw [update_self]
  exact ⟨rfl, rfl, rfl, rfl⟩

theorem Contains.placed {m : PeerNodeInfo} (h : Contains origin m table)
    (hne : m.nodeId ≠ node.nodeId) {idx : Fin n} (hp : Placed origin now node idx table table') :
    Contains origin m table' := by
  obtain ⟨k, hocc, hid, hrest⟩ := h
  have hpruned := (hp.other hocc (hid.trans_ne hne)).2
  refine ⟨k, ?_⟩
  rw [hpruned.isOccupied, hpruned.same.nodeId, hpruned.same.domainId, hpruned.same.daemonOrigin]
  exact ⟨hocc, hid, hrest⟩

theorem Contains.rounds {m : PeerNodeInfo} (h : Contains origin m table)
    (hr : Rounds origin now nodes table table') (hm : m.nodeId ∉ nodes.map PeerNodeInfo.nodeId) :
    Contains origin m table' := by
  induction hr with
  | nil => exact h
  | placed idx hp _ ih =>
    rw [map_cons, mem_cons, not_or] at hm
    exact ih (h.placed hm.1 hp) hm.2
  | passed _ _ ih =>
    rw [map_cons, mem_cons, not_or] at hm
    exact ih h hm.2

theorem free_eq_empty (h : Full table) : free table = ∅ := by
  refine Finset.filter_eq_empty_iff.mpr fun k _ hk => ?_
  rw [h k hk.1] at hk
  cases hk.2

theorem card_free_placed {idx : Fin n} (h : Placed origin now node idx table table') :
    (free table).card ≤ (free table').card + 1 := by
  obtain ⟨r, e, start, hr, rfl, _⟩ := h
  refine Nat.le_trans (Finset.card_le_card fun k hk => ?_) (Finset.card_insert_le idx _)
  by_cases hki : k = idx
  · exact hki ▸ Finset.mem_insert_self ..
  · refine Finset.mem_insert_of_mem ?_
    simpa [free, update_of_ne hki, (hr k).isOccupied] using hk

theorem free_subset_thinned {marked : NodeTableEntry → Bool} (h : Thinned marked table table') :
    free table ⊆ free table' := by
  intro k hk
  simp only [free, Finset.mem_filter, Finset.mem_univ, true_and] at hk ⊢
  rcases h k with ⟨_, e, hblank, hpruned⟩ | ⟨_, hpruned⟩
  · exact ⟨hk.1, hpruned.isOccupied.trans hblank.isOccupied⟩
  · exact ⟨hk.1, hpruned.isOccupied.trans hk.2⟩

theorem rounds_contain (hr : Rounds origin now nodes table table')
    (hids : (nodes.map PeerNodeInfo.nodeId).Nodup) (hroom : nodes.length ≤ (free table).card) :
    ∀ m ∈ nodes, Contains origin m table' := by
  induction hr with
  | nil => simp
  | placed idx hp hrest ih =>
    rw [map_cons, nodup_cons] at hids
    have hslots := card_free_placed hp
    rw [length_cons] at hroom
    intro m hm
    rcases mem_cons.mp hm with rfl | hm
    · exact (contains_placed hp).rounds hrest hids.1
    · exact ih hids.2 (by omega) m hm
  | passed hfull _ _ =>
    rw [free_eq_empty hfull, length_cons] at hroom
    cases hroom

end Rounds

theorem last_list_alone {side : Nat → Side} {origin : Nat} (horigin : origin ≠ 0) {now : Nat → Nat}
    {round : List DomainNodes} {last l : DomainNodes} (hl : l ∈ round)
    (hids : ((round ++ [last]).flatMap ids).Nodup) {m : PeerNodeInfo} (hm : m ∈ l.nodes)
    (table : Table n) :
    ¬ Contains origin m (syncRound side origin now (round ++ [last]) table) := by
  rw [syncRound, foldl_append, foldl_cons, foldl_nil]
  rintro ⟨k, hocc, hid, _, ho⟩
  have hlast := merge_named _ horigin _ _ _ k hocc ho
  rw [hid] at hlast
  rw [flatMap_append, nodup_append] at hids
  refine hids.2.2 m.nodeId (mem_flatMap.mpr ⟨l, hl, mem_map_of_mem hm⟩) m.nodeId ?_ rfl
  simpa [ids] using hlast

theorem round_complete_iff (side : Nat → Side) {origin : Nat} (horigin : origin ≠ 0) (now : Nat → Nat)
    {lists : List DomainNodes} (hlists : OneRound lists) (table : Table n)
    (hroom : (lists.flatMap ids).length ≤ (free table).card) :
    (∀ round : List DomainNodes, round.Perm lists → ∀ l ∈ lists, ∀ m ∈ l.nodes,
      Contains origin m (syncRound side origin now round table)) ↔
    lists.length ≤ 1 ∨ ∀ l ∈ lists, l.nodes = [] := by
  constructor
  · intro h
    by_contra hmany
    obtain ⟨hlen, hnonempty⟩ := not_or.mp hmany
    simp only [not_forall] at hnonempty
    obtain ⟨l, hl, hl0⟩ := hnonempty
    obtain ⟨m, hm⟩ := exists_mem_of_ne_nil _ hl0
    -- Some other list is merged last.
    obtain ⟨before, after, rfl⟩ := append_of_mem hl
    have hrest : before ++ after ≠ [] := by
      intro hnil
      obtain ⟨rfl, rfl⟩ := append_eq_nil_iff.mp hnil
      exact hlen (Nat.le_refl 1)
    have hperm : (l :: (before ++ after).dropLast ++ [(before ++ after).getLast hrest]).Perm
        (before ++ l :: after) := by
      rw [cons_append, dropLast_append_getLast]
      exact perm_middle.symm
    refine last_list_alone horigin mem_cons_self ?_ hm table (h _ hperm l hl m hm)
    exact (hperm.flatMap_right ids).nodup_iff.mpr hlists.numbers
  · rintro (hone | hempty) round hround l hl m hm
    · obtain ⟨x, rfl⟩ := length_eq_one_iff.mp (Nat.le_antisymm hone (length_pos_of_mem hl))
      obtain rfl := mem_singleton.mp hl
      rw [perm_singleton.mp hround]
      obtain ⟨t, hthin, hrounds⟩ := merge_merged (side l.domainId) horigin (now l.domainId) l.nodes table
      have hfree := Finset.card_le_card (free_subset_thinned hthin)
      refine rounds_contain hrounds ?_ (Nat.le_trans ?_ hfree) m hm
      · simpa [ids] using hlists.numbers
      · simpa [ids] using hroom
    · rw [hempty l hl] at hm
      cases hm

/-- A merge keeps the daemon's nodes of other domains only where there are
none, and a round ends with all nodes only if it has one list to merge. -/
theorem sync_keeps_domains_iff {origin : Nat} (horigin : origin ≠ 0) :
    (∀ (side : Side) (n : Nat) (table : Table n) (domain now : Nat) (nodes : List PeerNodeInfo),
      (∀ m ∈ nodes, m.domainId = domain) →
      (∀ k, Elsewhere origin domain (table k) → (table k).nodeId ∉ nodes.map PeerNodeInfo.nodeId) →
      ((∀ k, Elsewhere origin domain (table k) → merge side origin now nodes table k = table k) ↔
        ∀ k, ¬ Elsewhere origin domain (table k))) ∧
    (∀ (side : Side) (n : Nat) (table : Table n) (domain now : Nat),
      (∀ nodes : List PeerNodeInfo, (∀ m ∈ nodes, m.domainId = domain) →
        ∀ k, Elsewhere origin domain (table k) → merge side origin now nodes table k = table k) ↔
      ∀ k, ¬ Elsewhere origin domain (table k)) ∧
    ∀ (side : Nat → Side) (n : Nat) (table : Table n) (now : Nat → Nat) (lists : List DomainNodes),
      OneRound lists → (lists.flatMap ids).length ≤ (free table).card →
      ((∀ round : List DomainNodes, round.Perm lists → ∀ l ∈ lists, ∀ m ∈ l.nodes,
        Contains origin m (syncRound side origin now round table)) ↔
      lists.length ≤ 1 ∨ ∀ l ∈ lists, l.nodes = []) := by
  have hnamed : ∀ (side : Side) (n : Nat) (table : Table n) (domain now : Nat)
      (nodes : List PeerNodeInfo) (k : Fin n), Elsewhere origin domain (table k) →
      merge side origin now nodes table k = table k →
      (table k).nodeId ∈ nodes.map PeerNodeInfo.nodeId := by
    intro side n table domain now nodes k hk hsame
    have h := merge_named side horigin now nodes table k
    rw [hsame] at h
    exact h hk.1 hk.2.1
  refine ⟨fun side n table domain now nodes _ hown => ⟨fun h k hk => ?_, fun h k hk => ?_⟩,
    fun side n table domain now => ⟨fun h k hk => ?_, fun h nodes _ k hk => ?_⟩,
    fun side n table now lists hlists hroom =>
      round_complete_iff side horigin now hlists table hroom⟩
  · exact hown k hk (hnamed side n table domain now nodes k hk (h k hk))
  · exact absurd hk (h k)
  · simpa using hnamed side n table domain now [] k hk (h [] (by simp) k hk)
  · exact absurd hk (h k)

def remoteNode (nodeId domainId : Nat) : PeerNodeInfo :=
  ⟨nodeId, domainId, [], [], 7000, [(10, 0, 0, 9)], [], []⟩

def onlyDomain : List DomainNodes := [⟨3, [remoteNode 5 3, remoteNode 6 3]⟩]

theorem one_domain_contained :
    Contains 9 (remoteNode 5 3)
        (syncRound (fun _ => .requesting) 9 (fun _ => 5) onlyDomain (emptyTable 4)) ∧
      Contains 9 (remoteNode 6 3)
        (syncRound (fun _ => .requesting) 9 (fun _ => 5) onlyDomain (emptyTable 4)) := by
  have hround : OneRound onlyDomain := ⟨by decide, by simp [onlyDomain, remoteNode], by decide⟩
  have hcontained : ∀ m ∈ [remoteNode 5 3, remoteNode 6 3], Contains 9 m
      (syncRound (fun _ => .requesting) 9 (fun _ => 5) onlyDomain (emptyTable 4)) :=
    ((sync_keeps_domains_iff (by decide)).2.2 _ 4 _ _ onlyDomain hround (by decide)).mpr
      (.inl (Nat.le_refl 1)) onlyDomain (.refl _) _ mem_cons_self
  exact ⟨hcontained _ mem_cons_self, hcontained _ (mem_cons_of_mem _ mem_cons_self)⟩

def twoDomains : Table 2 :=
  tableOf 2 [fillEntry 9 5 (remoteNode 5 0) zeroEntry, fillEntry 9 5 (remoteNode 6 1) zeroEntry]

theorem other_domain_cleared :
    ¬ ∀ (side : Side) (n : Nat) (table : Table n) (origin domain now : Nat) (nodes : List PeerNodeInfo),
      origin ≠ 0 → (∀ m ∈ nodes, m.domainId = domain) →
      ∀ k, Elsewhere origin domain (table k) → merge side origin now nodes table k = table k := by
  intro h
  have hcleared : ∃ k, Elsewhere 9 0 (twoDomains k) ∧
      isOccupied (merge .receiving 9 6 [remoteNode 5 0] twoDomains k) ≠ isOccupied (twoDomains k) := by
    decide +kernel
  obtain ⟨k, hk, hne⟩ := hcleared
  have hsame := h .receiving 2 twoDomains 9 0 6 [remoteNode 5 0] (by decide) (by simp [remoteNode]) k hk
  exact hne (by rw [hsame])

end RmwAxon.DomainSync
