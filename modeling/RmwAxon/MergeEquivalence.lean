import RmwAxon.MergeForeign

namespace RmwAxon.MergeEquivalence

open DomainSync MatchKeys MergeAgree MergeCleared MergeForeign MergeOutcome List
open MergePlayed MergeRounds MergeSim NodeTable
open PeerSync (PeerNodeInfo clearObsolete fillEntry mergeNodes mergeRemoteNodes)
open InlineMerge (inlineMerge mergeNode)

variable {n : Nat} {table tp ti : Table n} {origin : Nat} {nodes front : List PeerNodeInfo}

structure SlotsAgree (origin : Nat) (nodes front : List PeerNodeInfo) (table tp : Table n) : Prop where
  shows : ∀ k, isOccupied (table k) = true → obsolete origin nodes (table k) = false →
    shown origin front (table k) = shown origin nodes (table k)
  keeps : ∀ k, isOccupied (table k) = true → obsolete origin nodes (table k) = false →
    remains (obsolete origin nodes) table (moved tp) front (table k) =
      remains (stale origin nodes) table (moved table) nodes (table k)
  reaches : ∀ f, foreign origin nodes (table f) = true → ∀ v ∈ nodes,
    (table f).nodeId = v.nodeId → v ∈ front
  bare : ∀ f, foreign origin nodes (table f) = true →
    remains (stale origin nodes) table (moved table) nodes (table f) = []

section Agree

variable (hd : DistinctIds table) (hids : (nodes.map PeerNodeInfo.nodeId).Nodup)
  (hp : Cleared (obsolete origin nodes) table tp)
include hd hids hp

theorem slotsAgree_iff (hfront : front <+: nodes) : SlotsAgree origin nodes front table tp ↔
    (∀ m ∈ nodes, m ∉ front → Listed origin table m) ∧
      ∀ f, foreign origin nodes (table f) = true → Replaceable origin nodes table f := by
  have hunlisted : ∀ m ∈ nodes, m ∉ front → m.nodeId ∉ front.map PeerNodeInfo.nodeId := by
    intro m hm hlate hv
    obtain ⟨v, hv, hvid⟩ := mem_map.mp hv
    exact hlate (inj_on_of_nodup_map hids (hfront.subset hv) hm hvid ▸ hv)
  have hids' : (front.map PeerNodeInfo.nodeId).Nodup := hids.sublist (hfront.sublist.map _)
  constructor
  · intro h
    refine ⟨fun m hm hlate k hocc hid => ?_, fun f hf => ⟨fun m hm => ?_, fun k hocc hkept m hm hid => ?_⟩⟩
    · have hmem : (table k).nodeId ∈ nodes.map PeerNodeInfo.nodeId := hid ▸ mem_map_of_mem hm
      have hforeign : foreign origin nodes (table k) = false := by
        rw [Bool.eq_false_iff]
        exact fun hf => hlate (h.reaches k hf m hm hid)
      have hshows := h.shows k hocc (by rw [obsolete_eq, stale_of_listed hmem, hforeign]; rfl)
      rwa [shown_of_unlisted (hid ▸ hunlisted m hm hlate), shown_of_listed hids hm hid] at hshows
    · simpa using filter_eq_nil_iff.mp (h.bare f hf) m hm
    · have hkeeps : m ∈ remains (obsolete origin nodes) table (moved tp) front (table k) ↔ m ∈ remains
          (stale origin nodes) table (moved table) nodes (table k) := by rw [h.keeps k hocc hkept]
      simp only [remains, mem_filter, hm, true_and, Bool.not_eq_true'] at hkeeps
      rw [← loss_push_foreign hd hp hf hid front (table k)]
      simpa only [Bool.not_eq_false] using not_congr hkeeps
  · rintro ⟨hlate, hreplace⟩
    refine ⟨fun k hocc hkept => ?_, fun k hocc hkept => filter_congr fun m hm => ?_,
      fun f hf v hv hid => ?_, fun f hf => filter_eq_nil_iff.mpr fun m hm => ?_⟩
    · by_cases hmem : (table k).nodeId ∈ nodes.map PeerNodeInfo.nodeId
      · obtain ⟨m, hm, hid⟩ := mem_map.mp hmem
        by_cases hreached : m ∈ front
        · rw [shown_of_listed hids hm hid.symm, shown_of_listed hids' hreached hid.symm]
        rw [shown_of_unlisted (hid ▸ hunlisted m hm hreached), shown_of_listed hids hm hid.symm]
        exact hlate m hm hreached k hocc hid.symm
      · rw [shown_of_unlisted hmem, shown_of_unlisted fun hv => hmem ((hfront.sublist.map _).subset hv)]
    · congr 1
      by_cases hm' : ∃ f, foreign origin nodes (table f) = true ∧ (table f).nodeId = m.nodeId
      · obtain ⟨f, hf, hid⟩ := hm'
        rw [Bool.eq_iff_iff, loss_push_foreign hd hp hf hid.symm]
        exact (hreplace f hf).others k hocc hkept m hm hid.symm
      · exact loss_push_own hd hp hids hfront hlate (fun f hf hid => hm' ⟨f, hf, hid⟩) (table k)
    · by_contra hlate'
      have hlisted := hlate v hv hlate' f (foreign_iff.mp hf).1 hid
      exact (foreign_iff.mp hf).2.1.2 (congrArg NodeTableEntry.daemonOrigin hlisted)
    · simpa using (hreplace f hf).own m hm

variable (hi : Cleared (stale origin nodes) table ti)
include hi

omit hids hp in
theorem pull_result (o : NodeTableEntry) (ms : List MatchEntry) : Result origin nodes ti o ms ↔
      (∃ k, (isOccupied (table k) = true ∧ stale origin nodes (table k) = false) ∧
        shown origin nodes (table k) = o ∧
        remains (stale origin nodes) table (moved table) nodes (table k) = ms) ∨
      ∃ m ∈ (newcomers ti nodes).take (free ti).card, announced origin m = o ∧ [] = ms := by
  have hremains : ∀ e, remains (stale origin nodes) table (moved ti) nodes e =
      remains (stale origin nodes) table (moved table) nodes e := by
    refine fun e => filter_congr fun m _ => ?_
    rw [loss, loss, loses_congr fun v hv _ => moved_pull hd hi hv]
  simp only [hi.result, hremains]

omit hids hd hi in
theorem push_result (o : NodeTableEntry) (ms : List MatchEntry) :
    Result origin (reached tp (free tp).card nodes) tp o ms ↔
      (∃ k, (isOccupied (table k) = true ∧ obsolete origin nodes (table k) = false) ∧
        shown origin (reached tp (free tp).card nodes) (table k) = o ∧
        remains (obsolete origin nodes) table (moved tp) (reached tp (free tp).card nodes) (table k) = ms) ∨
      ∃ m ∈ newcomers tp (reached tp (free tp).card nodes), announced origin m = o ∧ [] = ms := by
  rw [hp.result, newcomers_reached, take_take, Nat.min_self]

omit hd hids hp hi in
theorem number_of_shown {a b : List PeerNodeInfo} {e e' : NodeTableEntry}
    (h : shown origin a e = shown origin b e') : e.nodeId = e'.nodeId := by
  simpa only [shown_nodeId] using congrArg NodeTableEntry.nodeId h

theorem slotsAgree_of_results
    (h : ∀ o ms, Result origin (reached tp (free tp).card nodes) tp o ms ↔ Result origin nodes ti o ms) :
    SlotsAgree origin nodes (reached tp (free tp).card nodes) table tp := by
  have hkept : ∀ k, isOccupied (table k) = true → obsolete origin nodes (table k) = false →
      shown origin nodes (table k) = shown origin (reached tp (free tp).card nodes) (table k) ∧
      remains (stale origin nodes) table (moved table) nodes (table k) = remains (obsolete origin nodes)
        table (moved tp) (reached tp (free tp).card nodes) (table k) := by
    intro k hocc hk
    have hres := (h _ _).mp ((push_result hp _ _).mpr (.inl ⟨k, ⟨hocc, hk⟩, rfl, rfl⟩))
    rcases (pull_result hd hi _ _).mp hres with ⟨j, ⟨hj, _⟩, ho, hms⟩ | ⟨m, hm, ho, _⟩
    · obtain rfl := hd j k hj hocc (number_of_shown ho)
      exact ⟨ho, hms⟩
    have hnew := (hi.mem_newcomers.mp (mem_of_mem_take hm)).2 k hocc
      (Bool.or_eq_false_iff.mp (obsolete_eq (table k) ▸ hk)).1
    rw [← shown_nodeId origin (reached tp (free tp).card nodes) (table k), ← ho] at hnew
    exact absurd rfl hnew
  have hforeign : ∀ f, foreign origin nodes (table f) = true →
      (∀ v ∈ nodes, (table f).nodeId = v.nodeId → v ∈ reached tp (free tp).card nodes) ∧
      remains (stale origin nodes) table (moved table) nodes (table f) = [] := by
    intro f hf
    obtain ⟨hocc, _, hmem⟩ := foreign_iff.mp hf
    have hres := (h _ _).mpr ((pull_result hd hi _ _).mpr (.inl ⟨f, ⟨hocc, stale_of_listed hmem⟩, rfl, rfl⟩))
    rcases (push_result hp _ _).mp hres with ⟨j, ⟨hj, hkept⟩, ho, _⟩ | ⟨m, hm, ho, hms⟩
    · rw [hd j f hj hocc (number_of_shown ho), obsolete_of_foreign hf] at hkept
      cases hkept
    refine ⟨fun v hv hid => ?_, hms.symm⟩
    have hm' : m ∈ reached tp (free tp).card nodes := (mem_filter.mp hm).1
    have hnumber : m.nodeId = (table f).nodeId :=
      (congrArg NodeTableEntry.nodeId ho).trans (shown_nodeId origin nodes (table f))
    have hv' : m = v := inj_on_of_nodup_map hids ((reached_prefix_of ..).subset hm') hv (hnumber.trans hid)
    exact hv' ▸ hm'
  exact ⟨fun k hocc hk => (hkept k hocc hk).1.symm, fun k hocc hk => (hkept k hocc hk).2.symm,
    fun f hf => (hforeign f hf).1, fun f hf => (hforeign f hf).2⟩

theorem results_of_slotsAgree (hn : n ≤ maxNodes)
    (h : SlotsAgree origin nodes (reached tp (free tp).card nodes) table tp)
    (o : NodeTableEntry) (ms : List MatchEntry) :
    Result origin (reached tp (free tp).card nodes) tp o ms ↔ Result origin nodes ti o ms := by
  rw [push_result hp, pull_result hd hi]
  constructor
  · rintro (⟨k, ⟨hocc, hk⟩, rfl, rfl⟩ | ⟨m, hm, rfl, rfl⟩)
    · have hstale := (Bool.or_eq_false_iff.mp (obsolete_eq (table k) ▸ hk)).1
      exact .inl ⟨k, ⟨hocc, hstale⟩, (h.shows k hocc hk).symm, (h.keeps k hocc hk).symm⟩
    · obtain ⟨hreached, hnew⟩ := mem_filter.mp hm
      have hmem : m ∈ nodes := (reached_prefix_of ..).subset hreached
      have hpush : m ∈ newcomers tp nodes := mem_filter.mpr ⟨hmem, hnew⟩
      by_cases hf : ∃ f, foreign origin nodes (table f) = true ∧ (table f).nodeId = m.nodeId
      · obtain ⟨f, hf, hid⟩ := hf
        obtain ⟨hocc, _, hlisted⟩ := foreign_iff.mp hf
        exact .inl ⟨f, ⟨hocc, stale_of_listed hlisted⟩, shown_of_listed hids hmem hid, h.bare f hf⟩
      · have hpull : m ∈ newcomers ti nodes :=
          (newcomer_push_cases hp hi hpush).mpr fun f hf' hid => hf ⟨f, hf', hid⟩
        exact .inr ⟨m, (reached_newcomer_iff hp hi hd hids hn h.reaches hpull).mp hreached, rfl, rfl⟩
  · rintro (⟨k, ⟨hocc, hk⟩, rfl, rfl⟩ | ⟨m, hm, rfl, rfl⟩)
    · cases hf : foreign origin nodes (table k) with
      | false =>
        have hkept : obsolete origin nodes (table k) = false := by
          rw [obsolete_eq, hk, hf]
          rfl
        exact .inl ⟨k, ⟨hocc, hkept⟩, h.shows k hocc hkept, h.keeps k hocc hkept⟩
      | true =>
        obtain ⟨v, hv, hid⟩ := mem_map.mp (foreign_iff.mp hf).2.2
        have hpush := newcomer_of_foreign hp hd hf hv hid.symm
        exact .inr ⟨v, mem_filter.mpr ⟨h.reaches k hf v hv hid.symm, (mem_filter.mp hpush).2⟩,
          (shown_of_listed hids hv hid.symm).symm, (h.bare k hf).symm⟩
    · have hpull : m ∈ newcomers ti nodes := mem_of_mem_take hm
      have hreached := (reached_newcomer_iff hp hi hd hids hn h.reaches hpull).mpr hm
      rw [newcomers_pull hp hi] at hpull
      exact .inr ⟨m, mem_filter.mpr ⟨hreached, (mem_filter.mp (mem_filter.mp hpull).1).2⟩,
        rfl, rfl⟩

end Agree

/-- There is nothing to do for the pull: every local node is listed, every listed
node that is known stands as it is listed, and there is no slot for another. -/
structure Idle (nodes : List PeerNodeInfo) (table : Table n) : Prop where
  named : Named 0 nodes table
  listed : ∀ m ∈ nodes, Listed 0 table m
  settled : newcomers table nodes = [] ∨ Full table

section Idle

variable (hd : DistinctIds table) (hids : (nodes.map PeerNodeInfo.nodeId).Nodup)
  (hi : Cleared (stale 0 nodes) table ti)
include hd hids hi

theorem idle_of_result (h : ∀ o ms, Observed table o ms ↔ Result 0 nodes ti o ms) : Idle nodes table := by
  refine ⟨fun k hocc ho => ?_, fun m hm k hocc hid => ?_, ?_⟩
  · by_contra hmem
    have hstale : stale 0 nodes (table k) = true := stale_iff.mpr ⟨hocc, ho, hmem⟩
    rcases (pull_result hd hi _ _).mp ((h _ _).mp ⟨k, hocc, rfl, rfl⟩) with
      ⟨j, ⟨hj, hkept⟩, hshown, _⟩ | ⟨m, hm, hshown, _⟩
    · have hid : (table j).nodeId = (identity (table k)).nodeId :=
        (shown_nodeId 0 nodes (table j)).symm.trans (congrArg NodeTableEntry.nodeId hshown)
      rw [hd j k hj hocc hid, hstale] at hkept
      cases hkept
    · have hid : m.nodeId = (table k).nodeId := congrArg NodeTableEntry.nodeId hshown
      exact hmem (hid ▸ mem_map_of_mem (mem_filter.mp (mem_of_mem_take hm)).1)
  · have hmem : (table k).nodeId ∈ nodes.map PeerNodeInfo.nodeId := hid ▸ mem_map_of_mem hm
    obtain ⟨j, hj, hident, _⟩ := (h _ _).mpr ((pull_result hd hi _ _).mpr
      (.inl ⟨k, ⟨hocc, stale_of_listed hmem⟩, rfl, rfl⟩))
    have hnumber : (table j).nodeId = (table k).nodeId :=
      (congrArg NodeTableEntry.nodeId hident).trans (shown_nodeId 0 nodes (table k))
    rw [hd j k hj hocc hnumber, shown_of_listed hids hm hid] at hident
    exact hident
  · by_contra hneither
    rw [not_or, Full] at hneither
    push Not at hneither
    obtain ⟨hnew, k, hk, hempty⟩ := hneither
    obtain ⟨m, hm⟩ := exists_mem_of_ne_nil _ hnew
    have hm' : m ∈ newcomers ti nodes := hi.mem_newcomers.mpr ⟨(mem_filter.mp hm).1,
      fun j hj _ => isNone_findSlotByNodeId.mp (mem_filter.mp hm).2 j hj⟩
    have hfree : 0 < (free ti).card := by
      refine Finset.card_pos.mpr ⟨k, Finset.mem_filter.mpr ⟨Finset.mem_univ k, hk, ?_⟩⟩
      rw [← Bool.not_eq_true, hi.occupied k]
      exact fun hocc => hempty hocc.1
    obtain ⟨v, vs, hcons⟩ := exists_cons_of_ne_nil (ne_nil_of_mem hm')
    have hv : v ∈ (newcomers ti nodes).take (free ti).card := by
      obtain ⟨c, hc⟩ := Nat.exists_eq_succ_of_ne_zero (Nat.ne_of_gt hfree)
      rw [hcons, hc, take_succ_cons]
      exact mem_cons_self
    obtain ⟨j, hj, hident, _⟩ := (h _ _).mpr ((pull_result hd hi _ _).mpr (.inr ⟨v, hv, rfl, rfl⟩))
    have hid : (table j).nodeId = v.nodeId := congrArg NodeTableEntry.nodeId hident
    obtain ⟨hvmem, hunknown⟩ := hi.mem_newcomers.mp (mem_of_mem_take hv)
    exact hunknown j hj (stale_of_listed (hid ▸ mem_map_of_mem hvmem)) hid

theorem result_of_idle (h : Idle nodes table) (o : NodeTableEntry) (ms : List MatchEntry) :
    Observed table o ms ↔ Result 0 nodes ti o ms := by
  have hstale : ∀ k, stale 0 nodes (table k) = false := by
    intro k
    rw [Bool.eq_false_iff]
    intro hk
    obtain ⟨hocc, ho, hmem⟩ := stale_iff.mp hk
    exact hmem (h.named k hocc ho)
  have hshown : ∀ k, isOccupied (table k) = true → shown 0 nodes (table k) = identity (table k) := by
    intro k hocc
    by_cases hmem : (table k).nodeId ∈ nodes.map PeerNodeInfo.nodeId
    · obtain ⟨m, hm, hid⟩ := mem_map.mp hmem
      rw [shown_of_listed hids hm hid.symm]
      exact (h.listed m hm k hocc hid.symm).symm
    · exact shown_of_unlisted hmem
  have hremains : ∀ k, remains (stale 0 nodes) table (moved table) nodes (table k) =
      (table k).remoteMatches := by
    refine fun k => filter_eq_self.mpr fun m _ => ?_
    have hdead : dead (stale 0 nodes) table m.nodeId = false := by simp [dead, hstale]
    have hloses : loses (moved table) (table k).nodeId m (decide ((table k).state = .active))
        ([] ++ nodes) = false :=
      loses_append fun v hv _ => moved_of_listed hd (h.listed v hv)
    rw [nil_append] at hloses
    rw [loss, hdead, hloses, Bool.and_false, Bool.or_self, Bool.not_false]
  have hnone : (newcomers ti nodes).take (free ti).card = [] := by
    have hocc : ∀ k, isOccupied (ti k) = true ↔ isOccupied (table k) = true := fun k => by
      rw [hi.occupied k, hstale k, and_iff_left rfl]
    rcases h.settled with hnil | hfull
    · have hnil' : newcomers ti nodes = [] := eq_nil_iff_forall_not_mem.mpr fun m hm => by
        obtain ⟨hmem, hnew⟩ := hi.mem_newcomers.mp hm
        have hm' : m ∈ newcomers table nodes := mem_filter.mpr
          ⟨hmem, isNone_findSlotByNodeId.mpr fun k hk => hnew k hk (hstale k)⟩
        rw [hnil] at hm'
        cases hm'
      rw [hnil', take_nil]
    · rw [free_eq_empty fun k hk => (hocc k).mpr (hfull k hk), Finset.card_empty, take_zero]
  rw [pull_result hd hi, hnone]
  constructor
  · rintro ⟨k, hocc, rfl, rfl⟩
    exact .inl ⟨k, ⟨hocc, hstale k⟩, hshown k hocc, hremains k⟩
  · rintro (⟨k, ⟨hocc, _⟩, rfl, rfl⟩ | ⟨m, hm, _⟩)
    · exact ⟨k, hocc, (hshown k hocc).symm, (hremains k).symm⟩
    · cases hm

end Idle

section Merges

variable (hn : n ≤ maxNodes) (hshort : Short table)
  (hids : (nodes.map PeerNodeInfo.nodeId).Nodup)
include hn hshort hids

theorem pull_observed (hd : DistinctIds table) (now : Nat) (o : NodeTableEntry) (ms : List MatchEntry) :
    Observed (inlineMerge origin now nodes table) o ms ↔
      Result origin nodes (pullCleared origin nodes table) o ms :=
  played_observed hn (mergeNode_played hn (pullCleared_short hshort) nodes)
    ((pullCleared_cleared hshort).distinct hd) hids o ms

theorem push_observed (hd : DistinctIds table) (horigin : origin ≠ 0) (now : Nat) (o : NodeTableEntry)
    (ms : List MatchEntry) :
    Observed (mergeRemoteNodes origin now nodes table) o ms ↔
      Result origin (reached (pushCleared origin nodes table) (free (pushCleared origin nodes table)).card
        nodes) (pushCleared origin nodes table) o ms := by
  rw [mergeRemoteNodes, if_neg horigin]
  exact played_observed hn (mergeNodes_played hn (pushCleared_short hshort) hids)
    ((pushCleared_cleared hshort).distinct hd) (hids.sublist ((reached_prefix_of ..).sublist.map _)) o ms

theorem agree_of_noneForeign (horigin : origin ≠ 0) (hforeign : NoneForeign origin nodes table)
    (hharmless : Harmless origin nodes (clearObsolete origin (nodes.map PeerNodeInfo.nodeId) table) table)
    (now now' : Nat) :
    SameObserved (mergeRemoteNodes origin now nodes table) (inlineMerge origin now' nodes table) := by
  have hp : Cleared (obsolete origin nodes) table _ := pushCleared_cleared hshort
  have hharmless' : Harmless origin nodes (pushCleared origin nodes table)
      (pushCleared origin nodes table) := by
    intro m hm hlate k hocc hid
    rw [reached_sameNodes (pushCleared_sameNodes origin nodes table)] at hlate
    obtain ⟨hocc', hkept⟩ := (hp.occupied k).mp hocc
    have hsame := hp.same k hkept
    have hident : identity (pushCleared origin nodes table k) = identity (table k) :=
      hsame.field identity fun _ => rfl
    rw [hident]
    exact hharmless m hm hlate k hocc' (hsame.nodeId.symm.trans hid)
  have hslots : SameSlots (mergeNodes origin now nodes _) (nodes.foldl (mergeNode origin now') _) :=
    sameSlots_of_harmless hn (pullCleared_sim hshort hforeign) (pushCleared_short hshort) hids hharmless'
  rw [mergeRemoteNodes, if_neg horigin]
  exact fun _ _ => ⟨hslots.observed, hslots.symm.observed⟩

end Merges

/-- The two merges show the same nodes with the same matches if no node of
another daemon is listed and every node that the push does not reach is listed as
it stands. In a table with distinct numbers they do so exactly if the latter
holds and the slots of other daemons' nodes may as well be given out anew. For
the origin 0 the push does nothing. -/
theorem merges_agree_iff_harmless (hn : n ≤ maxNodes) (hshort : Short table)
    (hids : (nodes.map PeerNodeInfo.nodeId).Nodup) (now now' : Nat) :
    (origin ≠ 0 → NoneForeign origin nodes table →
      Harmless origin nodes (clearObsolete origin (nodes.map PeerNodeInfo.nodeId) table) table →
      SameObserved (mergeRemoteNodes origin now nodes table) (inlineMerge origin now' nodes table)) ∧
    (DistinctIds table → origin ≠ 0 →
      (SameObserved (mergeRemoteNodes origin now nodes table) (inlineMerge origin now' nodes table) ↔
        Harmless origin nodes (clearObsolete origin (nodes.map PeerNodeInfo.nodeId) table) table ∧
        ∀ k, foreign origin nodes (table k) = true → Replaceable origin nodes table k)) ∧
    (DistinctIds table →
      (SameObserved (mergeRemoteNodes 0 now nodes table) (inlineMerge 0 now' nodes table) ↔
        Idle nodes table)) := by
  refine ⟨fun horigin hforeign hharmless => ?_, fun hd horigin => ?_, fun hd => ?_⟩
  · exact agree_of_noneForeign hn hshort hids horigin hforeign hharmless now now'
  · have hp : Cleared (obsolete origin nodes) table _ := pushCleared_cleared hshort
    have hi : Cleared (stale origin nodes) table _ := pullCleared_cleared hshort
    simp only [SameObserved, push_observed hn hshort hids hd horigin, pull_observed hn hshort hids hd]
    rw [Harmless, ← reached_sameNodes (pushCleared_sameNodes origin nodes table),
      ← slotsAgree_iff hd hids hp (reached_prefix_of ..)]
    exact ⟨slotsAgree_of_results hd hids hp hi, results_of_slotsAgree hd hids hp hi hn⟩
  · have hi : Cleared (stale 0 nodes) table _ := pullCleared_cleared hshort
    simp only [SameObserved, pull_observed hn hshort hids hd, mergeRemoteNodes, if_true]
    exact ⟨idle_of_result hd hids hi, result_of_idle hd hids hi⟩

def oneSlot : Table 1 := tableOf 1 [fillEntry 9 5 (remoteNode 5 3) zeroEntry]

def movedNode : PeerNodeInfo := { remoteNode 5 3 with quicPort := 7100 }

theorem moved_node_agrees :
    SameObserved (mergeRemoteNodes 9 6 [movedNode] oneSlot) (inlineMerge 9 6 [movedNode] oneSlot) := by
  refine (merges_agree_iff_harmless (by decide) (by decide +kernel) (by decide) 6 6).1 (by decide)
    (by decide +kernel) fun m hm hlate => absurd ?_ hlate
  have hreached : reached (clearObsolete 9 [5] oneSlot) (free (clearObsolete 9 [5] oneSlot)).card
      [movedNode] = [movedNode] := by decide +kernel
  exact hreached ▸ hm

/-- A newcomer for which there is no slot is listed before the node that moved. -/
theorem pushed_graph_stops_early :
    ¬ ∀ (n : Nat) (table : Table n) (origin now : Nat) (nodes : List PeerNodeInfo),
      n ≤ maxNodes → Short table → (nodes.map PeerNodeInfo.nodeId).Nodup →
      SameObserved (mergeRemoteNodes origin now nodes table) (inlineMerge origin now nodes table) := by
  intro h
  have hpull : ∃ k, isOccupied (inlineMerge 9 6 [remoteNode 7 3, movedNode] oneSlot k) = true ∧
      (identity (inlineMerge 9 6 [remoteNode 7 3, movedNode] oneSlot k)).quicPort = 7100 := by
    decide +kernel
  have hpush : ∀ k, (identity (mergeRemoteNodes 9 6 [remoteNode 7 3, movedNode] oneSlot k)).quicPort ≠
      7100 := by
    decide +kernel
  obtain ⟨k, hocc, hport⟩ := hpull
  obtain ⟨j, _, hid, _⟩ := (h 1 oneSlot 9 6 [remoteNode 7 3, movedNode] (by decide) (by decide +kernel)
    (by decide) _ _).mpr ⟨k, hocc, rfl, rfl⟩
  exact hpush j (by rw [hid, hport])

end RmwAxon.MergeEquivalence
