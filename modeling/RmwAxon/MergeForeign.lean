import RmwAxon.MergeCleared

namespace RmwAxon.MergeForeign

open DomainSync LocalSlots Loops MatchKeys MergeAgree MergeCleared MergeOutcome MergePlayed MergeRounds List
open NodeTable
open PeerSync (PeerNodeInfo peerNodeEndpointsMatch)

variable {n : Nat} {table tp ti : Table n} {origin : Nat} {node : PeerNodeInfo}
  {nodes front : List PeerNodeInfo}

def foreign (origin : Nat) (nodes : List PeerNodeInfo) (e : NodeTableEntry) : Bool :=
  isOccupied e && PeerSync.duplicateRemote origin (nodes.map PeerNodeInfo.nodeId) e

theorem obsolete_eq (e : NodeTableEntry) :
    obsolete origin nodes e = (stale origin nodes e || foreign origin nodes e) :=
  Bool.and_or_distrib_left ..

theorem foreign_iff {e : NodeTableEntry} : foreign origin nodes e = true ↔ isOccupied e = true ∧
    (e.daemonOrigin ≠ 0 ∧ e.daemonOrigin ≠ origin) ∧ e.nodeId ∈ nodes.map PeerNodeInfo.nodeId := by
  rw [foreign, PeerSync.duplicateRemote, Bool.and_eq_true, Bool.and_eq_true, Bool.and_eq_true,
    decide_eq_true_eq, decide_eq_true_eq, contains_eq_mem, decide_eq_true_eq]

/-- The slot of another daemon's node may as well be cleared and given out
anew: the pull withdraws all its matches, and of the matches to it those of the
active slots. -/
structure Replaceable (origin : Nat) (nodes : List PeerNodeInfo) (table : Table n) (f : Fin n) :
    Prop where
  own : ∀ m ∈ (table f).remoteMatches,
    loss (stale origin nodes) table (moved table) nodes (table f) m = true
  others : ∀ k, isOccupied (table k) = true → obsolete origin nodes (table k) = false →
    ∀ m ∈ (table k).remoteMatches, m.nodeId = (table f).nodeId →
      ((table k).state = .active ∧ m.nodeId ≠ 0 ↔
        loss (stale origin nodes) table (moved table) nodes (table k) m = true)

theorem stale_of_listed {e : NodeTableEntry} (h : e.nodeId ∈ nodes.map PeerNodeInfo.nodeId) :
    stale origin nodes e = false := by
  rw [Bool.eq_false_iff]
  exact fun hstale => (stale_iff.mp hstale).2.2 h

theorem obsolete_of_foreign {e : NodeTableEntry} (h : foreign origin nodes e = true) :
    obsolete origin nodes e = true := by
  rw [obsolete_eq, h, Bool.or_true]

theorem moved_of_listed (hd : DistinctIds table) (h : Listed origin table node) :
    moved table node = false := by
  rw [Bool.eq_false_iff]
  intro hmoved
  obtain ⟨k, hocc, hid, hdiff⟩ := (moved_iff hd).mp hmoved
  have hmatch : peerNodeEndpointsMatch (identity (table k)) node = true := by
    rw [h k hocc hid]
    exact peerNodeEndpointsMatch_fillEntry origin 0 node zeroEntry 0
  exact absurd (hmatch.symm.trans hdiff) (by decide)

section Moved

variable (hd : DistinctIds table)
include hd

theorem moved_pull (hi : Cleared (stale origin nodes) table ti) (hnode : node ∈ nodes) :
    moved ti node = moved table node := by
  rw [Bool.eq_iff_iff, hi.moved_iff hd, moved_iff hd]
  refine exists_congr fun k => and_congr_right fun _ => and_iff_right_of_imp fun hid => ?_
  exact stale_of_listed (hid.1 ▸ mem_map_of_mem hnode)

variable (hp : Cleared (obsolete origin nodes) table tp)
include hp

theorem moved_push (hnode : node ∈ nodes)
    (hown : ∀ f, foreign origin nodes (table f) = true → (table f).nodeId ≠ node.nodeId) :
    moved tp node = moved table node := by
  rw [Bool.eq_iff_iff, hp.moved_iff hd, moved_iff hd]
  refine exists_congr fun k => and_congr_right fun _ => and_iff_right_of_imp fun hid => ?_
  have hstale : stale origin nodes (table k) = false :=
    stale_of_listed (hid.1 ▸ mem_map_of_mem hnode)
  rw [obsolete_eq, hstale, Bool.false_or, Bool.eq_false_iff]
  exact fun hforeign => hown k hforeign hid.1

theorem moved_push_foreign {f : Fin n} (hf : foreign origin nodes (table f) = true)
    (hid : (table f).nodeId = node.nodeId) : moved tp node = false := by
  rw [Bool.eq_false_iff]
  intro hmoved
  obtain ⟨k, hocc, hkept, hidk, _⟩ := (hp.moved_iff hd).mp hmoved
  rw [hd k f hocc (foreign_iff.mp hf).1 (hidk.trans hid.symm), obsolete_of_foreign hf] at hkept
  cases hkept

theorem loss_push_foreign {f : Fin n} (hf : foreign origin nodes (table f) = true) {m : MatchEntry}
    (hm : m.nodeId = (table f).nodeId) (front : List PeerNodeInfo) (e : NodeTableEntry) :
    loss (obsolete origin nodes) table (moved tp) front e m = true ↔ e.state = .active ∧ m.nodeId ≠ 0 := by
  have hloses : loses (moved tp) e.nodeId m (decide (e.state = .active)) ([] ++ front) = false :=
    loses_append fun v _ hv => moved_push_foreign hd hp hf (hm.symm.trans hv)
  rw [nil_append] at hloses
  rw [loss, hloses, Bool.or_false, Bool.and_eq_true, decide_eq_true_eq, dead, decide_eq_true_eq]
  exact and_congr_right fun _ => and_iff_left ⟨f, obsolete_of_foreign hf, hm.symm⟩

/-- Where the nodes that the push does not reach are listed as they stand, both
merges withdraw the same matches to other nodes. -/
theorem loss_push_own (hids : (nodes.map PeerNodeInfo.nodeId).Nodup) (hfront : front <+: nodes)
    (hlate : ∀ v ∈ nodes, v ∉ front → Listed origin table v) {m : MatchEntry}
    (hm : ∀ f, foreign origin nodes (table f) = true → (table f).nodeId ≠ m.nodeId)
    (e : NodeTableEntry) :
    loss (obsolete origin nodes) table (moved tp) front e m =
      loss (stale origin nodes) table (moved table) nodes e m := by
  have hdead : dead (obsolete origin nodes) table m.nodeId = dead (stale origin nodes) table m.nodeId := by
    rw [dead, dead, decide_eq_decide]
    refine and_congr_right fun _ => exists_congr fun k => and_congr_left fun hid => ?_
    have hforeign : foreign origin nodes (table k) = false := by
      rw [Bool.eq_false_iff]
      exact fun hf => hm k hf hid
    rw [obsolete_eq, hforeign, Bool.or_false]
  obtain ⟨late, rfl⟩ := hfront
  have hunmoved : ∀ v ∈ late, m.nodeId = v.nodeId → moved table v = false := by
    intro v hv _
    refine moved_of_listed hd (hlate v (mem_append_right front hv) fun hmem => ?_)
    exact disjoint_of_nodup_append (List.Nodup.of_map _ hids) hmem hv
  have hloses : loses (moved tp) e.nodeId m (decide (e.state = .active)) front =
      loses (moved table) _ _ _ _ :=
    loses_congr fun v hv hid => moved_push hd hp (mem_append_left late hv) fun f hf => hid ▸ hm f hf
  rw [loss, loss, hdead, hloses, loses_append hunmoved]

end Moved

def foreignSlots (origin : Nat) (nodes : List PeerNodeInfo) (table : Table n) : Finset (Fin n) :=
  Finset.univ.filter fun k => foreign origin nodes (table k) = true

section Room

variable (hp : Cleared (obsolete origin nodes) table tp) (hi : Cleared (stale origin nodes) table ti)
include hp hi

theorem card_free_push (hn : n ≤ maxNodes) :
    (free tp).card = (free ti).card + (foreignSlots origin nodes table).card := by
  have hunion : free tp = free ti ∪ foreignSlots origin nodes table := by
    ext k
    have hk : k.val < maxNodes := Nat.lt_of_lt_of_le k.isLt hn
    simp only [free, foreignSlots, Finset.mem_union, Finset.mem_filter, Finset.mem_univ, true_and, hk]
    rw [← Bool.not_eq_true, ← Bool.not_eq_true, hp.occupied, hi.occupied, obsolete_eq,
      Bool.or_eq_false_iff, ← Bool.not_eq_true (foreign origin nodes (table k))]
    have hocc : foreign origin nodes (table k) = true → isOccupied (table k) = true :=
      fun hf => (foreign_iff.mp hf).1
    tauto
  have hdisjoint : Disjoint (free ti) (foreignSlots origin nodes table) := by
    rw [Finset.disjoint_left]
    intro k hfree hforeign
    have hf : foreign origin nodes (table k) = true := (Finset.mem_filter.mp hforeign).2
    have hocc : isOccupied (ti k) = true :=
      (hi.occupied k).mpr ⟨(foreign_iff.mp hf).1, stale_of_listed (foreign_iff.mp hf).2.2⟩
    rw [(Finset.mem_filter.mp hfree).2.2] at hocc
    cases hocc
  rw [hunion, Finset.card_union_of_disjoint hdisjoint]

theorem newcomer_push_cases {m : PeerNodeInfo} (hm : m ∈ newcomers tp nodes) :
    m ∈ newcomers ti nodes ↔ ∀ f, foreign origin nodes (table f) = true → (table f).nodeId ≠ m.nodeId := by
  obtain ⟨hmem, hnew⟩ := hp.mem_newcomers.mp hm
  rw [hi.mem_newcomers]
  constructor
  · exact fun h f hf => h.2 f (foreign_iff.mp hf).1 (stale_of_listed (foreign_iff.mp hf).2.2)
  refine fun h => ⟨hmem, fun k hocc hstale hid => ?_⟩
  cases hf : foreign origin nodes (table k) with
  | true => exact h k hf hid
  | false => exact hnew k hocc (by rw [obsolete_eq, hstale, hf]; rfl) hid

theorem newcomers_pull :
    newcomers ti nodes = (newcomers tp nodes).filter fun m => (findSlotByNodeId ti m.nodeId).isNone := by
  rw [newcomers, newcomers, filter_filter]
  refine filter_congr fun m hm => ?_
  cases hnew : (findSlotByNodeId ti m.nodeId).isNone with
  | false => rfl
  | true =>
    have hmem : m ∈ newcomers ti nodes := mem_filter.mpr ⟨hm, hnew⟩
    have hpull := hi.mem_newcomers.mp hmem
    have hpush : m ∈ newcomers tp nodes := hp.mem_newcomers.mpr ⟨hm, fun k hocc hkept =>
      hpull.2 k hocc (Bool.or_eq_false_iff.mp (obsolete_eq (table k) ▸ hkept)).1⟩
    rw [(mem_filter.mp hpush).2, Bool.and_self]

variable (hd : DistinctIds table)
include hd

omit hi in
theorem newcomer_of_foreign {f : Fin n} (hf : foreign origin nodes (table f) = true)
    (hnode : node ∈ nodes) (hid : (table f).nodeId = node.nodeId) : node ∈ newcomers tp nodes := by
  refine hp.mem_newcomers.mpr ⟨hnode, fun k hocc hkept hidk => ?_⟩
  rw [hd k f hocc (foreign_iff.mp hf).1 (hidk.trans hid.symm), obsolete_of_foreign hf] at hkept
  cases hkept

variable (hids : (nodes.map PeerNodeInfo.nodeId).Nodup)
include hids

theorem card_foreign_newcomers :
    ((newcomers tp nodes).filter fun m => !(findSlotByNodeId ti m.nodeId).isNone).length =
      (foreignSlots origin nodes table).card := by
  have hsub : List.Sublist ((newcomers tp nodes).filter fun m =>
      !(findSlotByNodeId ti m.nodeId).isNone) nodes :=
    filter_sublist.trans filter_sublist
  have hnumbers : (((newcomers tp nodes).filter fun m =>
      !(findSlotByNodeId ti m.nodeId).isNone).map PeerNodeInfo.nodeId).toFinset =
        (foreignSlots origin nodes table).image fun k => (table k).nodeId := by
    ext x
    simp only [mem_toFinset, mem_map, Finset.mem_image, mem_filter, foreignSlots,
      Finset.mem_filter, Finset.mem_univ, true_and]
    constructor
    · rintro ⟨m, ⟨hm, hknown⟩, rfl⟩
      have hpull : m ∉ newcomers ti nodes := fun hmem => by
        rw [(mem_filter.mp hmem).2] at hknown
        cases hknown
      rw [newcomer_push_cases hp hi hm] at hpull
      push Not at hpull
      exact hpull
    · rintro ⟨f, hf, rfl⟩
      obtain ⟨m, hm, hid⟩ := mem_map.mp (foreign_iff.mp hf).2.2
      have hpush := newcomer_of_foreign hp hd hf hm hid.symm
      refine ⟨m, ⟨hpush, ?_⟩, hid⟩
      rw [Bool.not_eq_true', Bool.eq_false_iff]
      exact fun hnew => (newcomer_push_cases hp hi hpush).mp (mem_filter.mpr ⟨hm, hnew⟩) f hf hid.symm
  rw [← length_map PeerNodeInfo.nodeId, ← toFinset_card_of_nodup (hids.sublist (hsub.map _)),
    hnumbers, Finset.card_image_of_injOn]
  intro j hj k hk heq
  exact hd j k (foreign_iff.mp (Finset.mem_filter.mp hj).2).1
    (foreign_iff.mp (Finset.mem_filter.mp hk).2).1 heq

/-- Where the push reaches all nodes of other daemons, both merges have room for
the same newcomers. -/
theorem reached_newcomer_iff (hn : n ≤ maxNodes)
    (hreach : ∀ f, foreign origin nodes (table f) = true → ∀ v ∈ nodes,
      (table f).nodeId = v.nodeId → v ∈ reached tp (free tp).card nodes)
    {m : PeerNodeInfo} (hm : m ∈ newcomers ti nodes) :
    m ∈ reached tp (free tp).card nodes ↔ m ∈ (newcomers ti nodes).take (free ti).card := by
  have hnodup : (newcomers tp nodes).Nodup := (List.Nodup.of_map _ hids).filter _
  have hdrop : ∀ v ∈ (newcomers tp nodes).drop (free tp).card,
      (findSlotByNodeId ti v.nodeId).isNone = true := by
    intro v hv
    have hpush : v ∈ newcomers tp nodes := mem_of_mem_drop hv
    have hmem : v ∈ nodes := (mem_filter.mp hpush).1
    suffices hpull : v ∈ newcomers ti nodes from (mem_filter.mp hpull).2
    refine (newcomer_push_cases hp hi hpush).mpr fun f hf hid => ?_
    have htake : v ∈ (newcomers tp nodes).take (free tp).card := by
      rw [← newcomers_reached]
      exact mem_filter.mpr ⟨hreach f hf v hmem hid, (mem_filter.mp hpush).2⟩
    exact disjoint_take_drop hnodup (Nat.le_refl _) htake hv
  have hcount := filter_take hdrop
  rw [card_foreign_newcomers hp hi hd hids, ← newcomers_pull hp hi, card_free_push hp hi hn,
    Nat.add_sub_cancel, ← card_free_push hp hi hn] at hcount
  have hpush : m ∈ newcomers tp nodes := by
    rw [newcomers_pull hp hi] at hm
    exact (mem_filter.mp hm).1
  rw [← hcount, mem_filter, ← newcomers_reached, newcomers, mem_filter]
  exact ⟨fun h => ⟨⟨h, (mem_filter.mp hpush).2⟩, (mem_filter.mp hm).2⟩, fun h => h.1.1⟩

end Room

end RmwAxon.MergeForeign
