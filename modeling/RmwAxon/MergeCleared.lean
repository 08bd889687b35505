import RmwAxon.MergeOutcome

namespace RmwAxon.MergeCleared

open DomainSync LocalSlots Matching MatchKeys MatchPass MergeAgree MergeOutcome MergePlayed List
open MergeRounds MergeSim NodeTable
open PeerSync (PeerNodeInfo clearObsolete peerNodeEndpointsMatch)

variable {n : Nat} {table t : Table n} {origin : Nat} {node : PeerNodeInfo}
  {nodes : List PeerNodeInfo} {marked : NodeTableEntry → Bool}

/-- A node whose slot is cleared. Matches to the number 0 are not withdrawn. -/
def dead (marked : NodeTableEntry → Bool) (table : Table n) (x : Nat) : Bool :=
  decide (x ≠ 0 ∧ ∃ k, marked (table k) = true ∧ (table k).nodeId = x)

structure Cleared (marked : NodeTableEntry → Bool) (table t : Table n) : Prop where
  gone : ∀ k, marked (table k) = true → isOccupied (t k) = false
  same : ∀ k, marked (table k) = false → SameNode (table k) (t k)
  left : ∀ k, marked (table k) = false → (t k).remoteMatches = without (dead marked table) (table k)

theorem mem_clearedNodeIds {clear : NodeTableEntry → NodeTableEntry}
    (hmarked : ∀ e, marked e = true → isOccupied e = true) (hclear : ∀ e, isOccupied (clear e) = false)
    (x : Nat) :
    x ∈ clearedNodeIds table (fun k => if marked (table k) = true then clear (table k) else table k) ↔
      dead marked table x = true := by
  have hslot : ∀ k, (isOccupied (table k) &&
      !isOccupied (if marked (table k) = true then clear (table k) else table k)) = marked (table k) := by
    intro k
    split_ifs with hk
    · rw [hmarked _ hk, hclear, hk]
      rfl
    · rw [Bool.and_not_self, Bool.eq_false_iff.mpr hk]
  simp only [clearedNodeIds, hslot, mem_filterMap, mem_finRange, true_and, dead, decide_eq_true_eq]
  constructor
  · rintro ⟨k, hk⟩
    split_ifs at hk with hcond
    simp only [Bool.and_eq_true, decide_eq_true_eq] at hcond
    cases hk
    exact ⟨hcond.2, k, hcond.1, rfl⟩
  · rintro ⟨hne, k, hk, rfl⟩
    exact ⟨k, by rw [hk, Bool.true_and, if_pos (decide_eq_true hne)]⟩

theorem cleared_of_marked (hmarked : ∀ e, marked e = true → isOccupied e = true)
    (clear : NodeTableEntry → NodeTableEntry) (hclear : ∀ e, Blank (clear e)) (hshort : Short table)
    {remove : Table n → Nat → Table n} (hremove : Withdraws remove) {c : Table n}
    (hc : c = fun k => if marked (table k) = true then clear (table k) else table k) :
    Cleared marked table ((clearedNodeIds table c).foldl remove c) := by
  have hlen : Short c := by
    intro k
    rw [hc]
    dsimp only
    split_ifs
    · obtain ⟨port, start, heq⟩ := hclear (table k)
      rw [heq]
      exact Nat.zero_le _
    · exact hshort k
  have hpruned := removes_pruned hremove.pruned (clearedNodeIds table c) c
  have hid : ∀ k, marked (table k) = false → c k = table k := fun k hk => by simp [hc, hk]
  refine ⟨fun k hk => ?_, fun k hk => ?_, fun k hk => ?_⟩
  · have hblank : c k = clear (table k) := by simp [hc, hk]
    rw [(hpruned k).isOccupied, hblank, (hclear _).isOccupied]
  · exact hid k hk ▸ (hpruned k).same
  rw [hremove.list hlen, hid k hk]
  congr 1
  funext x
  rw [Bool.eq_iff_iff, decide_eq_true_eq, hc]
  exact mem_clearedNodeIds hmarked (fun e => (hclear e).isOccupied) x

section Cleared

variable (h : Cleared marked table t) (hmarked : ∀ e, marked e = true → isOccupied e = true)
include h

theorem Cleared.occupied (k : Fin n) : isOccupied (t k) = true ↔
    isOccupied (table k) = true ∧ marked (table k) = false := by
  cases hk : marked (table k) with
  | true => simp [h.gone k hk]
  | false => simp [isOccupied, (h.same k hk).state]

theorem Cleared.distinct (hd : DistinctIds table) : DistinctIds t :=
  hd.of_fewer fun k hk => by
    obtain ⟨hocc, hkept⟩ := (h.occupied k).mp hk
    exact ⟨hocc, (h.same k hkept).nodeId⟩

theorem Cleared.mem_newcomers {ms : List PeerNodeInfo} : node ∈ newcomers t ms ↔ node ∈ ms ∧
    ∀ k, isOccupied (table k) = true → marked (table k) = false → (table k).nodeId ≠ node.nodeId := by
  rw [newcomers, mem_filter, isNone_findSlotByNodeId]
  refine and_congr_right fun _ => forall_congr' fun k => ?_
  rw [h.occupied k, and_imp]
  refine imp_congr_right fun _ => imp_congr_right fun hk => ?_
  rw [(h.same k hk).nodeId]

theorem Cleared.moved_iff (hd : DistinctIds table) : moved t node = true ↔
    ∃ k, isOccupied (table k) = true ∧ marked (table k) = false ∧ (table k).nodeId = node.nodeId ∧
      peerNodeEndpointsMatch (table k) node = false := by
  rw [MergePlayed.moved_iff (h.distinct hd)]
  refine exists_congr fun k => ?_
  rw [h.occupied k, and_assoc]
  refine and_congr_right fun _ => and_congr_right fun hk => ?_
  rw [(h.same k hk).nodeId, peerNodeEndpointsMatch_congr (h.same k hk)]

end Cleared

def loss (marked : NodeTableEntry → Bool) (table : Table n) (moved : PeerNodeInfo → Bool)
    (nodes : List PeerNodeInfo) (e : NodeTableEntry) (m : MatchEntry) : Bool :=
  decide (e.state = .active) && dead marked table m.nodeId ||
    loses moved e.nodeId m (decide (e.state = .active)) nodes

def remains (marked : NodeTableEntry → Bool) (table : Table n) (moved : PeerNodeInfo → Bool)
    (nodes : List PeerNodeInfo) (e : NodeTableEntry) : List MatchEntry :=
  e.remoteMatches.filter fun m => !loss marked table moved nodes e m

theorem Cleared.result (h : Cleared marked table t) (o : NodeTableEntry) (ms : List MatchEntry) :
    Result origin nodes t o ms ↔ (∃ k, (isOccupied (table k) = true ∧ marked (table k) = false) ∧
        shown origin nodes (table k) = o ∧ remains marked table (moved t) nodes (table k) = ms) ∨
      ∃ m ∈ (newcomers t nodes).take (free t).card, announced origin m = o ∧ [] = ms := by
  refine or_congr_left (exists_congr fun k => ?_)
  rw [h.occupied k]
  refine and_congr_right fun hk => ?_
  have hsame := h.same k hk.2
  have hshown : shown origin nodes (t k) = shown origin nodes (table k) :=
    hsame.field (shown origin nodes) fun _ => rfl
  have hleft : MergeOutcome.left (moved t) nodes (t k) = remains marked table (moved t) nodes (table k) := by
    rw [MergeOutcome.left, h.left k hk.2, without, hsame.nodeId, hsame.state, filter_filter]
    refine filter_congr fun m _ => ?_
    rw [loss, Bool.not_or, Bool.and_comm]
  rw [hshown, hleft]

theorem stale_iff {e : NodeTableEntry} : stale origin nodes e = true ↔ isOccupied e = true ∧
    e.daemonOrigin = origin ∧ e.nodeId ∉ nodes.map PeerNodeInfo.nodeId := by
  rw [stale, PeerSync.staleFromOrigin, Bool.and_eq_true, Bool.and_eq_true, decide_eq_true_eq,
    Bool.not_eq_true', contains_eq_mem, decide_eq_false_iff_not]

def pushCleared (origin : Nat) (nodes : List PeerNodeInfo) (table : Table n) : Table n :=
  let cleared := clearObsolete origin (nodes.map PeerNodeInfo.nodeId) table
  (clearedNodeIds table cleared).foldl PeerSync.removeMatchesForNode cleared

def pullCleared (origin : Nat) (nodes : List PeerNodeInfo) (table : Table n) : Table n :=
  let cleared := InlineMerge.clearObsolete origin (nodes.map PeerNodeInfo.nodeId) table
  (clearedNodeIds table cleared).foldl removeMatchesForNode cleared

theorem pushCleared_sameNodes (origin : Nat) (nodes : List PeerNodeInfo) (table : Table n) :
    SameNodes (clearObsolete origin (nodes.map PeerNodeInfo.nodeId) table) (pushCleared origin nodes table) :=
  fun k => (removes_pruned peer_removeMatches_pruned _ _ k).same

section Short

variable (hshort : Short table)
include hshort

theorem pushCleared_cleared : Cleared (obsolete origin nodes) table (pushCleared origin nodes table) :=
  cleared_of_marked (fun _ he => (Bool.and_eq_true_iff.mp he).1) (fun _ => zeroEntry)
    (fun _ => ⟨0, 0, rfl⟩) hshort peer_withdraws rfl

theorem pullCleared_cleared : Cleared (stale origin nodes) table (pullCleared origin nodes table) :=
  cleared_of_marked (fun _ he => (stale_iff.mp he).1) InlineMerge.clearStale (fun _ => ⟨_, _, rfl⟩)
    hshort daemon_withdraws rfl

theorem pushCleared_short : Short (pushCleared origin nodes table) := by
  have hthin : Thinned (obsolete origin nodes) table (pushCleared origin nodes table) :=
    thinned_of_cleared _ (fun _ => zeroEntry) (fun _ => ⟨0, 0, rfl⟩) peer_removeMatches_pruned rfl
  exact hthin.lasting (short_lasting nodes) hshort

theorem pullCleared_short : Short (pullCleared origin nodes table) := by
  have hthin : Thinned (stale origin nodes) table (pullCleared origin nodes table) :=
    thinned_of_cleared _ InlineMerge.clearStale (fun _ => ⟨_, _, rfl⟩) daemon_removeMatches_pruned rfl
  exact hthin.lasting (short_lasting nodes) hshort

theorem pullCleared_sim (hforeign : NoneForeign origin nodes table) :
    Sim (pushCleared origin nodes table) (pullCleared origin nodes table) := by
  have hcleared := clearObsolete_sim hforeign
  have hcut : Short (PeerSync.clearObsolete origin (nodes.map PeerNodeInfo.nodeId) table) := by
    intro k
    simp only [PeerSync.clearObsolete]
    split_ifs
    · exact Nat.zero_le _
    · exact hshort k
  have hsim := hcleared.removes hcut
    (clearedNodeIds table (clearObsolete origin (nodes.map PeerNodeInfo.nodeId) table))
  simpa only [pushCleared, pullCleared, clearedNodeIds, hcleared.occupied] using hsim

end Short

end RmwAxon.MergeCleared
