import RmwAxon.InlineMerge
import RmwAxon.TopicUpdates

namespace RmwAxon.MergeRounds

open Loops Matching MatchPass NodeTable Function List InlineMerge
open PeerSync (PeerNodeInfo fillEntry peerNodeEndpointsMatch staleFromOrigin duplicateRemote)

variable {n : Nat} {table : Table n} {origin now : Nat} {node : PeerNodeInfo} {nodes : List PeerNodeInfo}

structure Pruned (lost : MatchEntry → Prop) (e e' : NodeTableEntry) : Prop where
  same : SameNode e e'
  fewer : List.Sublist e'.remoteMatches e.remoteMatches
  kept : e.remoteMatches.length ≤ maxMatches →
    ∀ m ∈ e.remoteMatches, ¬ lost m → m ∈ e'.remoteMatches
  still : e'.remoteMatches = e.remoteMatches → e' = e

namespace Pruned

variable {lost lost' : MatchEntry → Prop} {e e' e'' : NodeTableEntry}

theorem refl (lost : MatchEntry → Prop) (e : NodeTableEntry) : Pruned lost e e :=
  ⟨.refl e, List.Sublist.refl _, fun _ _ hm _ => hm, fun _ => rfl⟩

theorem trans (h : Pruned lost e e') (h' : Pruned lost e' e'') : Pruned lost e e'' where
  same := h.same.trans h'.same
  fewer := h'.fewer.trans h.fewer
  kept := fun hlen m hm hl =>
    h'.kept (Nat.le_trans h.fewer.length_le hlen) m (h.kept hlen m hm hl) hl
  still := by
    intro heq
    have hmid : e'.remoteMatches = e.remoteMatches :=
      h.fewer.eq_of_length_le (heq ▸ h'.fewer.length_le)
    rw [h'.still (heq.trans hmid.symm), h.still hmid]

theorem mono (h : Pruned lost e e') (hlost : ∀ m, lost m → lost' m) : Pruned lost' e e' :=
  ⟨h.same, h.fewer, fun hlen m hm hl => h.kept hlen m hm fun hm' => hl (hlost m hm'), h.still⟩

theorem isOccupied (h : Pruned lost e e') : isOccupied e' = isOccupied e := by
  rw [NodeTable.isOccupied, NodeTable.isOccupied, h.same.state]

end Pruned

variable {e : NodeTableEntry} {remove : Table n → Nat → Table n} {existing : Option (Fin n)}
    {q : NodeTableEntry → Bool} {k idx : Fin n}

theorem compactMatches_pruned (keep : MatchEntry → Bool) {count : Nat}
    (hcount : min e.remoteMatches.length maxMatches ≤ count) (hlen : count ≤ e.remoteMatches.length) :
    Pruned (fun m => keep m = false) e (compactMatches keep count e) := by
  have hlimit : min count maxMatches ≤ e.remoteMatches.length := by omega
  simp only [compactMatches]
  split_ifs with hlt
  · rw [sweep_count hlimit, ← take_sweep hlimit] at hlt
    refine ⟨rfl, ?_, fun hmax m hm hkeep => ?_, fun hsame => ?_⟩
    · rw [wake, setMatches, take_sweep hlimit]
      exact filter_sublist.trans (take_sublist ..)
    · rw [wake, setMatches, take_sweep hlimit]
      refine mem_filter.mpr ⟨?_, by simpa using hkeep⟩
      rwa [take_of_length_le (by omega)]
    · have hlength := congrArg length hsame
      exact absurd hlength (by simp only [wake, setMatches]; omega)
  · exact .refl _ e

theorem daemon_removeMatches_pruned (table : Table n) (id : Nat) (k : Fin n) :
    Pruned (fun m => m.nodeId = id) (table k) (removeMatchesForNode table id k) := by
  simp only [removeMatchesForNode]
  split_ifs
  · exact .refl _ _
  · exact (compactMatches_pruned _ (Nat.min_le_left ..) le_rfl).mono fun m hm => by simpa using hm

theorem peer_removeMatches_pruned (table : Table n) (id : Nat) (k : Fin n) :
    Pruned (fun m => m.nodeId = id) (table k) (PeerSync.removeMatchesForNode table id k) := by
  simp only [PeerSync.removeMatchesForNode]
  split_ifs
  · exact .refl _ _
  · exact (compactMatches_pruned _ le_rfl (Nat.min_le_left ..)).mono fun m hm => by simpa using hm

theorem removes_pruned (hremove : ∀ table id k, Pruned (fun m => m.nodeId = id) (table k) (remove table id k))
    (ids : List Nat) (table : Table n) (k : Fin n) :
    Pruned (fun m => m.nodeId ∈ ids) (table k) (ids.foldl remove table k) := by
  induction ids generalizing table with
  | nil => exact .refl _ _
  | cons id ids ih =>
    exact ((hremove table id k).mono fun m hm => hm ▸ mem_cons_self).trans
      ((ih _).mono fun m hm => mem_cons_of_mem id hm)

def Blank (e : NodeTableEntry) : Prop :=
  ∃ port start, e = { zeroEntry with quicPort := port, procStarttime := start }

theorem Blank.isOccupied (h : Blank e) : isOccupied e = false := by
  obtain ⟨port, start, rfl⟩ := h
  rfl

def ToGone (gone : NodeTableEntry → Bool) (table : Table n) (m : MatchEntry) : Prop :=
  ∃ j, gone (table j) = true ∧ (table j).nodeId = m.nodeId

/-- The slots that are marked as gone are cleared, the others only lose the
matches to them. -/
def Thinned (gone : NodeTableEntry → Bool) (table table' : Table n) : Prop :=
  ∀ k, gone (table k) = true ∧ (∃ e, Blank e ∧ Pruned (ToGone gone table) e (table' k)) ∨
    gone (table k) = false ∧ Pruned (ToGone gone table) (table k) (table' k)

def ToChanged (node : PeerNodeInfo) (table : Table n) (m : MatchEntry) : Prop :=
  m.nodeId = node.nodeId ∧ ∃ j, isOccupied (table j) = true ∧ (table j).nodeId = node.nodeId ∧
    peerNodeEndpointsMatch (table j) node = false

def Placed (origin now : Nat) (node : PeerNodeInfo) (idx : Fin n) (table table' : Table n) : Prop :=
  ∃ r : Table n, ∃ e start, (∀ k, Pruned (ToChanged node table) (table k) (r k)) ∧
    table' = update r idx { fillEntry origin now node e with procStarttime := start } ∧
    (isOccupied (table idx) = true ∧ (table idx).nodeId = node.nodeId ∧ e = r idx ∨
      isOccupied (table idx) = false ∧ e = zeroEntry ∧
        ∀ k : Fin n, k.val < maxNodes → isOccupied (table k) = true → (table k).nodeId ≠ node.nodeId)

def Full (table : Table n) : Prop := ∀ k : Fin n, k.val < maxNodes → isOccupied (table k) = true

inductive Rounds (origin now : Nat) : List PeerNodeInfo → Table n → Table n → Prop
  | nil (table : Table n) : Rounds origin now [] table table
  | placed {node : PeerNodeInfo} {rest : List PeerNodeInfo} {t u v : Table n} (idx : Fin n) :
      Placed origin now node idx t u → Rounds origin now rest u v → Rounds origin now (node :: rest) t v
  | passed {node : PeerNodeInfo} {rest : List PeerNodeInfo} {t v : Table n} :
      Full t → Rounds origin now rest t v → Rounds origin now (node :: rest) t v

def Merged (gone : NodeTableEntry → Bool) (origin now : Nat) (nodes : List PeerNodeInfo)
    (table table' : Table n) : Prop :=
  ∃ t, Thinned gone table t ∧ Rounds origin now nodes t table'

theorem Rounds.full (h : Full table) (nodes : List PeerNodeInfo) : Rounds origin now nodes table table := by
  induction nodes with
  | nil => exact .nil table
  | cons node nodes ih => exact .passed h ih

theorem gone_of_mem_cleared {gone : NodeTableEntry → Bool} {clear : NodeTableEntry → NodeTableEntry}
    {id : Nat}
    (h : id ∈ clearedNodeIds table fun k => if gone (table k) = true then clear (table k) else table k) :
    ∃ j, gone (table j) = true ∧ (table j).nodeId = id := by
  obtain ⟨j, _, hj⟩ := mem_filterMap.mp h
  split_ifs at hj with hocc
  refine ⟨j, ?_, Option.some.inj hj⟩
  by_contra hgone
  simp [hgone] at hocc

theorem thinned_of_cleared (gone : NodeTableEntry → Bool) (clear : NodeTableEntry → NodeTableEntry)
    (hclear : ∀ e, Blank (clear e))
    (hremove : ∀ table id k, Pruned (fun m => m.nodeId = id) (table k) (remove table id k))
    {cleared : Table n}
    (hcleared : cleared = fun k => if gone (table k) = true then clear (table k) else table k) :
    Thinned gone table ((clearedNodeIds table cleared).foldl remove cleared) := by
  subst hcleared
  intro k
  have hpruned : Pruned (ToGone gone table) _ _ :=
    (removes_pruned hremove
      (clearedNodeIds table fun k => if gone (table k) = true then clear (table k) else table k)
      (fun k => if gone (table k) = true then clear (table k) else table k) k).mono
        fun _ hm => gone_of_mem_cleared hm
  cases hg : gone (table k) with
  | true => exact .inl ⟨rfl, _, hclear (table k), by simpa only [hg, if_true] using hpruned⟩
  | false => exact .inr ⟨rfl, by simpa [hg] using hpruned⟩

def Found (table : Table n) (node : PeerNodeInfo) (existing : Option (Fin n)) (idx : Fin n) : Prop :=
  existing = some idx ∧ isOccupied (table idx) = true ∧ (table idx).nodeId = node.nodeId ∨
    existing = none ∧ isOccupied (table idx) = false ∧
      ∀ k : Fin n, k.val < maxNodes → isOccupied (table k) = true → (table k).nodeId ≠ node.nodeId

theorem found_or_full (find : (NodeTableEntry → Bool) → Option (Fin n)) (node : PeerNodeInfo)
    (hsome : ∀ q k, find q = some k → q (table k) = true)
    (hnone : ∀ q, find q = none → ∀ k : Fin n, k.val < maxNodes → q (table k) = false)
    {slot : Option (Fin n)}
    (hexisting : (find fun e => isOccupied e && decide (e.nodeId = node.nodeId)) = existing)
    (hslot : existing.or (find fun e => !isOccupied e) = slot) :
    slot = none ∧ Full table ∨ ∃ idx, slot = some idx ∧ Found table node existing idx := by
  cases existing with
  | some k =>
    have hk := hsome _ k hexisting
    simp only [Bool.and_eq_true, decide_eq_true_eq] at hk
    exact .inr ⟨k, hslot.symm, .inl ⟨rfl, hk⟩⟩
  | none =>
    rw [Option.none_or] at hslot
    cases slot with
    | none => exact .inl ⟨rfl, fun k hk => by simpa using hnone _ hslot k hk⟩
    | some k =>
      refine .inr ⟨k, rfl, .inr ⟨rfl, by simpa using hsome _ k hslot, fun j hj hocc => ?_⟩⟩
      simpa [hocc] using hnone _ hexisting j hj

theorem firstSlot_eq_some (h : firstSlot table q = some k) : q (table k) = true := by
  simpa using find?_some h

theorem firstSlot_eq_none (h : firstSlot table q = none) (k : Fin n) : q (table k) = false := by
  simpa using find?_eq_none.mp h k (mem_finRange k)

theorem findSlot_eq_some (h : findSlot table q = some k) : q (table k) = true := by
  have hk := find?_some h
  simp only [Bool.and_eq_true] at hk
  exact hk.2

theorem findSlot_eq_none (h : findSlot table q = none) (k : Fin n)
    (hk : k.val < maxNodes) : q (table k) = false := by
  simpa [hk, k.isLt] using find?_eq_none.mp h k (mem_finRange k)

theorem placed_of_found (h : Found table node existing idx) {r : Table n}
    (hr : ∀ k, Pruned (ToChanged node table) (table k) (r k))
    (he : ∃ start, e = { fillEntry origin now node (if existing.isNone = true then zeroEntry else r idx) with
      procStarttime := start }) :
    Placed origin now node idx table (update r idx e) := by
  obtain ⟨start, rfl⟩ := he
  refine ⟨r, _, start, hr, rfl, ?_⟩
  rcases h with ⟨rfl, hocc, hid⟩ | ⟨rfl, hfree, hnew⟩
  · exact .inl ⟨hocc, hid, rfl⟩
  · exact .inr ⟨hfree, rfl, hnew⟩

theorem unlinked_pruned
    (hremove : ∀ table id k, Pruned (fun m => m.nodeId = id) (table k) (remove table id k))
    (h : Found table node existing idx) (k : Fin n) :
    Pruned (ToChanged node table) (table k)
      ((if (existing.any fun k => !peerNodeEndpointsMatch (table k) node) = true then
        remove table node.nodeId else table) k) := by
  split_ifs with hchanged
  · refine (hremove table node.nodeId k).mono fun m hm => ⟨hm, ?_⟩
    rcases h with ⟨rfl, hocc, hid⟩ | ⟨rfl, _⟩
    · exact ⟨idx, hocc, hid, by simpa using hchanged⟩
    · cases hchanged
  · exact .refl _ _

theorem peer_placeNode_placed (h : Found table node existing idx) :
    Placed origin now node idx table (PeerSync.placeNode origin now node existing idx table) :=
  placed_of_found h (unlinked_pruned peer_removeMatches_pruned h) ⟨0, rfl⟩

theorem inline_placeNode_placed (h : Found table node existing idx) :
    Placed origin now node idx table (placeNode origin now node existing idx table) := by
  refine placed_of_found h (unlinked_pruned daemon_removeMatches_pruned h) ?_
  cases existing with
  | none | some => exact ⟨_, rfl⟩

theorem mergeNodes_cases (origin now : Nat) (node : PeerNodeInfo) (rest : List PeerNodeInfo)
    (table : Table n) :
    ((findSlotByNodeId table node.nodeId).or (findFreeSlot table) = none ∧ Full table ∧
        PeerSync.mergeNodes origin now (node :: rest) table = table) ∨
      ∃ idx, (findSlotByNodeId table node.nodeId).or (findFreeSlot table) = some idx ∧
        Found table node (findSlotByNodeId table node.nodeId) idx ∧
        PeerSync.mergeNodes origin now (node :: rest) table = PeerSync.mergeNodes origin now rest
          (PeerSync.placeNode origin now node (findSlotByNodeId table node.nodeId) idx table) := by
  rcases found_or_full (firstSlot table) node (fun _ _ => firstSlot_eq_some)
    (fun _ h k _ => firstSlot_eq_none h k) rfl rfl with ⟨hnone, hfull⟩ | ⟨idx, hsome, hfound⟩
  · exact .inl ⟨hnone, hfull, by simp only [PeerSync.mergeNodes, findSlotByNodeId, findFreeSlot, hnone]⟩
  · exact .inr ⟨idx, hsome, hfound,
      by simp only [PeerSync.mergeNodes, findSlotByNodeId, findFreeSlot, hsome]⟩

theorem mergeNodes_rounds (nodes : List PeerNodeInfo) (table : Table n) :
    Rounds origin now nodes table (PeerSync.mergeNodes origin now nodes table) := by
  induction nodes generalizing table with
  | nil => exact .nil table
  | cons node rest ih =>
    rcases mergeNodes_cases origin now node rest table with ⟨_, hfull, heq⟩ | ⟨idx, _, hfound, heq⟩
    · rw [heq]
      exact .full hfull _
    · rw [heq]
      exact .placed idx (peer_placeNode_placed hfound) (ih _)

theorem mergeNode_cases (origin now : Nat) (table : Table n) (node : PeerNodeInfo) :
    (Full table ∧ mergeNode origin now table node = table) ∨
      ∃ existing idx, Found table node existing idx ∧ mergeNode origin now table node =
        placeNode origin now node existing idx table := by
  rcases found_or_full (findSlot table) node (fun _ _ => findSlot_eq_some)
    (fun _ => findSlot_eq_none) rfl rfl with ⟨hnone, hfull⟩ | ⟨idx, hsome, hfound⟩
  · exact .inl ⟨hfull, by simp only [mergeNode, hnone]⟩
  · exact .inr ⟨_, idx, hfound, by simp only [mergeNode, hsome]⟩

theorem mergeNode_rounds (nodes : List PeerNodeInfo) (table : Table n) :
    Rounds origin now nodes table (nodes.foldl (mergeNode origin now) table) := by
  induction nodes generalizing table with
  | nil => exact .nil table
  | cons node rest ih =>
    rw [foldl_cons]
    rcases mergeNode_cases origin now table node with ⟨hfull, heq⟩ | ⟨existing, idx, hfound, heq⟩
    · rw [heq]
      exact .passed hfull (ih table)
    · rw [heq]
      exact .placed idx (inline_placeNode_placed hfound) (ih _)

def obsolete (origin : Nat) (nodes : List PeerNodeInfo) (e : NodeTableEntry) : Bool :=
  isOccupied e && (staleFromOrigin origin (nodes.map PeerNodeInfo.nodeId) e ||
    duplicateRemote origin (nodes.map PeerNodeInfo.nodeId) e)

def stale (origin : Nat) (nodes : List PeerNodeInfo) (e : NodeTableEntry) : Bool :=
  isOccupied e && staleFromOrigin origin (nodes.map PeerNodeInfo.nodeId) e

theorem mergeRemoteNodes_merged (horigin : origin ≠ 0) (nodes : List PeerNodeInfo) (table : Table n) :
    Merged (obsolete origin nodes) origin now nodes table
      (PeerSync.mergeRemoteNodes origin now nodes table) := by
  rw [PeerSync.mergeRemoteNodes, if_neg horigin]
  exact ⟨_, thinned_of_cleared _ (fun _ => zeroEntry) (fun _ => ⟨0, 0, rfl⟩)
    peer_removeMatches_pruned rfl, mergeNodes_rounds nodes _⟩

theorem inlineMerge_merged (nodes : List PeerNodeInfo) (table : Table n) :
    Merged (stale origin nodes) origin now nodes table (inlineMerge origin now nodes table) :=
  ⟨_, thinned_of_cleared _ clearStale (fun _ => ⟨_, _, rfl⟩)
    daemon_removeMatches_pruned rfl, mergeNode_rounds nodes _⟩

theorem Placed.other {table' : Table n} (h : Placed origin now node idx table table')
    (hocc : isOccupied (table k) = true) (hid : (table k).nodeId ≠ node.nodeId) :
    k ≠ idx ∧ Pruned (ToChanged node table) (table k) (table' k) := by
  obtain ⟨r, e, start, hr, rfl, hslot⟩ := h
  have hk : k ≠ idx := by
    rintro rfl
    rcases hslot with ⟨_, hidx, _⟩ | ⟨hfree, _⟩
    · exact hid hidx
    · rw [hocc] at hfree
      cases hfree
  exact ⟨hk, by simpa only [update_of_ne hk] using hr k⟩

/-- A property of slots that survives what a merge does to a slot: it is
cleared, it loses matches, or a node of the list is put into it. -/
structure Lasting (nodes : List PeerNodeInfo) (Q : NodeTableEntry → Prop) : Prop where
  blank : ∀ e, Blank e → Q e
  pruned : ∀ lost e e', Pruned lost e e' → Q e → Q e'
  filled : ∀ origin now, ∀ node ∈ nodes, ∀ e start, Q e →
    Q { fillEntry origin now node e with procStarttime := start }

variable {Q : NodeTableEntry → Prop} {gone : NodeTableEntry → Bool} {table' : Table n}

theorem Thinned.lasting (hQ : Lasting nodes Q) (h : Thinned gone table table')
    (htable : ∀ k, Q (table k)) (k : Fin n) : Q (table' k) := by
  rcases h k with ⟨_, e, hblank, hpruned⟩ | ⟨_, hpruned⟩
  · exact hQ.pruned _ _ _ hpruned (hQ.blank e hblank)
  · exact hQ.pruned _ _ _ hpruned (htable k)

theorem Placed.lasting (hQ : Lasting nodes Q) (hnode : node ∈ nodes)
    (h : Placed origin now node idx table table') (htable : ∀ k, Q (table k)) (k : Fin n) :
    Q (table' k) := by
  obtain ⟨r, e, start, hr, rfl, hslot⟩ := h
  have hrest : ∀ k, Q (r k) := fun k => hQ.pruned _ _ _ (hr k) (htable k)
  have he : Q e := by
    rcases hslot with ⟨_, _, rfl⟩ | ⟨_, rfl, _⟩
    · exact hrest idx
    · exact hQ.blank _ ⟨0, 0, rfl⟩
  rw [update_apply]
  split_ifs
  · exact hQ.filled origin now node hnode e start he
  · exact hrest k

theorem Rounds.lasting {rest : List PeerNodeInfo} (hQ : Lasting nodes Q) (hrest : rest ⊆ nodes)
    (h : Rounds origin now rest table table') (htable : ∀ k, Q (table k)) : ∀ k, Q (table' k) := by
  induction h with
  | nil => exact htable
  | placed idx hplaced _ ih =>
    exact ih (fun m hm => hrest (mem_cons_of_mem _ hm)) (hplaced.lasting hQ (hrest mem_cons_self) htable)
  | passed _ _ ih => exact ih (fun m hm => hrest (mem_cons_of_mem _ hm)) htable

theorem Merged.lasting (hQ : Lasting nodes Q) (h : Merged gone origin now nodes table table')
    (htable : ∀ k, Q (table k)) : ∀ k, Q (table' k) := by
  obtain ⟨t, hthin, hrounds⟩ := h
  exact hrounds.lasting hQ (List.Subset.refl nodes) (hthin.lasting hQ htable)

theorem mergeRemoteNodes_lasting (hQ : Lasting nodes Q) (htable : ∀ k, Q (table k)) :
    ∀ k, Q (PeerSync.mergeRemoteNodes origin now nodes table k) := by
  by_cases horigin : origin = 0
  · rw [PeerSync.mergeRemoteNodes, if_pos horigin]
    exact htable
  · exact (mergeRemoteNodes_merged horigin nodes table).lasting hQ htable

end RmwAxon.MergeRounds
