import RmwAxon.PeerSync

namespace RmwAxon.MatchCells

open Loops Matching NodeTable List

/-- A slot with the whole array of its matches, of which the first `matchCount` count;
`remoteMatches` is not looked at. -/
structure Slot where
  node : NodeTableEntry
  cells : List MatchEntry
  matchCount : Nat

def zeroMatch : MatchEntry := ⟨0, 0, 0, 0, 0, 0, 0⟩

def zeroCells (cells : List MatchEntry) (first last : Nat) : List MatchEntry :=
  (List.range' first (last - first)).foldl (fun cells i => cells.set i zeroMatch) cells

def compact (keep : MatchEntry → Bool) (count limit : Nat) (s : Slot) : Slot :=
  let r := sweep keep s.cells limit
  if r.1 < count then ⟨wake s.node, zeroCells r.2 r.1 limit, r.1⟩ else { s with cells := r.2 }

variable {n : Nat}

namespace PeerSync

def removeMatchesForNode (table : Fin n → Slot) (deadNodeId : Nat) : Fin n → Slot := fun k =>
  let s := table k
  if s.node.state ≠ .active then s
  else
    let count := min s.matchCount maxMatches
    compact (fun m => decide (m.nodeId ≠ deadNodeId)) count count s

end PeerSync

def removeMatchesForNode (table : Fin n → Slot) (deadNodeId : Nat) : Fin n → Slot := fun k =>
  let s := table k
  if s.node.state ≠ .active ∨ s.matchCount = 0 then s
  else compact (fun m => decide (m.nodeId ≠ deadNodeId)) s.matchCount (min s.matchCount maxMatches) s

def dropInactive (table : Fin n → Slot) : Fin n → Slot := fun k =>
  let s := table k
  if s.node.state ≠ .active ∨ s.matchCount = 0 then s
  else compact (fun m => (activeNodeIds fun k => (table k).node).contains m.nodeId) s.matchCount
    (min s.matchCount maxMatches) s

def kept (keep : MatchEntry → Bool) (s : Slot) : List MatchEntry :=
  (s.cells.take s.matchCount).filter keep

/-- The list is filtered, what it leaves free is zeroed, and the node is woken if there is any. -/
def filtered (keep : MatchEntry → Bool) (s : Slot) : Slot where
  node := if (kept keep s).length < s.matchCount then wake s.node else s.node
  cells := kept keep s ++ replicate (s.matchCount - (kept keep s).length) zeroMatch ++
    s.cells.drop s.matchCount
  matchCount := (kept keep s).length

theorem zeroCells_eq {cells : List MatchEntry} {first last : Nat} (h : first ≤ last)
    (hl : last ≤ cells.length) : zeroCells cells first last =
      cells.take first ++ replicate (last - first) zeroMatch ++ cells.drop last := by
  obtain ⟨k, rfl⟩ := Nat.exists_eq_add_of_le h
  rw [zeroCells, Nat.add_sub_cancel_left]
  induction k with
  | zero => simp
  | succ k ih =>
    have hlen : (cells.take first ++ replicate k zeroMatch).length = first + k := by
      rw [length_append, length_take, length_replicate]
      omega
    rw [range'_1_concat, foldl_append, ih (by omega) (by omega), foldl_cons, foldl_nil,
      set_append_right _ _ hlen.le, hlen, Nat.sub_self, drop_eq_getElem_cons (by omega : _ < cells.length),
      set_cons_zero, replicate_succ', append_assoc, append_assoc, append_assoc]
    rfl

theorem sweep_length (keep : MatchEntry → Bool) (xs : List MatchEntry) (limit : Nat) :
    (sweep keep xs limit).2.length = xs.length := by
  refine foldlRecOn (motive := fun (r : _ × List _) => r.2.length = xs.length) _ _ rfl fun r hr _ _ => ?_
  unfold sweepStep
  split
  · split_ifs
    · exact length_set.trans hr
    · exact hr
  · exact hr

theorem compact_eq (keep : MatchEntry → Bool) {s : Slot} (h : s.matchCount ≤ s.cells.length) :
    compact keep s.matchCount s.matchCount s = filtered keep s := by
  have hswept : Swept keep s.cells s.matchCount _ := sweep_swept h
  have hcount : (sweep keep s.cells s.matchCount).1 = (kept keep s).length := hswept.count
  have hle : (kept keep s).length ≤ s.matchCount := hcount ▸ hswept.written
  have hdrop : (sweep keep s.cells s.matchCount).2.drop s.matchCount = s.cells.drop s.matchCount := by
    apply ext_getElem?
    intro i
    rw [getElem?_drop, getElem?_drop]
    exact hswept.rest _ (Nat.le_add_right ..)
  have hlen := sweep_length keep s.cells s.matchCount
  unfold compact filtered
  dsimp only
  split_ifs with hlt hshort hshort
  · rw [zeroCells_eq hlt.le (hlen ▸ h), hswept.front, hdrop, hcount]
    rfl
  · exact absurd (hcount ▸ hlt) hshort
  · exact absurd (hcount ▸ hshort) hlt
  · have hall : (kept keep s).length = s.matchCount := by omega
    have hfront := hswept.front
    rw [hcount, hall] at hfront
    rw [hall, Nat.sub_self, replicate_zero, append_nil, kept, ← hfront, ← hdrop, take_append_drop]

/-- A slot with two matches. -/
def paired : Slot :=
  ⟨{ zeroEntry with state := .active }, { zeroMatch with nodeId := 5 } :: { zeroMatch with nodeId := 6 } ::
    replicate (maxMatches - 2) zeroMatch, 2⟩

end RmwAxon.MatchCells
