import RmwAxon.DomainSync

namespace RmwAxon.MergeSim

open Matching MatchPass MergeRounds NodeTable Function
open PeerSync (PeerNodeInfo fillEntry peerNodeEndpointsMatch)

variable {n : Nat} {t u : Table n} {origin now now' : Nat} {node : PeerNodeInfo}
  {nodes : List PeerNodeInfo}

def blur (e : NodeTableEntry) : NodeTableEntry := { e with procStarttime := 0, lastSeenSecs := 0 }

def sight (e : NodeTableEntry) : NodeTableEntry := if isOccupied e = true then blur e else zeroEntry

def Sim (t u : Table n) : Prop := ∀ k, sight (u k) = sight (t k)

theorem isOccupied_sight (e : NodeTableEntry) : isOccupied (sight e) = isOccupied e := by
  unfold sight
  split_ifs with h
  · rfl
  · rw [Bool.not_eq_true] at h
    rw [h]
    rfl

theorem Sim.occupied (h : Sim t u) (k : Fin n) : isOccupied (u k) = isOccupied (t k) := by
  rw [← isOccupied_sight (u k), h k, isOccupied_sight]

theorem Sim.blurred (h : Sim t u) {k : Fin n} (hk : isOccupied (t k) = true) : blur (u k) = blur (t k) := by
  have hsight := h k
  rwa [sight, sight, h.occupied k, if_pos hk, if_pos hk] at hsight

theorem Sim.field (h : Sim t u) {k : Fin n} (hk : isOccupied (t k) = true) {β : Type}
    (f : NodeTableEntry → β) (hf : ∀ e, f (blur e) = f e) : f (u k) = f (t k) := by
  rw [← hf (u k), ← hf (t k), h.blurred hk]

theorem sight_of_blur {e e' : NodeTableEntry} (h : blur e' = blur e) : sight e' = sight e := by
  have hstate : isOccupied e' = isOccupied e := by
    show isOccupied (blur e') = isOccupied (blur e)
    rw [h]
  rw [sight, sight, hstate, h]

theorem compactMatches_blur (keep : MatchEntry → Bool) (count : Nat) (e : NodeTableEntry) :
    blur (compactMatches keep count e) = compactMatches keep count (blur e) :=
  apply_ite blur _ _ _

theorem daemon_removeMatches_eq (u : Table n) (id : Nat) (k : Fin n) :
    removeMatchesForNode u id k = if (u k).state ≠ .active then u k
      else compactMatches (fun m => decide (m.nodeId ≠ id)) (u k).remoteMatches.length (u k) := by
  simp only [removeMatchesForNode]
  by_cases hstate : (u k).state = .active
  · by_cases hlen : (u k).remoteMatches.length = 0
    · simp [hstate, hlen, compactMatches]
    · simp [hstate, hlen]
  · simp [hstate]

theorem peer_removeMatches_eq {k : Fin n} (hlen : (t k).remoteMatches.length ≤ maxMatches) (id : Nat) :
    PeerSync.removeMatchesForNode t id k = if (t k).state ≠ .active then t k
      else compactMatches (fun m => decide (m.nodeId ≠ id)) (t k).remoteMatches.length (t k) := by
  simp only [PeerSync.removeMatchesForNode, Nat.min_eq_left hlen]

def Short (t : Table n) : Prop := ∀ k, (t k).remoteMatches.length ≤ maxMatches
  deriving Decidable

theorem short_lasting (nodes : List PeerNodeInfo) :
    Lasting nodes fun e => e.remoteMatches.length ≤ maxMatches where
  blank := by
    rintro e ⟨port, start, rfl⟩
    exact Nat.zero_le _
  pruned := fun _ _ _ hp h => hp.fewer.length_le.trans h
  filled := fun _ _ _ _ _ _ h => h

theorem Sim.removeMatches (h : Sim t u) (hshort : Short t) (id : Nat) :
    Sim (PeerSync.removeMatchesForNode t id) (removeMatchesForNode u id) := by
  intro k
  rw [daemon_removeMatches_eq, peer_removeMatches_eq (hshort k)]
  by_cases hk : isOccupied (t k) = true
  · have hb := h.blurred hk
    have hstate : (u k).state = (t k).state := h.field hk _ fun _ => rfl
    have hlen : (u k).remoteMatches.length = (t k).remoteMatches.length :=
      h.field hk (fun e => e.remoteMatches.length) fun _ => rfl
    rw [hstate]
    split_ifs
    · exact h k
    · refine sight_of_blur ?_
      rw [compactMatches_blur, compactMatches_blur, hb, hlen]
  · have hk' : isOccupied (t k) = false := by simpa using hk
    have hku : isOccupied (u k) = false := (h.occupied k).trans hk'
    have hempty : ∀ e : NodeTableEntry, isOccupied e = false → e.state ≠ .active := by
      intro e he hstate
      simp [isOccupied, hstate] at he
    rw [if_pos (hempty _ hku), if_pos (hempty _ hk')]
    exact h k

theorem Short.removeMatches (h : Short t) (id : Nat) : Short (PeerSync.removeMatchesForNode t id) :=
  fun k => (peer_removeMatches_pruned t id k).fewer.length_le.trans (h k)

theorem Sim.removes (h : Sim t u) (hshort : Short t) (ids : List Nat) :
    Sim (ids.foldl PeerSync.removeMatchesForNode t) (ids.foldl removeMatchesForNode u) := by
  induction ids generalizing t u with
  | nil => exact h
  | cons id ids ih => exact ih (h.removeMatches hshort id) (hshort.removeMatches id)

def NoneForeign (origin : Nat) (nodes : List PeerNodeInfo) (t : Table n) : Prop :=
  ∀ k, isOccupied (t k) = true →
    PeerSync.duplicateRemote origin (nodes.map PeerNodeInfo.nodeId) (t k) = false

instance (origin : Nat) (nodes : List PeerNodeInfo) (t : Table n) :
    Decidable (NoneForeign origin nodes t) :=
  inferInstanceAs (Decidable (∀ _ : Fin n, _ → _))

theorem clearObsolete_sim (hforeign : NoneForeign origin nodes t) :
    Sim (PeerSync.clearObsolete origin (nodes.map PeerNodeInfo.nodeId) t)
      (InlineMerge.clearObsolete origin (nodes.map PeerNodeInfo.nodeId) t) := by
  intro k
  simp only [PeerSync.clearObsolete, InlineMerge.clearObsolete]
  cases hk : isOccupied (t k) with
  | false => simp
  | true =>
    rw [hforeign k hk, Bool.or_false, Bool.true_and]
    split_ifs <;> rfl

theorem findSlot_eq_firstSlot (hn : n ≤ maxNodes) (t : Table n) (p : NodeTableEntry → Bool) :
    InlineMerge.findSlot t p = firstSlot t p := by
  have hlt : ∀ k : Fin n, k.val < min maxNodes n := fun k => by omega
  simp only [InlineMerge.findSlot, firstSlot, hlt, decide_true, Bool.true_and]

theorem Sim.firstSlot (h : Sim t u) {p : NodeTableEntry → Bool} (hp : ∀ e, p (sight e) = p e) :
    firstSlot u p = firstSlot t p := by
  have heq : ∀ k, p (u k) = p (t k) := fun k => by rw [← hp (u k), h k, hp]
  simp only [NodeTable.firstSlot, heq]

theorem named_sight (id : Nat) (e : NodeTableEntry) :
    (isOccupied (sight e) && decide ((sight e).nodeId = id)) = (isOccupied e && decide (e.nodeId = id)) := by
  unfold sight
  split_ifs with h
  · rfl
  · rw [Bool.not_eq_true] at h
    rw [h]
    rfl

theorem Sim.slots (hn : n ≤ maxNodes) (h : Sim t u) (id : Nat) :
    (InlineMerge.findSlot u fun e => isOccupied e && decide (e.nodeId = id)) = findSlotByNodeId t id ∧
      (InlineMerge.findSlot u fun e => !isOccupied e) = findFreeSlot t := by
  rw [findSlot_eq_firstSlot hn, findSlot_eq_firstSlot hn]
  exact ⟨h.firstSlot (named_sight id), h.firstSlot fun e => by rw [isOccupied_sight]⟩

theorem Sim.mergeNode_eq (hn : n ≤ maxNodes) (h : Sim t u) (origin now : Nat) (node : PeerNodeInfo) :
    InlineMerge.mergeNode origin now u node =
      ((findSlotByNodeId t node.nodeId).or (findFreeSlot t)).elim u fun idx =>
        InlineMerge.placeNode origin now node (findSlotByNodeId t node.nodeId) idx u := by
  obtain ⟨hexisting, hfree⟩ := h.slots hn node.nodeId
  simp only [InlineMerge.mergeNode, hexisting, hfree]
  cases (findSlotByNodeId t node.nodeId).or (findFreeSlot t) with
  | none | some => rfl

theorem Sim.update (h : Sim t u) {k : Fin n} {e e' : NodeTableEntry} (he : sight e' = sight e) :
    Sim (Function.update t k e) (Function.update u k e') := by
  intro j
  rw [update_apply, update_apply]
  split_ifs
  · exact he
  · exact h j

theorem Sim.placeNode (h : Sim t u) (hshort : Short t) {existing : Option (Fin n)} {idx : Fin n}
    (hfound : Found t node existing idx) :
    Sim (PeerSync.placeNode origin now node existing idx t)
      (InlineMerge.placeNode origin now' node existing idx u) := by
  have hsame : (existing.any fun k => !peerNodeEndpointsMatch (u k) node) =
      existing.any fun k => !peerNodeEndpointsMatch (t k) node := by
    rcases hfound with ⟨rfl, hocc, _⟩ | ⟨rfl, _⟩
    · simp only [Option.any_some]
      exact h.field hocc (fun e => !peerNodeEndpointsMatch e node) fun _ => rfl
    · rfl
  simp only [PeerSync.placeNode, InlineMerge.placeNode, hsame]
  have hremoved : Sim (if (existing.any fun k => !peerNodeEndpointsMatch (t k) node) = true then
        PeerSync.removeMatchesForNode t node.nodeId else t)
      (if (existing.any fun k => !peerNodeEndpointsMatch (t k) node) = true then
        removeMatchesForNode u node.nodeId else u) := by
    split_ifs
    · exact h.removeMatches hshort node.nodeId
    · exact h
  refine hremoved.update (sight_of_blur ?_)
  have hocc := (unlinked_pruned peer_removeMatches_pruned hfound idx).isOccupied
  rcases hfound with ⟨rfl, hidx, _⟩ | ⟨rfl, _⟩
  · exact congrArg (fillEntry origin 0 node) (hremoved.blurred (hocc.trans hidx))
  · rfl

end RmwAxon.MergeSim
