import RmwAxon.LocalSlots
import RmwAxon.MatchKeys
import RmwAxon.MergeSim

namespace RmwAxon.MergeAgree

open DomainSync LocalSlots MatchPass MergeRounds MergeSim NodeTable Function List Option
open PeerSync (PeerNodeInfo fillEntry mergeNodes peerNodeEndpointsMatch placeNode)
open InlineMerge (mergeNode)

variable {n : Nat} {table t t' u v w : Table n} {origin now now' : Nat} {node : PeerNodeInfo}
  {nodes post : List PeerNodeInfo}

def identity (e : NodeTableEntry) : NodeTableEntry :=
  { e with
    state := .active, pid := 0, procStarttime := 0, responseGen := 0, lastSeenSecs := 0,
    remoteMatches := [] }

def Observed (t : Table n) (o : NodeTableEntry) (ms : List MatchEntry) : Prop :=
  ∃ k, isOccupied (t k) = true ∧ identity (t k) = o ∧ (t k).remoteMatches = ms

def SameObserved (t u : Table n) : Prop := ∀ o ms, Observed t o ms ↔ Observed u o ms

def announced (origin : Nat) (node : PeerNodeInfo) : NodeTableEntry :=
  identity (fillEntry origin 0 node zeroEntry)

def Listed (origin : Nat) (t : Table n) (node : PeerNodeInfo) : Prop :=
  ∀ k, isOccupied (t k) = true → (t k).nodeId = node.nodeId → identity (t k) = announced origin node

def newcomers (t : Table n) (nodes : List PeerNodeInfo) : List PeerNodeInfo :=
  nodes.filter fun m => (findSlotByNodeId t m.nodeId).isNone

def reached (t : Table n) : Nat → List PeerNodeInfo → List PeerNodeInfo
  | _, [] => []
  | room, node :: rest =>
    if room < (newcomers t [node]).length then []
    else node :: reached t (room - (newcomers t [node]).length) rest

def Harmless (origin : Nat) (nodes : List PeerNodeInfo) (t table : Table n) : Prop :=
  ∀ m ∈ nodes, m ∉ reached t (free t).card nodes → Listed origin table m

theorem isNone_findSlotByNodeId {id : Nat} :
    (findSlotByNodeId t id).isNone = true ↔ ∀ k, isOccupied (t k) = true → (t k).nodeId ≠ id := by
  rw [isNone_iff_eq_none, findSlotByNodeId, firstSlot, find?_eq_none]
  simp

theorem reached_congr {room : Nat} (h : ∀ m ∈ nodes, newcomers t' [m] = newcomers t [m]) :
    reached t' room nodes = reached t room nodes := by
  induction nodes generalizing room with
  | nil => rfl
  | cons node rest ih =>
    simp only [reached, h node mem_cons_self, ih fun m hm => h m (mem_cons_of_mem node hm)]

theorem newcomers_cons (t : Table n) (node : PeerNodeInfo) (rest : List PeerNodeInfo) :
    newcomers t (node :: rest) = newcomers t [node] ++ newcomers t rest := by
  rw [newcomers, ← singleton_append, filter_append]
  rfl

theorem reached_prefix_of (t : Table n) (room : Nat) (nodes : List PeerNodeInfo) :
    reached t room nodes <+: nodes := by
  induction nodes generalizing room with
  | nil => exact nil_prefix
  | cons node rest ih =>
    rw [reached]
    split_ifs
    · exact nil_prefix
    · exact (prefix_cons_inj node).mpr (ih _)

theorem newcomers_reached (t : Table n) (room : Nat) (nodes : List PeerNodeInfo) :
    newcomers t (reached t room nodes) = (newcomers t nodes).take room := by
  induction nodes generalizing room with
  | nil => simp [reached, newcomers]
  | cons node rest ih =>
    have hone : (newcomers t [node]).length ≤ 1 := length_filter_le _ _
    rw [newcomers_cons, reached]
    split_ifs with hroom
    · rw [show room = 0 by omega, take_zero]
      rfl
    · have htake : (newcomers t [node]).take room = newcomers t [node] :=
        take_of_length_le (by omega)
      rw [newcomers_cons, ih, take_append, htake]

theorem reached_sameNodes (h : SameNodes t t') (nodes : List PeerNodeInfo) :
    reached t' (free t').card nodes = reached t (free t).card nodes := by
  have hocc : ∀ k, isOccupied (t' k) = isOccupied (t k) := fun k => by
    rw [isOccupied, isOccupied, (h k).state]
  have hfree : free t' = free t := by simp only [free, hocc]
  have hnew : ∀ m ∈ nodes, newcomers t' [m] = newcomers t [m] := by
    refine fun m _ => filter_congr fun v _ => ?_
    rw [Bool.eq_iff_iff, isNone_findSlotByNodeId, isNone_findSlotByNodeId]
    exact forall_congr' fun k => by rw [hocc k, (h k).nodeId]
  rw [reached_congr hnew, hfree]

theorem reached_full (hfull : Full t) (hnew : findSlotByNodeId t node.nodeId = none)
    (rest : List PeerNodeInfo) : reached t (free t).card (node :: rest) = [] := by
  rw [free_eq_empty hfull, Finset.card_empty, reached, if_pos (by simp [newcomers, hnew])]

section Placed

variable {idx : Fin n} (hp : Placed origin now node idx t t')
include hp

theorem placed_identity : isOccupied (t' idx) = true ∧ identity (t' idx) = announced origin node ∧
    (t' idx).nodeId = node.nodeId := by
  obtain ⟨r, e, start, _, rfl, _⟩ := hp
  rw [update_self]
  exact ⟨rfl, rfl, rfl⟩

theorem placed_slot (k : Fin n) (hk : k ≠ idx) : SameNode (t k) (t' k) := by
  obtain ⟨r, e, start, hr, rfl, _⟩ := hp
  rw [update_of_ne hk]
  exact (hr k).same

theorem placed_other {x : Nat} (hx : x ≠ node.nodeId) (k : Fin n) :
    (isOccupied (t' k) = true ∧ (t' k).nodeId = x ↔ isOccupied (t k) = true ∧ (t k).nodeId = x) ∧
      (isOccupied (t k) = true → (t k).nodeId = x → identity (t' k) = identity (t k)) := by
  by_cases hk : k = idx
  · subst hk
    have hid := (placed_identity hp).2.2
    refine ⟨⟨fun h => absurd (h.2.symm.trans hid) hx, fun h => ?_⟩, fun hocc hidx => ?_⟩
    · exact absurd rfl (hp.other h.1 (h.2.trans_ne hx)).1
    · exact absurd rfl (hp.other hocc (hidx.trans_ne hx)).1
  · have hsame := placed_slot hp k hk
    rw [isOccupied, hsame.state, hsame.nodeId]
    exact ⟨Iff.rfl, fun _ _ => hsame.field identity fun _ => rfl⟩

theorem placed_newcomers (hnodes : node.nodeId ∉ nodes.map PeerNodeInfo.nodeId) :
    newcomers t' nodes = newcomers t nodes := by
  refine filter_congr fun m hm => ?_
  have hne : m.nodeId ≠ node.nodeId := fun heq => hnodes (heq ▸ mem_map_of_mem hm)
  rw [Bool.eq_iff_iff, isNone_findSlotByNodeId, isNone_findSlotByNodeId]
  refine forall_congr' fun k => ?_
  have hiff := (placed_other hp hne k).1
  constructor
  · exact fun h hocc hid => h (hiff.mpr ⟨hocc, hid⟩).1 (hiff.mpr ⟨hocc, hid⟩).2
  · exact fun h hocc hid => h (hiff.mp ⟨hocc, hid⟩).1 (hiff.mp ⟨hocc, hid⟩).2

theorem placed_listed {m : PeerNodeInfo} (hne : m.nodeId ≠ node.nodeId) :
    Listed origin t' m ↔ Listed origin t m := by
  refine forall_congr' fun k => ?_
  obtain ⟨hiff, hsame⟩ := placed_other hp hne k
  constructor
  · exact fun h hocc hid => (hsame hocc hid).symm.trans (h (hiff.mpr ⟨hocc, hid⟩).1 (hiff.mpr ⟨hocc, hid⟩).2)
  · intro h hocc hid
    obtain ⟨hocc', hid'⟩ := hiff.mp ⟨hocc, hid⟩
    exact (hsame hocc' hid').trans (h hocc' hid')

theorem placed_free (hn : n ≤ maxNodes) : (free t).card = (free t').card + (newcomers t [node]).length := by
  have hidx := (placed_identity hp).1
  have hrest : ∀ k, k ≠ idx → isOccupied (t' k) = isOccupied (t k) := fun k hk => by
    rw [isOccupied, isOccupied, (placed_slot hp k hk).state]
  obtain ⟨_, _, _, _, _, hslot⟩ := hp
  rcases hslot with ⟨hocc, hid, _⟩ | ⟨hempty, _, hnew⟩
  · have hknown : (findSlotByNodeId t node.nodeId).isNone = false := by
      rw [Bool.eq_false_iff]
      exact fun h => isNone_findSlotByNodeId.mp h idx hocc hid
    have hfree : free t' = free t := by
      refine Finset.filter_congr fun k _ => ?_
      by_cases hk : k = idx
      · rw [hk, hidx, hocc]
      · rw [hrest k hk]
    simp [newcomers, hknown, hfree]
  · have hunknown : (findSlotByNodeId t node.nodeId).isNone = true :=
      isNone_findSlotByNodeId.mpr fun k => hnew k (Nat.lt_of_lt_of_le k.isLt hn)
    have hfree : free t = insert idx (free t') := by
      ext k
      by_cases hk : k = idx
      · simp [free, hk, hempty, Nat.lt_of_lt_of_le idx.isLt hn]
      · simp [free, hk, hrest k hk]
    have hnot : idx ∉ free t' := by simp [free, hidx]
    rw [hfree, Finset.card_insert_of_notMem hnot]
    simp [newcomers, hunknown]

theorem placed_reached (hn : n ≤ maxNodes) (hnodes : node.nodeId ∉ nodes.map PeerNodeInfo.nodeId) :
    reached t (free t).card (node :: nodes) = node :: reached t' (free t').card nodes := by
  have hfree := placed_free hp hn
  have hsame : ∀ m ∈ nodes, newcomers t' [m] = newcomers t [m] := by
    intro m hm
    refine placed_newcomers hp fun hmem => hnodes ?_
    rw [map_singleton, mem_singleton] at hmem
    exact hmem ▸ mem_map_of_mem hm
  rw [reached, if_neg (by omega), reached_congr hsame, hfree, Nat.add_sub_cancel]

theorem placed_harmless (hn : n ≤ maxNodes) (hids : ((node :: nodes).map PeerNodeInfo.nodeId).Nodup) :
    Harmless origin (node :: nodes) t t → Harmless origin nodes t' t' := by
  rw [map_cons, nodup_cons] at hids
  intro h m hm hlate
  have hne : m.nodeId ≠ node.nodeId := fun heq => hids.1 (heq ▸ mem_map_of_mem hm)
  refine (placed_listed hp hne).mpr (h m (mem_cons_of_mem node hm) ?_)
  rw [placed_reached hp hn hids.1, mem_cons, not_or]
  exact ⟨fun heq => hne (heq ▸ rfl), hlate⟩

end Placed

def SameSlots (t u : Table n) : Prop :=
  ∀ k, isOccupied (u k) = isOccupied (t k) ∧ (isOccupied (t k) = true →
    identity (u k) = identity (t k) ∧ (u k).remoteMatches = (t k).remoteMatches)

theorem SameSlots.refl (t : Table n) : SameSlots t t := fun _ => ⟨rfl, fun _ => ⟨rfl, rfl⟩⟩

theorem SameSlots.trans (h : SameSlots t u) (h' : SameSlots u v) : SameSlots t v := by
  intro k
  refine ⟨(h' k).1.trans (h k).1, fun hk => ?_⟩
  obtain ⟨hid, hms⟩ := (h k).2 hk
  obtain ⟨hid', hms'⟩ := (h' k).2 ((h k).1.trans hk)
  exact ⟨hid'.trans hid, hms'.trans hms⟩

theorem SameSlots.symm (h : SameSlots t u) : SameSlots u t := by
  intro k
  refine ⟨(h k).1.symm, fun hk => ?_⟩
  obtain ⟨hid, hms⟩ := (h k).2 ((h k).1.symm.trans hk)
  exact ⟨hid.symm, hms.symm⟩

theorem sameSlots_of_sim (h : Sim t u) : SameSlots t u :=
  fun k => ⟨h.occupied k, fun hk => ⟨h.field hk identity fun _ => rfl,
    h.field hk NodeTableEntry.remoteMatches fun _ => rfl⟩⟩

section

variable (h : SameSlots t u)
include h

theorem SameSlots.observed {o : NodeTableEntry} {ms : List MatchEntry}
    (ho : Observed t o ms) : Observed u o ms := by
  obtain ⟨k, hocc, hid, hms⟩ := ho
  obtain ⟨hid', hms'⟩ := (h k).2 hocc
  exact ⟨k, (h k).1.trans hocc, hid'.trans hid, hms'.trans hms⟩

theorem SameSlots.nodeId {k : Fin n} (hk : isOccupied (t k) = true) : (u k).nodeId = (t k).nodeId := by
  show (identity (u k)).nodeId = (identity (t k)).nodeId
  rw [((h k).2 hk).1]

theorem SameSlots.listed {m : PeerNodeInfo} (hm : Listed origin t m) : Listed origin u m := by
  intro k hocc hid
  have hk : isOccupied (t k) = true := (h k).1.symm.trans hocc
  rw [((h k).2 hk).1]
  exact hm k hk ((h.nodeId hk).symm.trans hid)

theorem SameSlots.full (hfull : Full t) : Full u :=
  fun k hk => (h k).1.trans (hfull k hk)

end

theorem mergeNode_listed (hn : n ≤ maxNodes) (hfull : Full v) (hlisted : Listed origin v node) :
    SameSlots v (mergeNode origin now v node) := by
  rcases mergeNode_cases origin now v node with ⟨_, heq⟩ | ⟨existing, idx, hfound, heq⟩
  · rw [heq]
    exact .refl v
  rcases hfound with ⟨rfl, hocc, hid⟩ | ⟨_, hempty, _⟩
  · have hsame := hlisted idx hocc hid
    have hmatch : peerNodeEndpointsMatch (v idx) node = true := by
      show peerNodeEndpointsMatch (identity (v idx)) node = true
      rw [hsame]
      exact peerNodeEndpointsMatch_fillEntry origin 0 node zeroEntry 0
    have hplaced : mergeNode origin now v node = update v idx (fillEntry origin now node (v idx)) := by
      rw [heq]
      simp [InlineMerge.placeNode, hmatch]
    rw [hplaced]
    intro k
    rw [update_apply]
    split_ifs with hk
    · subst hk
      exact ⟨hocc.symm, fun _ => ⟨hsame.symm, rfl⟩⟩
    · exact ⟨rfl, fun _ => ⟨rfl, rfl⟩⟩
  · rw [hfull idx (Nat.lt_of_lt_of_le idx.isLt hn)] at hempty
    cases hempty

theorem tail_listed (hn : n ≤ maxNodes) (hfull : Full v) (hlisted : ∀ m ∈ post, Listed origin v m) :
    SameSlots v (post.foldl (mergeNode origin now) v) := by
  induction post generalizing v with
  | nil => exact .refl v
  | cons node post ih =>
    have hsame : SameSlots v (mergeNode origin now v node) :=
      mergeNode_listed hn hfull (hlisted node mem_cons_self)
    exact hsame.trans (ih (hsame.full hfull) fun m hm => hsame.listed (hlisted m (mem_cons_of_mem node hm)))

/-- The two merges keep step until the table is full and a newcomer comes. The
one stops there, the other goes on with nodes that are listed as they stand. -/
theorem sameSlots_of_harmless (hn : n ≤ maxNodes) (hsim : Sim t u) (hshort : Short t)
    (hids : (nodes.map PeerNodeInfo.nodeId).Nodup) (h : Harmless origin nodes t t) :
    SameSlots (mergeNodes origin now nodes t) (nodes.foldl (mergeNode origin now') u) := by
  induction nodes generalizing t u with
  | nil => exact sameSlots_of_sim hsim
  | cons node rest ih =>
    rw [foldl_cons, hsim.mergeNode_eq hn]
    rcases mergeNodes_cases origin now node rest t with
      ⟨hnone, hfull, hpush⟩ | ⟨idx, hsome, hfound, hpush⟩
    · have hsame := sameSlots_of_sim hsim
      rw [hpush, hnone, elim_none]
      refine hsame.trans (tail_listed hn (hsame.full hfull) fun m hm => hsame.listed ?_)
      refine h m (mem_cons_of_mem node hm) ?_
      rw [reached_full hfull (or_eq_none_iff.mp hnone).1]
      exact not_mem_nil
    · have hplaced : Placed origin now node idx t (placeNode origin now node
          (findSlotByNodeId t node.nodeId) idx t) := peer_placeNode_placed hfound
      rw [hpush, hsome, elim_some]
      exact ih (hsim.placeNode hshort hfound) (hplaced.lasting (short_lasting [node]) mem_cons_self hshort)
        (nodup_cons.mp hids).2 (placed_harmless hplaced hn hids h)

end RmwAxon.MergeAgree
