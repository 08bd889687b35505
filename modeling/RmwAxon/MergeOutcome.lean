import RmwAxon.MergePlayed

namespace RmwAxon.MergeOutcome

open DomainSync MatchKeys MatchPass MergeAgree MergePlayed MergeRounds NodeTable List Option
open PeerSync (PeerNodeInfo peerNodeEndpointsMatch)

variable {n : Nat} {t t' : Table n} {origin : Nat} {node : PeerNodeInfo}
  {nodes rest : List PeerNodeInfo}

/-- Whether a slot with the number x loses a match while a list is merged. A
slot that is listed becomes active. -/
def loses (moved : PeerNodeInfo → Bool) (x : Nat) (m : MatchEntry) :
    Bool → List PeerNodeInfo → Bool
  | _, [] => false
  | active, node :: rest =>
    active && (moved node && decide (m.nodeId = node.nodeId)) ||
      loses moved x m (active || decide (node.nodeId = x)) rest

def shown (origin : Nat) (nodes : List PeerNodeInfo) (e : NodeTableEntry) : NodeTableEntry :=
  (nodes.find? fun m => decide (m.nodeId = e.nodeId)).elim (identity e) (announced origin)

def left (moved : PeerNodeInfo → Bool) (nodes : List PeerNodeInfo) (e : NodeTableEntry) :
    List MatchEntry :=
  e.remoteMatches.filter fun m => !loses moved e.nodeId m (decide (e.state = .active)) nodes

/-- What is observed after the merge: the slots that were there before and the
newcomers for which there was room. -/
def Result (origin : Nat) (nodes : List PeerNodeInfo) (t : Table n) (o : NodeTableEntry)
    (ms : List MatchEntry) : Prop :=
  (∃ k, isOccupied (t k) = true ∧ shown origin nodes (t k) = o ∧ left (moved t) nodes (t k) = ms) ∨
    ∃ m ∈ (newcomers t nodes).take (free t).card, announced origin m = o ∧ [] = ms

theorem loses_congr {moved moved' : PeerNodeInfo → Bool} {x : Nat} {m : MatchEntry} {active : Bool}
    (h : ∀ node ∈ nodes, m.nodeId = node.nodeId → moved' node = moved node) :
    loses moved' x m active nodes = loses moved x m active nodes := by
  induction nodes generalizing active with
  | nil => rfl
  | cons node rest ih =>
    rw [loses, loses, ih fun v hv => h v (mem_cons_of_mem node hv)]
    by_cases hid : m.nodeId = node.nodeId
    · rw [h node mem_cons_self hid]
    · simp [hid]

theorem loses_append {moved : PeerNodeInfo → Bool} {x : Nat} {m : MatchEntry} {active : Bool}
    (h : ∀ node ∈ rest, m.nodeId = node.nodeId → moved node = false) :
    loses moved x m active (nodes ++ rest) = loses moved x m active nodes := by
  induction nodes generalizing active with
  | nil =>
    rw [nil_append, loses]
    induction rest generalizing active with
    | nil => rfl
    | cons node rest ih =>
      rw [loses, ih fun v hv => h v (mem_cons_of_mem node hv)]
      by_cases hid : m.nodeId = node.nodeId
      · simp [h node mem_cons_self hid]
      · simp [hid]
  | cons node nodes ih => rw [cons_append, loses, loses, ih]

theorem shown_nodeId (origin : Nat) (nodes : List PeerNodeInfo) (e : NodeTableEntry) :
    (shown origin nodes e).nodeId = e.nodeId := by
  rw [shown]
  cases hfind : nodes.find? fun m => decide (m.nodeId = e.nodeId) with
  | none => rfl
  | some m =>
    have hm := find?_some hfind
    exact of_decide_eq_true hm

variable {e : NodeTableEntry}

theorem shown_of_listed (hids : (nodes.map PeerNodeInfo.nodeId).Nodup) (hnode : node ∈ nodes)
    (h : e.nodeId = node.nodeId) :
    shown origin nodes e = announced origin node := by
  have hfind : nodes.find? (fun m => decide (m.nodeId = e.nodeId)) = some node := by
    cases hfind : nodes.find? fun m => decide (m.nodeId = e.nodeId) with
    | none => exact absurd (decide_eq_true h.symm) (find?_eq_none.mp hfind node hnode)
    | some m =>
      have hm : m.nodeId = e.nodeId := by simpa using find?_some hfind
      rw [inj_on_of_nodup_map hids (mem_of_find?_eq_some hfind) hnode (hm.trans h)]
  rw [shown, hfind, elim_some]

theorem shown_cons_of_ne (h : node.nodeId ≠ e.nodeId) :
    shown origin (node :: rest) e = shown origin rest e := by
  simp [shown, h]

theorem shown_of_unlisted (h : e.nodeId ∉ nodes.map PeerNodeInfo.nodeId) :
    shown origin nodes e = identity e := by
  have hnone : nodes.find? (fun m => decide (m.nodeId = e.nodeId)) = none := by
    rw [find?_eq_none]
    exact fun m hm heq => h (of_decide_eq_true heq ▸ List.mem_map_of_mem hm)
  rw [shown, hnone, elim_none]

section Put

variable {idx : Fin n} (hp : Put origin node idx t t')
include hp

theorem put_slot : isOccupied (t' idx) = true ∧ (t' idx).state = .active ∧
    identity (t' idx) = announced origin node ∧ (t' idx).nodeId = node.nodeId := by
  obtain ⟨now, hplaced⟩ := hp.placed
  obtain ⟨hocc, hsame, hid⟩ := placed_identity hplaced
  obtain ⟨r, e, start, _, rfl, _⟩ := hplaced
  exact ⟨hocc, by rw [Function.update_self]; rfl, hsame, hid⟩

theorem put_other {k : Fin n} (hk : k ≠ idx) : SameNode (t k) (t' k) := by
  obtain ⟨now, hplaced⟩ := hp.placed
  exact placed_slot hplaced k hk

variable (hn : n ≤ maxNodes) (hd : DistinctIds t)
include hn hd

theorem put_number {k : Fin n} (hocc : isOccupied (t k) = true) : (t k).nodeId = node.nodeId ↔ k = idx := by
  obtain ⟨now, r, e, start, _, _, hslot⟩ := hp.placed
  rcases hslot with ⟨hidx, hid, _⟩ | ⟨hempty, _, hnew⟩
  · exact ⟨fun heq => hd k idx hocc hidx (heq.trans hid.symm), fun heq => heq ▸ hid⟩
  refine ⟨fun heq => absurd heq (hnew k (Nat.lt_of_lt_of_le k.isLt hn) hocc), ?_⟩
  rintro rfl
  rw [hocc] at hempty
  cases hempty

theorem put_moved {m : PeerNodeInfo} (hm : m.nodeId ≠ node.nodeId) : moved t' m = moved t m := by
  obtain ⟨now, hplaced⟩ := hp.placed
  rw [Bool.eq_iff_iff, moved_iff (hd.placed hn hplaced), moved_iff hd]
  refine exists_congr fun k => ?_
  obtain ⟨hiff, hsame⟩ := placed_other hplaced hm k
  have hmatch : isOccupied (t k) = true → (t k).nodeId = m.nodeId →
      peerNodeEndpointsMatch (t' k) m = peerNodeEndpointsMatch (t k) m := by
    intro hocc hid
    show peerNodeEndpointsMatch (identity (t' k)) m = peerNodeEndpointsMatch (identity (t k)) m
    rw [hsame hocc hid]
  constructor
  · rintro ⟨hocc, hid, hdiff⟩
    obtain ⟨hocc', hid'⟩ := hiff.mp ⟨hocc, hid⟩
    exact ⟨hocc', hid', (hmatch hocc' hid').symm.trans hdiff⟩
  · rintro ⟨hocc, hid, hdiff⟩
    obtain ⟨hocc', hid'⟩ := hiff.mpr ⟨hocc, hid⟩
    exact ⟨hocc', hid', (hmatch hocc hid).trans hdiff⟩

variable (hrest : node.nodeId ∉ rest.map PeerNodeInfo.nodeId)
include hrest

theorem put_slot_result {k : Fin n} (hocc : isOccupied (t k) = true) :
    isOccupied (t' k) = true ∧ shown origin rest (t' k) = shown origin (node :: rest) (t k) ∧
      left (moved t') rest (t' k) = left (moved t) (node :: rest) (t k) := by
  have hloses : ∀ x m active, loses (moved t') x m active rest =
      loses (moved t) x m active rest := fun x m active => loses_congr fun v hv _ =>
    put_moved hp hn hd fun heq => hrest (heq ▸ List.mem_map_of_mem hv)
  simp only [left, hp.kept k hocc, without, List.filter_filter, hloses, loses]
  by_cases hk : k = idx
  · have hid := (put_number hp hn hd hocc).mpr hk
    subst hk
    obtain ⟨hocc', hstate, hident, hid'⟩ := put_slot hp
    refine ⟨hocc', ?_, filter_congr fun m _ => ?_⟩
    · rw [shown_of_unlisted (hid' ▸ hrest), hident]
      simp [shown, hid]
    · simp [hstate, hid', hid, Bool.and_comm]
  · have hsame := put_other hp hk
    have hne : node.nodeId ≠ (t k).nodeId := fun heq => hk ((put_number hp hn hd hocc).mp heq.symm)
    refine ⟨?_, ?_, filter_congr fun m _ => ?_⟩
    · rw [isOccupied, hsame.state]
      exact hocc
    · rw [shown_cons_of_ne hne]
      exact hsame.field (shown origin rest) fun _ => rfl
    · simp [hsame.state, hsame.nodeId, hne, Bool.and_comm]

theorem put_result (o : NodeTableEntry) (ms : List MatchEntry) :
    Result origin rest t' o ms ↔ Result origin (node :: rest) t o ms := by
  obtain ⟨now, hplaced⟩ := hp.placed
  have hslot : ∀ k, isOccupied (t k) = true → isOccupied (t' k) = true ∧
      shown origin rest (t' k) = shown origin (node :: rest) (t k) ∧
      left (moved t') rest (t' k) = left (moved t) (node :: rest) (t k) :=
    fun k => put_slot_result hp hn hd hrest
  have hback : ∀ k, k ≠ idx → isOccupied (t' k) = true → isOccupied (t k) = true := by
    intro k hk hocc
    rwa [isOccupied, ← (put_other hp hk).state]
  rw [Result, Result, placed_newcomers hplaced hrest, newcomers_cons, placed_free hplaced hn]
  cases hidx : isOccupied (t idx) with
  | true =>
    have hid := (put_number hp hn hd hidx).mpr rfl
    have hnone : newcomers t [node] = [] := filter_eq_nil_iff.mpr fun m hm hnew =>
      isNone_findSlotByNodeId.mp hnew idx hidx (mem_singleton.mp hm ▸ hid)
    rw [hnone, nil_append, length_nil, Nat.add_zero]
    refine or_congr_left (exists_congr fun k => ⟨?_, ?_⟩)
    · rintro ⟨hk, ho, hms⟩
      have hocc : isOccupied (t k) = true := by
        by_cases hki : k = idx
        · exact hki ▸ hidx
        · exact hback k hki hk
      obtain ⟨_, hshown, hleft⟩ := hslot k hocc
      exact ⟨hocc, hshown.symm.trans ho, hleft.symm.trans hms⟩
    · rintro ⟨hk, ho, hms⟩
      obtain ⟨hocc, hshown, hleft⟩ := hslot k hk
      exact ⟨hocc, hshown.trans ho, hleft.trans hms⟩
  | false =>
    have hone : newcomers t [node] = [node] := by
      refine filter_eq_self.mpr fun m hm => isNone_findSlotByNodeId.mpr fun k hk heq => ?_
      rw [(put_number hp hn hd hk).mp (heq.trans (mem_singleton.mp hm ▸ rfl)), hidx] at hk
      cases hk
    obtain ⟨hocc, _, hident, hid⟩ := put_slot hp
    have hshown : shown origin rest (t' idx) = announced origin node := by
      rw [shown_of_unlisted (hid ▸ hrest), hident]
    have hleft : left (moved t') rest (t' idx) = [] := by
      rw [left, hp.fresh hidx, filter_nil]
    rw [hone, length_singleton, singleton_append, take_succ_cons]
    constructor
    · rintro (⟨k, hk, ho, hms⟩ | ⟨m, hm, hpair⟩)
      · by_cases hki : k = idx
        · subst hki
          exact .inr ⟨node, mem_cons_self, hshown.symm.trans ho, hleft.symm.trans hms⟩
        · obtain ⟨_, hshown', hleft'⟩ := hslot k (hback k hki hk)
          exact .inl ⟨k, hback k hki hk, hshown'.symm.trans ho, hleft'.symm.trans hms⟩
      · exact .inr ⟨m, mem_cons_of_mem node hm, hpair⟩
    · rintro (⟨k, hk, ho, hms⟩ | ⟨m, hm, ho, hms⟩)
      · obtain ⟨hk', hshown', hleft'⟩ := hslot k hk
        exact .inl ⟨k, hk', hshown'.trans ho, hleft'.trans hms⟩
      · rcases mem_cons.mp hm with rfl | hm
        · exact .inl ⟨idx, hocc, hshown.trans ho, hleft.trans hms⟩
        · exact .inr ⟨m, hm, ho, hms⟩

end Put

theorem passed_result (hfull : Full t) (hnew : findSlotByNodeId t node.nodeId = none)
    (o : NodeTableEntry) (ms : List MatchEntry) :
    Result origin rest t o ms ↔ Result origin (node :: rest) t o ms := by
  have hmoved : moved t node = false := by rw [moved, hnew, any_none]
  have hne : ∀ k, isOccupied (t k) = true → node.nodeId ≠ (t k).nodeId := fun k hk heq =>
    isNone_findSlotByNodeId.mp (by rw [hnew]; rfl) k hk heq.symm
  rw [Result, Result, free_eq_empty hfull, Finset.card_empty, take_zero, take_zero]
  refine or_congr_left (exists_congr fun k => and_congr_right fun hk => ?_)
  rw [shown_cons_of_ne (hne k hk)]
  simp only [left, loses, hmoved, hne k hk, decide_false, Bool.false_and, Bool.and_false,
    Bool.false_or, Bool.or_false]

theorem played_observed (hn : n ≤ maxNodes) (h : Played origin nodes t t') (hd : DistinctIds t)
    (hids : (nodes.map PeerNodeInfo.nodeId).Nodup) (o : NodeTableEntry) (ms : List MatchEntry) :
    Observed t' o ms ↔ Result origin nodes t o ms := by
  induction h with
  | nil t => simp [Observed, Result, newcomers, shown, left, loses]
  | put idx hp _ ih =>
    rw [map_cons, nodup_cons] at hids
    obtain ⟨now, hplaced⟩ := hp.placed
    rw [ih (hd.placed hn hplaced) hids.2, put_result hp hn hd hids.1]
  | passed hfull hnew _ ih => rw [ih hd (nodup_cons.mp hids).2, passed_result hfull hnew]

end RmwAxon.MergeOutcome
