import RmwAxon.DaemonRun

namespace RmwAxon.TopologyFlag

open Loops Matching MatchPass NodeTable Function List Option

variable {n : Nat} {table table' : Table n}

def grown (before after : Table n) (k : Fin n) : Bool :=
  decide ((before k).remoteMatches.length < (after k).remoteMatches.length)

/-- The flag topology_changed goes through the loops beside the table. -/
def matchPairFlagged (i : Fin n) (acc : Table n × Bool) (j : Fin n) : Option (Table n × Bool) :=
  (matchPair i acc.1 j).map fun table => (table, acc.2 || (grown acc.1 table j || grown acc.1 table i))

def matchPublisherFlagged (acc : Table n × Bool) (i : Fin n) : Option (Table n × Bool) :=
  if (acc.1 i).state ≠ .active ∨ (acc.1 i).publishedTopics = [] then some acc
  else (List.finRange n).foldlM (matchPairFlagged i) acc

def matchTopicsFlagged (acc : Table n × Bool) : Option (Table n × Bool) :=
  (List.finRange n).foldlM matchPublisherFlagged acc

def drops (table : Table n) (e : NodeTableEntry) : Bool :=
  let count := e.remoteMatches.length
  decide (e.state = .active) &&
    decide ((sweep (fun m => (activeNodeIds table).contains m.nodeId) e.remoteMatches
      (min count maxMatches)).1 < count)

def processTopicUpdatesFlagged (acc : Table n × Bool) : Option (Table n × Bool) :=
  (matchTopicsFlagged acc).map fun acc =>
    (dropInactive acc.1, acc.2 || (List.finRange n).any fun k => drops acc.1 (acc.1 k))

section Tables

theorem foldlM_fst {α σ : Type} {f : σ → α → Option σ} {g : σ × Bool → α → Option (σ × Bool)}
    (h : ∀ acc a, (g acc a).map Prod.fst = f acc.1 a) (as : List α) (acc : σ × Bool) :
    (as.foldlM g acc).map Prod.fst = as.foldlM f acc.1 := by
  induction as generalizing acc with
  | nil => rfl
  | cons a as ih =>
    rw [foldlM_cons, foldlM_cons, ← h acc a]
    cases g acc a with
    | none => rfl
    | some u => exact ih u

theorem matchPublisherFlagged_fst (acc : Table n × Bool) (i : Fin n) :
    (matchPublisherFlagged acc i).map Prod.fst = matchPublisher acc.1 i := by
  simp only [matchPublisherFlagged, matchPublisher]
  split_ifs
  · rfl
  · refine foldlM_fst (fun acc j => ?_) _ acc
    rw [matchPairFlagged, Option.map_map]
    exact Option.map_id'

theorem processTopicUpdatesFlagged_fst (acc : Table n × Bool) :
    (processTopicUpdatesFlagged acc).map Prod.fst = processTopicUpdates acc.1 := by
  have hmatch : (matchTopicsFlagged acc).map Prod.fst = matchTopics acc.1 :=
    foldlM_fst matchPublisherFlagged_fst _ acc
  rw [processTopicUpdates, ← hmatch, processTopicUpdatesFlagged, Option.map_map, Option.map_map]
  rfl

end Tables

def additions (table : Table n) (x z : Fin n) (hash : Nat) : List MatchEntry :=
  fresh (table x).remoteMatches (table z).nodeId hash (table z).quicPort (table z).quicAddrs

def adds (table : Table n) (i j : Fin n) (p : TopicEntry) : Bool :=
  offered p (table j).subscribedTopics &&
    !((additions table j i p.hash).isEmpty && (additions table i j p.hash).isEmpty)

def pairAdds (table : Table n) (i j : Fin n) : Bool :=
  !decide (i = j ∨ (table j).state ≠ .active ∨ (table j).domainId ≠ (table i).domainId ∨
    (table j).subscribedTopics = []) && (table i).publishedTopics.any (adds table i j)

def publisherAdds (table : Table n) (i : Fin n) : Bool :=
  !decide ((table i).state ≠ .active ∨ (table i).publishedTopics = []) &&
    (List.finRange n).any (pairAdds table i)

theorem enlargeFor_eq (table : Table n) (x z : Fin n) (hash : Nat) :
    enlargeFor table z hash (table x).remoteMatches =
      (table x).remoteMatches ++ additions table x z hash := rfl

theorem offerTopic_adds {i j : Fin n} (hij : i ≠ j) {p : TopicEntry}
    (h : offerTopic i j table p = some table') :
    (∀ x, (table x).remoteMatches.length ≤ (table' x).remoteMatches.length) ∧
      (adds table i j p = false → table' = table) ∧
      (adds table i j p = true → grown table table' j = true ∨ grown table table' i = true) := by
  rcases offerTopic_eq hij (SameNodes.refl table) h with ⟨hoff, rfl⟩ | ⟨hoff, rfl⟩
  · simp [adds, hoff]
  have hj : (setMatches (table j) (enlargeFor table i p.hash (table j).remoteMatches)).remoteMatches =
      (table j).remoteMatches ++ additions table j i p.hash := rfl
  have hi : (setMatches (table i) (enlargeFor table j p.hash (table i).remoteMatches)).remoteMatches =
      (table i).remoteMatches ++ additions table i j p.hash := rfl
  refine ⟨fun x => ?_, fun hnone => ?_, fun hsome => ?_⟩
  · simp only [update_apply]
    split_ifs with hxi hxj
    · rw [hi, hxi]
      simp
    · rw [hj, hxj]
      simp
    · exact Nat.le_refl _
  · simp only [adds, hoff, Bool.true_and, Bool.not_eq_false', Bool.and_eq_true, List.isEmpty_iff] at hnone
    rw [enlargeFor_eq, enlargeFor_eq, hnone.1, hnone.2, append_nil, append_nil]
    have hself : ∀ k, setMatches (table k) (table k).remoteMatches = table k := fun k => rfl
    rw [hself, hself, update_eq_self, update_eq_self]
  · simp only [adds, hoff, Bool.true_and, Bool.not_eq_true', Bool.and_eq_false_iff,
      isEmpty_eq_false_iff] at hsome
    simp only [grown, decide_eq_true_eq]
    rcases hsome with hne | hne
    · refine .inl ?_
      rw [update_of_ne hij.symm, update_self, hj, length_append]
      exact Nat.lt_add_of_pos_right (length_pos_iff.mpr hne)
    · refine .inr ?_
      rw [update_self, hi, length_append]
      exact Nat.lt_add_of_pos_right (length_pos_iff.mpr hne)

theorem grown_of_le {before mid after : Table n} {k : Fin n}
    (hle : (mid k).remoteMatches.length ≤ (after k).remoteMatches.length)
    (h : grown before mid k = true) : grown before after k = true := by
  simp only [grown, decide_eq_true_eq] at h ⊢
  omega

theorem offers_add {i j : Fin n} (hij : i ≠ j) {ps : List TopicEntry}
    (h : ps.foldlM (offerTopic i j) table = some table') :
    (∀ x, (table x).remoteMatches.length ≤ (table' x).remoteMatches.length) ∧
      (ps.any (adds table i j) = false → table' = table) ∧
      (ps.any (adds table i j) = true → grown table table' j = true ∨ grown table table' i = true) := by
  induction ps generalizing table with
  | nil =>
    cases h
    simp
  | cons p ps ih =>
    obtain ⟨u, hu, hrest⟩ := foldlM_cons_eq_some.mp h
    obtain ⟨hle, hsame, hgrow⟩ := offerTopic_adds hij hu
    obtain ⟨hle', hsame', hgrow'⟩ := ih hrest
    refine ⟨fun x => (hle x).trans (hle' x), ?_⟩
    rw [any_cons]
    cases hp : adds table i j p with
    | false =>
      rw [hsame hp] at hsame' hgrow'
      rw [Bool.false_or]
      exact ⟨hsame', hgrow'⟩
    | true => simpa using (hgrow hp).imp (grown_of_le (hle' j)) (grown_of_le (hle' i))

theorem wakeChanged_of_same (before : Table n) (k : Fin n) : wakeChanged before before k = before := by
  simp [wakeChanged]

theorem matchPair_adds {i j : Fin n} (h : matchPair i table j = some table') :
    (grown table table' j || grown table table' i) = pairAdds table i j ∧
      (pairAdds table i j = false → table' = table) := by
  have hgrown : ∀ k, grown table table k = false := by simp [grown]
  simp only [matchPair] at h
  by_cases hskip : i = j ∨ (table j).state ≠ .active ∨ (table j).domainId ≠ (table i).domainId ∨
      (table j).subscribedTopics = []
  · rw [if_pos hskip, some.injEq] at h
    have hnone : pairAdds table i j = false := by rw [pairAdds, decide_eq_true hskip]; rfl
    rw [← h, hgrown, hgrown, hnone]
    exact ⟨rfl, fun _ => rfl⟩
  · have hij : i ≠ j := fun hij => hskip (.inl hij)
    have hadds : pairAdds table i j = (table i).publishedTopics.any (adds table i j) := by
      rw [pairAdds, decide_eq_false hskip]
      rfl
    simp only [hskip, if_false, bind_eq_bind, bind_eq_some_iff, slice_eq_some] at h
    obtain ⟨pubs, ⟨_, rfl⟩, r, hr, h⟩ := h
    obtain ⟨_, hsame, hgrow⟩ := offers_add hij hr
    have hwoken : ∀ k, grown table table' k = grown table r k := by
      intro k
      rw [← some.inj h, grown, grown, wakeChanged_remoteMatches, wakeChanged_remoteMatches]
    rw [hwoken, hwoken, hadds]
    cases hany : (table i).publishedTopics.any (adds table i j) with
    | false =>
      rw [hsame hany] at h ⊢
      rw [hgrown, hgrown, ← some.inj h, wakeChanged_of_same, wakeChanged_of_same]
      exact ⟨rfl, fun _ => rfl⟩
    | true =>
      refine ⟨?_, fun hfalse => by cases hfalse⟩
      rw [Bool.or_eq_true]
      exact hgrow hany

theorem matchPublisherFlagged_adds {acc acc' : Table n × Bool} {i : Fin n}
    (h : matchPublisherFlagged acc i = some acc') :
    acc'.2 = (acc.2 || publisherAdds acc.1 i) ∧ (publisherAdds acc.1 i = false → acc'.1 = acc.1) := by
  simp only [matchPublisherFlagged] at h
  by_cases hskip : (acc.1 i).state ≠ .active ∨ (acc.1 i).publishedTopics = []
  · rw [if_pos hskip, some.injEq] at h
    have hnone : publisherAdds acc.1 i = false := by rw [publisherAdds, decide_eq_true hskip]; rfl
    rw [← h, hnone, Bool.or_false]
    exact ⟨rfl, fun _ => rfl⟩
  · rw [if_neg hskip] at h
    have hadds : publisherAdds acc.1 i = (finRange n).any (pairAdds acc.1 i) := by
      rw [publisherAdds, decide_eq_false hskip]
      rfl
    rw [hadds]
    refine foldlM_flag (g := fun t j => pairAdds t i j) (fun j _ u u' hu => ?_) h
    obtain ⟨t, ht, rfl⟩ := map_eq_some_iff.mp hu
    obtain ⟨hflag, hsame⟩ := matchPair_adds ht
    exact ⟨congrArg (u.2 || ·) hflag, hsame⟩

def Unmatched (table : Table n) : Prop :=
  ∃ i j, i ≠ j ∧ (table i).state = .active ∧ (table j).state = .active ∧
    (table j).domainId = (table i).domainId ∧ ∃ p ∈ (table i).publishedTopics, adds table i j p = true
  deriving Decidable

/-- Some active node has a match to a node that is not active, or more matches
than there is room for. -/
def Dangling (table : Table n) : Prop :=
  ∃ k, (table k).state = .active ∧ (maxMatches < (table k).remoteMatches.length ∨
    ∃ m ∈ (table k).remoteMatches, m.nodeId ∉ activeNodeIds table)

theorem any_publisherAdds : (List.finRange n).any (publisherAdds table) = true ↔ Unmatched table := by
  simp only [List.any_eq_true, mem_finRange, true_and, publisherAdds, pairAdds, Bool.and_eq_true,
    Bool.not_eq_true', decide_eq_false_iff_not, not_or, not_not]
  constructor
  · rintro ⟨i, ⟨hi, _⟩, j, ⟨hij, hj, hdomain, _⟩, p, hp, hadds⟩
    exact ⟨i, j, hij, hi, hj, hdomain, p, hp, hadds⟩
  · rintro ⟨i, j, hij, hi, hj, hdomain, p, hp, hadds⟩
    have hoff : offered p (table j).subscribedTopics = true := (Bool.and_eq_true_iff.mp hadds).1
    exact ⟨i, ⟨hi, ne_nil_of_mem hp⟩, j,
      ⟨hij, hj, hdomain, fun hnil => by simp [hnil, offered] at hoff⟩, p, hp, hadds⟩

theorem any_drops : ((List.finRange n).any fun k => drops table (table k)) = true ↔ Dangling table := by
  simp only [List.any_eq_true, mem_finRange, true_and, drops, Bool.and_eq_true, decide_eq_true_eq]
  refine exists_congr fun k => and_congr_right fun _ => ?_
  rw [sweep_count (Nat.min_le_left ..)]
  by_cases hlong : maxMatches < (table k).remoteMatches.length
  · refine iff_of_true ?_ (.inl hlong)
    have hle := length_filter_le (fun m : MatchEntry => (activeNodeIds table).contains m.nodeId)
      ((table k).remoteMatches.take (min (table k).remoteMatches.length maxMatches))
    rw [length_take] at hle
    omega
  · rw [Nat.min_eq_left (Nat.not_lt.mp hlong), take_length]
    rw [length_filter_lt_length_iff_exists]
    simp [hlong]

/-- The pass over the topics sets the flag exactly if a match is missing or
dangling in the table it starts from. -/
theorem flag_iff {flag : Bool} {acc : Table n × Bool}
    (h : processTopicUpdatesFlagged (table, flag) = some acc) :
    acc.2 = true ↔ flag = true ∨ Unmatched table ∨ Dangling table := by
  obtain ⟨mid, hmid, rfl⟩ := map_eq_some_iff.mp h
  obtain ⟨hflag, hsame⟩ := foldlM_flag (fun i _ _ _ hu => matchPublisherFlagged_adds hu) hmid
  simp only [Bool.or_eq_true, hflag]
  cases hany : (finRange n).any (publisherAdds table) with
  | true => simp [any_publisherAdds.mp hany]
  | false =>
    have hno : ¬ Unmatched table := by rw [← any_publisherAdds, hany]; decide
    rw [hsame hany, any_drops]
    simp [hno]

end RmwAxon.TopologyFlag
