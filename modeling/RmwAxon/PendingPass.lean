import RmwAxon.MatchPass

namespace RmwAxon.PendingPass

open Loops Matching MatchPass NodeTable Function List Option

variable {n : Nat} {base table table' : Table n} {P : Fin n → List MatchEntry → Prop}

def collect (base : Table n) (i : Fin n) (ms : List MatchEntry) (j : Fin n) : List MatchEntry :=
  if i = j ∨ (base j).state ≠ .active ∨ (base j).domainId ≠ (base i).domainId then ms
  else
    (base i).publishedTopics.foldl (fun ms p =>
      if offered p (base j).subscribedTopics then
        pushMatchForAllAddrsDedup ms (base j).nodeId p.hash (base j).quicPort (base j).quicAddrs
      else ms)
    ((base j).publishedTopics.foldl (fun ms p =>
      if offered p (base i).subscribedTopics then
        pushMatchesForAllAddrs ms (base j).nodeId p.hash (base j).quicPort (base j).quicAddrs
      else ms) ms)

def collected (base : Table n) (i : Fin n) : List MatchEntry :=
  (List.finRange n).foldl (collect base i) []

variable {i j : Fin n} {acc acc' : List MatchEntry × Table n} {ms : List MatchEntry}

theorem offerToActive_eq {p : TopicEntry} (hnodes : SameNodes base acc.2)
    (h : offerToActive i j acc p = some acc') :
    offered p (base j).subscribedTopics = false ∧ acc' = acc ∨ offered p (base j).subscribedTopics = true ∧
        acc'.1 = pushMatchForAllAddrsDedup acc.1 (base j).nodeId p.hash (base j).quicPort (base j).quicAddrs ∧
        ∃ e, SameNode (acc.2 j) e ∧ e.remoteMatches = enlargeFor base i p.hash (acc.2 j).remoteMatches ∧
          acc'.2 = update acc.2 j e := by
  rw [← (hnodes j).subscribedTopics, ← (hnodes j).nodeId, ← (hnodes j).quicPort, ← (hnodes j).quicAddrs]
  simp only [offerToActive, bind_eq_bind, bind_eq_some_iff, slice_eq_some] at h
  obtain ⟨subs, ⟨_, rfl⟩, h⟩ := h
  cases ho : offered p (acc.2 j).subscribedTopics with
  | false => exact .inl ⟨rfl, by simpa [ho] using h.symm⟩
  | true =>
    refine .inr ⟨rfl, ?_⟩
    rw [← enlarge_sameNode hnodes]
    simp only [ho, if_true, insertMatches_eq, bind_some] at h
    split_ifs at h with hgrown
    · cases h
      refine ⟨rfl, _, ?_, ?_, rfl⟩ <;> rfl
    · cases h
      refine ⟨rfl, acc.2 j, rfl, ?_, (update_eq_self ..).symm⟩
      exact prefix_enlarge.eq_of_length_le (Nat.le_of_not_lt hgrown)

section

variable (hstable : Stable base P)
include hstable

theorem offerToActive_keeps (hij : i ≠ j) (hi : (base i).state = .active)
    (hj : (base j).state = .active) (hd : (base j).domainId = (base i).domainId)
    (hk : Keeps base P acc.2) {p : TopicEntry} (hp : p ∈ (base i).publishedTopics)
    (h : offerToActive i j acc p = some acc') : Keeps base P acc'.2 := by
  rcases offerToActive_eq hk.nodes h with ⟨_, rfl⟩ | ⟨hoff, _, e, he, hms, heq⟩
  · exact hk
  obtain ⟨s, hs, hhash, hqos⟩ := offered_eq_true.mp hoff
  rw [heq]
  refine hk.update he (hms ▸ hstable j i p.hash _ ?_ (hk.lists j))
  exact ⟨hij.symm, hj, hi, hd.symm, .inl ⟨p, hp, rfl, s, hs, hhash, hqos⟩⟩

theorem offers_keeps (hij : i ≠ j) (hi : (base i).state = .active)
    (hj : (base j).state = .active) (hd : (base j).domainId = (base i).domainId)
    {ps : List TopicEntry} (hps : ∀ p ∈ ps, p ∈ (base i).publishedTopics)
    (h : ps.foldlM (offerToActive i j) acc = some acc') (hk : Keeps base P acc.2) :
    Keeps base P acc'.2 ∧ acc'.1 = ps.foldl (fun ms p =>
      if offered p (base j).subscribedTopics then
        pushMatchForAllAddrsDedup ms (base j).nodeId p.hash (base j).quicPort (base j).quicAddrs
      else ms) acc.1 := by
  induction ps generalizing acc with
  | nil =>
    cases h
    exact ⟨hk, rfl⟩
  | cons p ps ih =>
    obtain ⟨u, hu, hrest⟩ := foldlM_cons_eq_some.mp h
    have huk := offerToActive_keeps hstable hij hi hj hd hk (hps p mem_cons_self) hu
    obtain ⟨hkeeps, hfst⟩ := ih (fun q hq => hps q (mem_cons_of_mem p hq)) hrest huk
    refine ⟨hkeeps, ?_⟩
    rw [hfst, foldl_cons]
    rcases offerToActive_eq hk.nodes hu with ⟨hoff, rfl⟩ | ⟨hoff, hmine, _⟩
    · simp [hoff]
    · simp [hoff, hmine]

theorem meet_keeps (hi : (base i).state = .active)
    (hk : Keeps base P acc.2) (h : meet i (base i).subscribedTopics acc j = some acc') :
    Keeps base P acc'.2 ∧ acc'.1 = collect base i acc.1 j := by
  simp only [meet, (hk.nodes j).state, (hk.nodes j).domainId, (hk.nodes i).domainId] at h
  unfold collect
  split_ifs at h ⊢ with hskip
  · cases h
    exact ⟨hk, rfl⟩
  simp only [bind_eq_bind, bind_eq_some_iff, slice_eq_some] at h
  obtain ⟨pubs, ⟨_, rfl⟩, own, ⟨_, rfl⟩, h⟩ := h
  simp only [not_or, not_not] at hskip
  have hloop := offers_keeps hstable hskip.1 hi hskip.2.1 hskip.2.2
    (fun p hp => by rwa [← (hk.nodes i).publishedTopics]) h hk
  refine ⟨hloop.1, ?_⟩
  rw [hloop.2, (hk.nodes i).publishedTopics, (hk.nodes j).publishedTopics, (hk.nodes j).nodeId,
    (hk.nodes j).quicPort, (hk.nodes j).quicAddrs]

theorem meets_keeps (hi : (base i).state = .active) {js : List (Fin n)}
    (hk : Keeps base P acc.2) (h : js.foldlM (meet i (base i).subscribedTopics) acc = some acc') :
    Keeps base P acc'.2 ∧ acc'.1 = js.foldl (collect base i) acc.1 := by
  induction js generalizing acc with
  | nil =>
    cases h
    exact ⟨hk, rfl⟩
  | cons j js ih =>
    obtain ⟨u, hu, hrest⟩ := foldlM_cons_eq_some.mp h
    obtain ⟨huk, hfst⟩ := meet_keeps hstable hi hk hu
    rw [foldl_cons, ← hfst]
    exact ih huk hrest

end

def activated (table : Table n) (i : Fin n) : Table n :=
  update table i { table i with state := .active }

theorem refersToActive_congr (hnodes : SameNodes base table) (m : MatchEntry) :
    refersToActive table m = refersToActive base m := by
  have hslot : findSlotByNodeId table m.nodeId = findSlotByNodeId base m.nodeId := by
    simp only [findSlotByNodeId, firstSlot, isOccupied, (hnodes _).state, (hnodes _).nodeId]
  simp only [refersToActive, hslot, (hnodes _).state]

/-- What the registration of a node does to the table: the lists of the others
are enlarged, its own is what it has collected. -/
theorem processPendingRegistration_keeps (hstable : Stable (activated table i) P)
    (hP : ∀ x, P x (table x).remoteMatches) (hpend : (table i).state = .pending)
    (h : processPendingRegistration table i = some table') :
    ∃ r, Keeps (activated table i) P r ∧ table' = update r i (wake (setMatches (r i)
        ((collected (activated table i) i).filter (refersToActive (activated table i))))) := by
  have hi : (activated table i i).state = .active := by simp [activated]
  have hk : Keeps (activated table i) P (activated table i) := by
    refine ⟨SameNodes.refl _, fun x => ?_⟩
    have hms : (activated table i x).remoteMatches = (table x).remoteMatches := by
      rw [activated, update_apply]
      split_ifs with hx
      · rw [hx]
      · rfl
    exact hms ▸ hP x
  simp only [processPendingRegistration, hpend, if_true, bind_eq_bind, bind_eq_some_iff, slice_eq_some] at h
  obtain ⟨subs, ⟨_, rfl⟩, r, hr, ms, ⟨_, rfl⟩, h⟩ := h
  obtain ⟨hkr, hmine⟩ := meets_keeps hstable hi hk hr
  refine ⟨r.2, hkr, ?_⟩
  rw [← some.inj h, hmine, collected]
  congr 4
  funext m
  exact refersToActive_congr hkr.nodes m

def Bounded (ms : List MatchEntry) : Prop := ms.length ≤ maxMatches

theorem bounded_pushUnlessKnown (h : Bounded ms) (m : MatchEntry) : Bounded (pushUnlessKnown ms m) := by
  unfold Bounded at h ⊢
  unfold pushUnlessKnown
  split_ifs with hlt
  · simp only [Bool.and_eq_true, decide_eq_true_eq] at hlt
    rw [length_append, length_singleton]
    omega
  · exact h

theorem bounded_collect (base : Table n) (i j : Fin n) (h : Bounded ms) : Bounded (collect base i ms j) := by
  unfold collect
  split_ifs
  · exact h
  refine foldlRecOn _ _ (motive := Bounded)
    (foldlRecOn _ _ (motive := Bounded) h fun ms hms p _ => ?_) fun ms hms p _ => ?_
  · split_ifs
    · unfold Bounded at hms ⊢
      rw [pushMatchesForAllAddrs, length_append, length_map, length_take]
      omega
    · exact hms
  split_ifs
  · exact foldlRecOn _ _ (motive := Bounded) hms fun ms hms _ _ =>
      bounded_pushUnlessKnown hms _
  · exact hms

theorem bounded_collected (base : Table n) (i : Fin n) : Bounded (collected base i) :=
  foldlRecOn _ _ (motive := Bounded) (Nat.zero_le _) fun _ hms j _ => bounded_collect base i j hms

theorem offerToActive_total (hrange : TopicsInRange acc.2) (i j : Fin n) (p : TopicEntry) :
    ∃ acc', offerToActive i j acc p = some acc' := by
  simp only [offerToActive, slice, (hrange j).2, if_true, bind_eq_bind, bind_some, insertMatches_eq]
  split_ifs <;> exact ⟨_, rfl⟩

theorem meet_total (hrange : TopicsInRange base) (hi : (base i).state = .active)
    (h : SameNodes base acc.2) (j : Fin n) :
    ∃ acc', meet i (base i).subscribedTopics acc j = some acc' ∧ SameNodes base acc'.2 := by
  have hsome : ∃ acc', meet i (base i).subscribedTopics acc j = some acc' := by
    simp only [meet]
    split_ifs with hskip
    · exact ⟨_, rfl⟩
    simp only [not_or, not_not, (h j).state, (h j).domainId, (h i).domainId] at hskip
    simp only [slice, (hrange.congr h j).1, (hrange.congr h i).1, if_true, bind_eq_bind, bind_some]
    refine Exists.imp (fun _ hr => hr.1)
      (foldlM_total (I := fun u => Keeps base (fun _ _ => True) u.2) (fun p hp u hu => ?_)
        ⟨h, fun _ => trivial⟩)
    obtain ⟨u', hu'⟩ := offerToActive_total (hrange.congr hu.nodes) i j p
    refine ⟨u', hu', offerToActive_keeps (stable_true base) hskip.1 hi hskip.2.1 hskip.2.2 hu ?_ hu'⟩
    rwa [← (h i).publishedTopics]
  obtain ⟨acc', ha⟩ := hsome
  exact ⟨acc', ha, (meet_keeps (stable_true base) hi ⟨h, fun _ => trivial⟩ ha).1.nodes⟩

theorem processPendingRegistration_total (hrange : TopicsInRange table) (i : Fin n) :
    ∃ table', processPendingRegistration table i = some table' := by
  by_cases hpend : (table i).state = .pending
  · have hi : (activated table i i).state = .active := by simp [activated]
    have hrange' : TopicsInRange (activated table i) := by
      intro k
      rw [activated, update_apply]
      split_ifs with hk
      · exact hk ▸ hrange k
      · exact hrange k
    have hloop : ∃ r, (finRange n).foldlM (meet i (activated table i i).subscribedTopics)
        ([], activated table i) = some r ∧ SameNodes (activated table i) r.2 :=
      foldlM_total (I := fun u : List MatchEntry × Table n => SameNodes (activated table i) u.2)
        (fun j _ _ hu => meet_total hrange' hi hu j) (SameNodes.refl (activated table i))
    obtain ⟨r, hr, _⟩ := hloop
    have hmine := (meets_keeps (stable_true _) hi ⟨SameNodes.refl _, fun _ => trivial⟩ hr).2
    have hlen : (r.1.filter (refersToActive r.2)).length ≤ maxMatches := by
      refine Nat.le_trans (length_filter_le ..) ?_
      rw [hmine]
      exact bounded_collected _ i
    refine ⟨update r.2 i (wake (setMatches (r.2 i) (r.1.filter (refersToActive r.2)))), ?_⟩
    simp only [processPendingRegistration, hpend, if_true, slice, bind_eq_bind, bind_eq_some_iff]
    exact ⟨_, if_pos (hrange' i).2, r, hr, _, if_pos hlen, rfl⟩
  · exact ⟨table, by simp [processPendingRegistration, hpend]⟩

end RmwAxon.PendingPass
