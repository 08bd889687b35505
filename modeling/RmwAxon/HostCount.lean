import RmwAxon.HostChange
import RmwAxon.Roster

namespace RmwAxon.HostCount

open Compress Qos Session Segment Host HostFrame HostCreate HostRun HostInv HostChange Transition Function
open Roster Option

def isKind (publisher : Bool) (i t : Nat) (p : Endpoint) : Bool :=
  decide (p.publisher = publisher ∧ p.session = i ∧ p.topic = t)

def live (st : State) (publisher : Bool) (i t : Nat) : Finset Nat :=
  members st.endpoints st.named (isKind publisher i t)

def countOf (s : Tables) (publisher : Bool) : Nat → Option Nat :=
  if publisher then s.publisherCounts else s.subscriptionCounts

def handleOf (s : Tables) (publisher : Bool) : Nat → Option Nat :=
  if publisher then s.publishers else s.subscriptions

variable {b : Bool} {i t e : Nat} {p : Endpoint} {st : State}

theorem isKind_iff : isKind b i t p = true ↔ p.publisher = b ∧ p.session = i ∧ p.topic = t :=
  decide_eq_true_iff

theorem isKind_of_ne (h : p.session ≠ i) : isKind b i t p = false := by
  simp [isKind, h]

structure Counted (st : State) : Prop where
  count : ∀ b i t, countOf (tables st i) b t = tally (live st b i t).card
  handle : ∀ b i t, handleOf (tables st i) b t = none ↔ countOf (tables st i) b t = none
  fresh : ∀ e, st.named ≤ e → st.endpoints e = none

theorem TablesKept.countOf {s' s : Tables} (h : TablesKept s' s) (b : Bool) :
    countOf s' b = countOf s b ∧ handleOf s' b = handleOf s b := by
  obtain ⟨q, ts, rfl⟩ := h
  exact ⟨rfl, rfl⟩

theorem kept_counted {st' : State} (h : Counted st)
    (hq : ∀ i, TablesKept (tables st' i) (tables st i)) (he : st'.endpoints = st.endpoints)
    (hn : st'.named = st.named) : Counted st' := by
  have ht (i : Nat) (b : Bool) := TablesKept.countOf (hq i) b
  constructor
  · intro b i t
    rw [(ht i b).1, live, he, hn]
    exact h.count b i t
  · intro b i t
    rw [(ht i b).1, (ht i b).2]
    exact h.handle b i t
  · rw [he, hn]
    exact h.fresh

theorem Counted.named_lt (h : Counted st) (he : st.endpoints e = some p) : e < st.named := by
  by_contra hge
  rw [h.fresh e (Nat.le_of_not_lt hge)] at he
  cases he

theorem Counted.handle_some (h : Counted st) (he : st.endpoints e = some p) :
    ∃ k, handleOf (tables st p.session) p.publisher p.topic = some k := by
  have hmem : e ∈ live st p.publisher p.session p.topic :=
    mem_members.mpr ⟨h.named_lt he, p, he, isKind_iff.mpr ⟨rfl, rfl, rfl⟩⟩
  refine ne_none_iff_exists'.mp fun hnone => ?_
  rw [h.handle, h.count, tally_none, Finset.card_eq_zero] at hnone
  rw [hnone] at hmem
  exact absurd hmem (Finset.notMem_empty e)

theorem Counted.endpoint (h : Counted st) {k : Nat} (hk : handleOf (tables st i) b t = some k) :
    ∃ e p, e < st.named ∧ st.endpoints e = some p ∧ p.publisher = b ∧ p.session = i ∧ p.topic = t := by
  have hne : (live st b i t).card ≠ 0 := by
    intro hzero
    rw [← tally_none, ← h.count, ← h.handle, hk] at hzero
    cases hzero
  obtain ⟨e, he⟩ := Finset.card_ne_zero.mp hne
  obtain ⟨hlt, p, hp, hk⟩ := mem_members.mp he
  exact ⟨e, p, hlt, hp, isKind_iff.mp hk⟩

section Enrolment

variable {st : State} {s s' : Tables} {b : Bool} {i t : Nat}

structure Enrolled (s' s : Tables) (b : Bool) (t : Nat) : Prop where
  count : ∀ b' u, countOf s' b' u = if b' = b ∧ u = t then some ((countOf s b' u).getD 0 + 1)
    else countOf s b' u
  handle : (∀ b' u, handleOf s b' u = none ↔ countOf s b' u = none) →
    ∀ b' u, handleOf s' b' u = none ↔ countOf s' b' u = none

theorem increment_apply (counts : Nat → Option Nat) (t u : Nat) :
    increment counts t u = if u = t then some ((counts u).getD 0 + 1) else counts u := by
  rw [increment, update_apply]
  split_ifs with h
  · rw [h]
  · rfl

theorem follow_none {table counts : Nat → Option Nat} {h u : Nat} (hc : table u = none ↔ counts u = none) :
    (if (counts t).isSome then update table t (some h) else table) u = none ↔ counts u = none := by
  split_ifs with ht
  · rw [update_apply]
    split_ifs with hu
    · rw [hu]
      simpa using isSome_iff_ne_none.mp ht
    · exact hc
  · exact hc

theorem update_none {table counts : Nat → Option Nat} {h u : Nat} (hc : table u = none ↔ counts u = none) :
    update table t (some h) u = none ↔ increment counts t u = none := by
  rw [increment_apply, update_apply]
  split_ifs
  · simp
  · exact hc

theorem joined_enrolled {qos : QosProfile} {h : Nat} (hj : Joined s qos h b t s') : Enrolled s' s b t := by
  cases hj with
  | publisher =>
    refine ⟨fun b' u => ?_, fun hs b' u => ?_⟩
    · cases b'
      · simp [countOf, addPublisher]
      · simpa [countOf, addPublisher] using increment_apply s.publisherCounts t u
    · cases b'
      · exact follow_none (hs false u)
      · exact update_none (hs true u)
  | subscription topic seq =>
    refine ⟨fun b' u => ?_, fun hs b' u => ?_⟩
    · cases b'
      · simpa [countOf, addSubscription] using increment_apply s.subscriptionCounts topic.hash u
      · simp [countOf, addSubscription]
    · cases b'
      · exact update_none (hs false u)
      · exact follow_none (hs true u)

theorem enrolled_counted (h : Counted st) {x : Machine} (hs : Enrolled s' (tables st i) b t)
    (hx : ∀ j, (x.processes j).tables = if j = i then s' else tables st j) (qos : QosProfile) :
    Counted (addEndpoint st x true ⟨b, i, t, qos⟩) := by
  have ht (j : Nat) : tables (addEndpoint st x true ⟨b, i, t, qos⟩) j =
      if j = i then s' else tables st j := hx j
  refine ⟨fun b' j u => ?_, fun b' j u => ?_, fun e he => ?_⟩
  · have hcard : (live (addEndpoint st x true ⟨b, i, t, qos⟩) b' j u).card =
        (live st b' j u).card + if isKind b' j u ⟨b, i, t, qos⟩ then 1 else 0 := card_members_add
    rw [ht, hcard]
    by_cases hj : j = i
    · subst hj
      rw [if_pos rfl, hs.count, h.count]
      simp only [isKind, true_and, decide_eq_true_eq, eq_comm (a := b), eq_comm (a := t)]
      split_ifs
      · rw [tally_succ]
      · rfl
    · rw [if_neg hj, h.count, isKind_of_ne (Ne.symm hj)]
      rfl
  · rw [ht]
    split_ifs with hj
    · exact hs.handle (fun b u => h.handle b i u) b' u
    · exact h.handle b' j u
  · simp only [addEndpoint, if_true] at he ⊢
    rw [update_of_ne (by omega)]
    exact h.fresh e (by omega)

structure Removed (s' s : Tables) (b : Bool) (t : Nat) : Prop where
  count : ∀ b' u, countOf s' b' u = if b' = b ∧ u = t then tally ((countOf s b' u).getD 0 - 1)
    else countOf s b' u
  handle : (∀ b' u, handleOf s b' u = none ↔ countOf s b' u = none) →
    ∀ b' u, handleOf s' b' u = none ↔ countOf s' b' u = none

theorem removed_of {count : Nat} (hc : countOf s b t = some count)
    (hcount : countOf s' b = update (countOf s b) t (tally (count - 1)))
    (hother : countOf s' (!b) = countOf s (!b) ∧ handleOf s' (!b) = handleOf s (!b))
    (hhandle : handleOf s' b = if 1 < count then handleOf s b
      else update (handleOf s b) t none) : Removed s' s b t := by
  have hb {b' : Bool} (hne : b' ≠ b) : b' = !b := by cases b <;> cases b' <;> simp_all
  constructor
  · intro b' u
    by_cases hbb : b' = b
    · subst hbb
      rw [hcount, update_apply]
      by_cases hu : u = t
      · simp [hu, hc]
      · simp [hu]
    · rw [if_neg fun h => hbb h.1, hb hbb, hother.1]
  · intro hs b' u
    by_cases hbb : b' = b
    · subst hbb
      rw [hcount, hhandle, update_apply]
      by_cases hu : u = t
      · subst hu
        rw [if_pos rfl]
        split_ifs with hlt
        · rw [hs, hc, ← tally_pred hlt]
          simp
        · rw [update_self, ← tally_last hlt]
      · rw [if_neg hu, ← hs]
        split_ifs
        · rfl
        · rw [update_of_ne hu]
    · rw [hb hbb, hother.1, hother.2]
      exact hs _ u

theorem destroyPublisher_removed {w : World} {t count : Nat} (hc : w.session.publisherCounts t = some count) :
    (Session.destroyPublisher w t).1 = .ok () ∧
      Removed (Session.destroyPublisher w t).2.session w.session true t := by
  unfold Session.destroyPublisher
  simp only [hc]
  by_cases hlt : 1 < count
  · rw [if_pos hlt, tally_pred hlt]
    exact ⟨rfl, removed_of hc rfl ⟨rfl, rfl⟩ (if_pos hlt).symm⟩
  rw [if_neg hlt, tally_last hlt]
  refine ⟨rfl, removed_of hc rfl ⟨rfl, rfl⟩ ?_⟩
  rw [if_neg hlt, ← tally_last hlt]
  rfl

theorem destroySubscription_removed {w : World} {t count : Nat}
    (hc : w.session.subscriptionCounts t = some count) :
    (Session.destroySubscription w t).1 = .ok () ∧
      Removed (Session.destroySubscription w t).2.session w.session false t := by
  unfold Session.destroySubscription
  simp only [hc]
  by_cases hlt : 1 < count
  · rw [if_pos hlt, tally_pred hlt]
    exact ⟨rfl, removed_of hc rfl ⟨rfl, rfl⟩ (if_pos hlt).symm⟩
  · rw [if_neg hlt]
    exact ⟨rfl, removed_of hc (by rw [← tally_last hlt]; rfl) ⟨rfl, rfl⟩ (if_neg hlt).symm⟩

theorem removed_counted (h : Counted st) {e : Nat} {p : Endpoint} (he : st.endpoints e = some p)
    {x : Machine} (hs : Removed s' (tables st p.session) p.publisher p.topic)
    (hx : ∀ j, (x.processes j).tables = if j = p.session then s' else tables st j) :
    Counted { st with machine := x, endpoints := update st.endpoints e none } := by
  refine ⟨fun b' j u => ?_, fun b' j u => ?_, fun k hk => ?_⟩
  · have hcard : (members st.endpoints st.named (isKind b' j u)).card = _ + _ :=
      card_members_remove (h.named_lt he) he
    simp only [tables, hx j, live]
    by_cases hj : j = p.session
    · subst hj
      rw [if_pos rfl, hs.count, h.count, live, hcard]
      simp only [isKind, true_and, decide_eq_true_eq, eq_comm (a := p.publisher), eq_comm (a := p.topic)]
      split_ifs
      · rw [tally_getD, Nat.add_sub_cancel]
      · rfl
    · rw [isKind_of_ne (Ne.symm hj)] at hcard
      rw [if_neg hj]
      exact (h.count b' j u).trans (congrArg tally hcard)
  · simp only [tables, hx j]
    split_ifs with hj
    · exact hs.handle (fun b u => h.handle b p.session u) b' u
    · exact h.handle b' j u
  · simp only [update_apply]
    split_ifs
    · rfl
    · exact h.fresh k hk

end Enrolment

theorem applyDestroy_counted (h : Counted st) (he : st.endpoints e = some p) :
    Counted (applyDestroy st e p) := by
  obtain ⟨k, hk⟩ := h.handle_some he
  have hne : countOf (tables st p.session) p.publisher p.topic ≠ none := by
    rw [ne_eq, ← h.handle, hk]
    simp
  obtain ⟨count, hc⟩ := ne_none_iff_exists'.mp hne
  unfold applyDestroy
  by_cases hb : p.publisher = true
  · rw [hb] at hc
    obtain ⟨hok, hrem⟩ := destroyPublisher_removed (w := world st.machine p.session) hc
    simp only [hb, if_true, Host.destroyPublisher, hok, isOk]
    exact removed_counted h he (hb ▸ hrem) fun j => put_tables ..
  · rw [Bool.not_eq_true] at hb
    rw [hb] at hc
    obtain ⟨hok, hrem⟩ := destroySubscription_removed (w := world st.machine p.session) hc
    simp only [hb, Bool.false_eq_true, if_false, Host.destroySubscription, hok, isOk, if_true]
    exact removed_counted h he (hb ▸ hrem) fun j => put_tables ..

theorem applyDeath_counted (h : Counted st) (i : Nat) : Counted (applyDeath st i) := by
  have ht (j : Nat) : tables (applyDeath st i) j =
      if j = i then newTables (tables st i).nodeId (tables st i).quicTransport else tables st j := by
    simp only [tables, applyDeath, die, update_apply]
    split_ifs <;> rfl
  refine ⟨fun b j t => ?_, fun b j t => ?_, fun e he => ?_⟩
  · have hlive : live (applyDeath st i) b j t =
        members st.endpoints st.named fun p => isKind b j t p && decide (p.session ≠ i) :=
      members_filter _
    rw [ht, hlive]
    split_ifs with hj
    · have hnone : members st.endpoints st.named (fun p => isKind b j t p && decide (p.session ≠ i)) = ∅ := by
        ext e
        simp [mem_members, isKind, hj]
        tauto
      rw [hnone]
      cases b <;> rfl
    · have hsame : (fun p => isKind b j t p && decide (p.session ≠ i)) = isKind b j t := by
        funext p
        rw [Bool.and_eq_left_iff_imp]
        exact fun hk => decide_eq_true ((isKind_iff.mp hk).2.1 ▸ hj)
      rw [hsame]
      exact h.count b j t
  · rw [ht]
    split_ifs
    · cases b <;> simp [handleOf, countOf, newTables]
    · exact h.handle b j t
  · simp [applyDeath, h.fresh e he]

theorem step_counted {codec : Codec} {st' : State} {ev : Event} (h : Counted st)
    (hx : AllTidy st.machine) (hs : step codec st ev = some st') : Counted st' := by
  cases ev with
  | createPublisher | createSubscription =>
    obtain ⟨_, _, _, _, rfl, hc⟩ := step_created hx hs rfl
    cases hc with
    | failed hf =>
      refine kept_counted h (fun i => ?_) rfl rfl
      rcases hf with rfl | rfl <;> exact .refl _
    | attached ha _ _ hj => exact enrolled_counted h (joined_enrolled hj) (attach_tables_put ha _) _
  | destroy e =>
    obtain ⟨p, hp, rfl⟩ := map_eq_some_iff.mp hs
    exact applyDestroy_counted h (filter_eq_some_iff.mp hp).1
  | die i =>
    cases hs
    exact applyDeath_counted h i
  | reap t =>
    cases hs
    exact kept_counted h (fun _ => .refl _) rfl rfl
  | _ =>
    obtain ⟨hq, he, hn⟩ := step_quiet rfl hs
    exact kept_counted h (fun i => (hq.processes i).tables) he hn

theorem start_counted (quicTransport : Nat → Bool) : Counted (start quicTransport) := by
  refine ⟨fun b i t => ?_, fun b i t => ?_, fun _ _ => rfl⟩
  · cases b <;> rfl
  · cases b <;> simp [handleOf, countOf, tables, start, newProcess, newTables]

theorem reach_counted {codec : Compress.Codec} {quicTransport : Nat → Bool}
    (h : Reach (step codec) anyStep (start quicTransport) st) : AllTidy st.machine ∧ Counted st := by
  refine h.invariant (I := fun st => AllTidy st.machine ∧ Counted st)
    ⟨start_tidy quicTransport, start_counted quicTransport⟩ ?_
  intro s ev s' hi _ hs
  exact ⟨step_tidy hi.1 hs, step_counted hi.2 hi.1 hs⟩

end RmwAxon.HostCount
