import RmwAxon.HostInv

namespace RmwAxon.HostChange

open Compress Qos Session Segment Host HostFrame HostCreate HostRun HostInv Function Option

section Moving

variable {table counts : Nat → Option Nat} {t h u k : Nat}

theorem follow_entry (hc : ∀ u k, table u = some k → counts u ≠ none)
    (he : (if (counts t).isSome then update table t (some h) else table) u = some k) :
    (u = t ∧ k = h) ∨ (u ≠ t ∧ table u = some k) := by
  by_cases hu : u = t
  · subst hu
    refine .inl ⟨rfl, ?_⟩
    split_ifs at he with ht
    · simpa using he.symm
    · exact absurd (not_isSome_iff_eq_none.mp ht) (hc u k he)
  · refine .inr ⟨hu, ?_⟩
    split_ifs at he
    · rwa [update_of_ne hu] at he
    · exact he

theorem follow_counted (hc : ∀ u k, table u = some k → counts u ≠ none)
    (he : (if (counts t).isSome then update table t (some h) else table) u = some k) :
    counts u ≠ none := by
  split_ifs at he with ht
  · rw [update_apply] at he
    split_ifs at he with hu
    · rw [hu]
      exact isSome_iff_ne_none.mp ht
    · exact hc u k he
  · exact hc u k he

theorem update_entry (he : update table t (some h) u = some k) :
    (u = t ∧ k = h) ∨ (u ≠ t ∧ table u = some k) := by
  rw [update_apply] at he
  split_ifs at he with hu
  · exact .inl ⟨hu, (some.inj he).symm⟩
  · exact .inr ⟨hu, he⟩

theorem increment_counted (hc : ∀ u k, table u = some k → counts u ≠ none)
    (he : update table t (some h) u = some k) : increment counts t u ≠ none := by
  rw [increment, update_apply]
  rcases update_entry he with ⟨rfl, _⟩ | ⟨hu, he⟩
  · simp
  · rw [if_neg hu]
    exact hc u k he

end Moving

variable {s : Tables} {t k : Nat} {st st' : State}

theorem decrement_counted {table counts : Nat → Option Nat} {n u : Nat}
    (hc : ∀ u k, table u = some k → counts u ≠ none) (he : table u = some k) :
    update counts t (some n) u ≠ none := by
  rw [update_apply]
  split_ifs
  · simp
  · exact hc u k he

theorem drop_counted {table counts : Nat → Option Nat} {u : Nat}
    (hc : ∀ u k, table u = some k → counts u ≠ none) (he : update table t none u = some k) :
    table u = some k ∧ update counts t none u ≠ none := by
  rw [update_apply] at he ⊢
  split_ifs at he ⊢
  exact ⟨he, hc u k he⟩

theorem destroy_shrunk {w : World} (t : Nat)
    (hp : ∀ u k, w.session.publishers u = some k → w.session.publisherCounts u ≠ none)
    (hs : ∀ u k, w.session.subscriptions u = some k → w.session.subscriptionCounts u ≠ none) :
    (∃ s, (Session.destroyPublisher w t).2 = { w with session := s } ∧ Shrunk s w.session) ∧
      ∃ s, (Session.destroySubscription w t).2 = { w with session := s } ∧ Shrunk s w.session := by
  unfold Session.destroyPublisher Session.destroySubscription
  dsimp only
  constructor <;> split
  · exact ⟨w.session, rfl, ⟨fun _ _ => id, hp, hs⟩⟩
  · split
    · exact ⟨_, rfl, ⟨fun _ _ => id, fun _ _ he => decrement_counted hp he, hs⟩⟩
    · exact ⟨_, rfl, ⟨fun u k he => he.imp_left fun he => (drop_counted hp he).1,
        fun u k he => (drop_counted hp he).2, hs⟩⟩
  · exact ⟨w.session, rfl, ⟨fun _ _ => id, hp, hs⟩⟩
  · split
    · exact ⟨_, rfl, ⟨fun _ _ => id, hp, fun _ _ he => decrement_counted hs he⟩⟩
    · exact ⟨_, rfl, ⟨fun u k he => he.imp_right fun he => (drop_counted hs he).1, hp,
        fun u k he => (drop_counted hs he).2⟩⟩

theorem newTables_shrunk (s : Tables) (n : Nat) (q : Bool) : Shrunk (newTables n q) s := by
  constructor <;> simp [newTables, Entry]

theorem existing_created {x : Machine} (hx : AllTidy x) {i : Nat} (he : Entry (x.processes i).tables t k) :
    ((x.processes i).handles k).segment < x.shm.created :=
  (hx i).created k ((hx i).named t k he)

theorem existingPublisher_entry (h : existingPublisher s t = some k) : Entry s t k := by
  rcases or_eq_some_iff.mp h with h | ⟨_, h⟩
  · exact .inl h
  · exact .inr h

theorem existingSubscription_entry (h : existingSubscription s t = some k) : Entry s t k := by
  rcases or_eq_some_iff.mp h with h | ⟨_, h⟩
  · exact .inr h
  · exact .inl h

theorem addEndpoint_machine (st : State) (x : Machine) (created : Bool) (e : Endpoint) :
    (addEndpoint st x created e).machine = x := by
  unfold addEndpoint
  split_ifs <;> rfl

structure AddsEndpoint (st' st : State) : Prop where
  alive : st'.alive = st.alive
  frames : st'.frames = st.frames
  arrivals : st'.arrivals = st.arrivals
  taken : st'.taken = st.taken

theorem addEndpoint_kept (st : State) (x : Machine) (created : Bool) (e : Endpoint) :
    AddsEndpoint (addEndpoint st x created e) st := by
  unfold addEndpoint
  split_ifs <;> exact ⟨rfl, rfl, rfl, rfl⟩

theorem whenAlive_some {next : State} {i : Nat} (h : whenAlive st i next = some st') :
    st.alive i = true ∧ next = st' := by
  unfold whenAlive at h
  split_ifs at h with ha
  exact ⟨ha, some.inj h⟩

theorem failed_change {x x' : Machine} (r : Option Request) (hf : Failed x x' t) : Change x r x' := by
  rcases hf with rfl | rfl
  · exact .quiet (.refl _)
  · exact .unlinked t

theorem marked_handles (w : World) (h : Nat) (first : Bool) : (marked w h first).handles = w.handles := by
  unfold marked
  split_ifs <;> rfl

theorem marked_ahead (w : World) (h : Nat) (first : Bool) (seg : Nat) :
    Ahead ((marked w h first).rings seg) (w.rings seg) := by
  unfold marked
  split_ifs
  · exact setRing_ahead (m := RingBuffer.markGeneration (ringOf w h)) ⟨rfl, le_rfl⟩ seg
  · exact .refl _

/-- What an endpoint of either direction enters into the tables of its session. -/
inductive Joined (s : Tables) (qos : QosProfile) (h : Nat) : Bool → Nat → Tables → Prop
  | publisher (t : Nat) : Joined s qos h true t (addPublisher s t qos h)
  | subscription (topic : Topic) (seq : Nat) :
      Joined s qos h false topic.hash (addSubscription s topic qos h seq)

theorem joined_moved {qos : QosProfile} {h t : Nat} {b : Bool} {s' : Tables}
    (hj : Joined s qos h b t s') (hp : ∀ u k, s.publishers u = some k → s.publisherCounts u ≠ none)
    (hs : ∀ u k, s.subscriptions u = some k → s.subscriptionCounts u ≠ none) : Moved s' s t h := by
  cases hj with
  | publisher =>
    refine ⟨fun u k he => ?_, fun _ _ he => increment_counted hp he, fun _ _ he => follow_counted hs he⟩
    rcases he with he | he
    · exact (update_entry he).imp_right (And.imp_right .inl)
    · exact (follow_entry hs he).imp_right (And.imp_right .inr)
  | subscription =>
    refine ⟨fun u k he => ?_, fun _ _ he => follow_counted hp he, fun _ _ he => increment_counted hs he⟩
    rcases he with he | he
    · exact (follow_entry hp he).imp_right (And.imp_right .inl)
    · exact (update_entry he).imp_right (And.imp_right .inr)

inductive Created (st : State) (r : Request) (b : Bool) (qos : QosProfile) : Bool → Machine → Prop
  | failed {x' : Machine} : Failed st.machine x' r.topic → Created st r b qos false x'
  | attached {os : Os} {h : Nat} {x₁ : Machine} {w : World} :
      Attach os st.machine r.session r.existing r.topic r.depth r.slotSize h x₁ →
      (∀ seg, Ahead (w.rings seg) (x₁.shm.rings seg)) →
      w.handles = (x₁.processes r.session).handles →
      Joined (tables st r.session) qos h b r.topic w.session →
      Created st r b qos true (put x₁ r.session w)

variable {r : Request} {ev : Event} {codec : Codec}

theorem step_created (hx : AllTidy st.machine)
    (hs : step codec st ev = some st') (hr : request st ev = some r) :
    ∃ b qos created x', st' = addEndpoint st x' created ⟨b, r.session, r.topic, qos⟩ ∧
      Created st r b qos created x' := by
  cases ev with
  | createPublisher os env i topic qos =>
    cases hr
    obtain ⟨_, rfl⟩ := whenAlive_some hs
    refine ⟨_, _, _, _, rfl, ?_⟩
    rcases createPublisher_cases os env st.machine i topic qos fun k hk =>
      existing_created hx (existingPublisher_entry hk) with ⟨e, x', he, hf⟩ | ⟨h, x₁, ha, he⟩
    · rw [he]
      exact .failed hf
    · rw [he]
      exact .attached ha (marked_ahead _ h _) (marked_handles _ h _) (.publisher _)
  | createSubscription os env allowed i topic qos =>
    cases hr
    obtain ⟨_, rfl⟩ := whenAlive_some hs
    refine ⟨_, _, _, _, rfl, ?_⟩
    rcases createSubscription_cases os env allowed st.machine i topic qos fun k hk =>
      existing_created hx (existingSubscription_entry hk) with ⟨e, x', he, hf⟩ | ⟨h, x₁, ha, he⟩
    · rw [he]
      exact .failed hf
    · rw [he]
      exact .attached ha (fun _ => .refl _) rfl (.subscription topic _)
  | _ => cases hr

theorem step_created_change (hx : AllTidy st.machine)
    (hs : step codec st ev = some st') (hr : request st ev = some r) :
    Change st.machine (request st ev) st'.machine := by
  obtain ⟨b, qos, created, x', rfl, hc⟩ := step_created hx hs hr
  rw [addEndpoint_machine]
  cases hc with
  | failed hf => exact failed_change _ hf
  | attached ha hrings hh hj =>
    refine .attached hr ha (fun k hk => ?_) hrings hh
      (joined_moved hj (hx _).publisherCounted (hx _).subscriptionCounted)
    cases ev with
    | createPublisher =>
      cases hr
      exact existingPublisher_entry hk
    | createSubscription =>
      cases hr
      exact existingSubscription_entry hk
    | _ => cases hr

theorem applyDestroy_machine (st : State) (e : Nat) (p : Endpoint) :
    (applyDestroy st e p).machine = put st.machine p.session
      (if p.publisher then (Session.destroyPublisher (world st.machine p.session) p.topic).2
        else (Session.destroySubscription (world st.machine p.session) p.topic).2) := by
  simp only [applyDestroy]
  split_ifs <;> rfl

theorem applyDestroy_shrunk (hx : AllTidy st.machine) (e : Nat) (p : Endpoint) :
    ∃ s, (applyDestroy st e p).machine =
        put st.machine p.session { world st.machine p.session with session := s } ∧
      Shrunk s (tables st p.session) := by
  obtain ⟨⟨s, he, hsh⟩, ⟨s', he', hsh'⟩⟩ := destroy_shrunk (w := world st.machine p.session) p.topic
    (hx p.session).publisherCounted (hx p.session).subscriptionCounted
  rw [applyDestroy_machine]
  split_ifs
  · exact ⟨s, by rw [he], hsh⟩
  · exact ⟨s', by rw [he'], hsh'⟩

/-- The other events neither open nor unlink a segment. -/
def isQuiet : Event → Bool
  | .createPublisher .. | .createSubscription .. | .destroy _ | .die _ | .reap _ => false
  | _ => true

theorem step_quiet (hq : isQuiet ev = true) (hs : step codec st ev = some st') :
    Quiet st'.machine st.machine ∧ st'.endpoints = st.endpoints ∧ st'.named = st.named := by
  cases ev with
  | createPublisher | createSubscription | destroy | die | reap => cases hq
  | publish e data gid =>
    obtain ⟨p, _, rfl⟩ := map_eq_some_iff.mp hs
    exact ⟨publishWithGid_quiet .., rfl, rfl⟩
  | borrow i t n =>
    obtain ⟨_, rfl⟩ := whenAlive_some hs
    exact ⟨borrowLoaned_quiet .., rfl, rfl⟩
  | store i h ptr data =>
    obtain ⟨_, rfl⟩ := whenAlive_some hs
    exact ⟨storeLoaned_quiet .., rfl, rfl⟩
  | commit e ptr size =>
    obtain ⟨p, _, rfl⟩ := map_eq_some_iff.mp hs
    exact ⟨commitLoaned_quiet .., rfl, rfl⟩
  | arrive i t payload =>
    obtain ⟨_, rfl⟩ := whenAlive_some hs
    exact ⟨arrive_quiet .., rfl, rfl⟩
  | receive i t seq out =>
    obtain ⟨_, rfl⟩ := whenAlive_some hs
    exact ⟨receive_quiet .., rfl, rfl⟩
  | receiveNext i t requested out =>
    obtain ⟨_, rfl⟩ := whenAlive_some hs
    exact ⟨receiveNext_quiet .., rfl, rfl⟩
  | tick d =>
    cases hs
    exact ⟨.refl _, rfl, rfl⟩

theorem step_change (hx : AllTidy st.machine)
    (hs : step codec st ev = some st') : Change st.machine (request st ev) st'.machine := by
  cases ev with
  | createPublisher | createSubscription => exact step_created_change hx hs rfl
  | destroy e =>
    obtain ⟨p, _, rfl⟩ := map_eq_some_iff.mp hs
    obtain ⟨s, he, hsh⟩ := applyDestroy_shrunk hx e p
    rw [he]
    exact .shrunk hsh
  | die i =>
    cases hs
    exact .shrunk (newTables_shrunk _ (tables st i).nodeId (tables st i).quicTransport)
  | reap t =>
    cases hs
    exact .unlinked t
  | _ => exact .quiet (step_quiet rfl hs).1

theorem start_tidy (quicTransport : Nat → Bool) : AllTidy (start quicTransport).machine := by
  intro i
  constructor <;> simp [start, newProcess, newTables, Entry]

theorem step_tidy (hx : AllTidy st.machine) (hs : step codec st ev = some st') : AllTidy st'.machine :=
  change_tidy hx (step_change hx hs)

end RmwAxon.HostChange
