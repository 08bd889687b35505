import RmwAxon.Generation
import RmwAxon.SessionRun

namespace RmwAxon.LateHistory

open Compress Qos Session Segment Host HostFrame HostCreate HostRun HostInv HostChange HostCount Function
open HostOnward HostEpoch Generation Transition Option
open RingBuffer (Ring oldestAvailableSeq)
open SessionRun (chatter)

variable {codec : Codec} {st st' : State}

theorem destroy_orderly (hx : AllTidy st.machine) (e : Nat) (p : Endpoint) :
    Orderly (applyDestroy st e p) st := by
  obtain ⟨s, he, hsh⟩ := applyDestroy_shrunk hx e p
  have hshm : (applyDestroy st e p).machine.shm = st.machine.shm := by rw [he]; rfl
  have hon := change_onward (r := none) (.shrunk hsh)
  rw [← he] at hon
  refine orderly_of_same hon le_rfl (fun k _ hk => ?_) rfl rfl (fun g _ => ?_) fun g hg hg' =>
    absurd (hshm ▸ hg') hg
  · intro hnone
    apply hk
    simp only [applyDestroy]
    generalize (if p.publisher then _ else _ : Except SessionError Unit × Machine) = r
    split_ifs
    · rw [update_apply]
      split_ifs
      · rfl
      · exact hnone
    · exact hnone
  · rw [ring, hshm]
    rfl

variable {ev : Event}

theorem step_orderly (h : Inv st) (hok : keepsGeneration st ev)
    (hs : step codec st ev = some st') : Orderly st' st := by
  cases ev with
  | createPublisher os env i topic qos =>
    obtain ⟨_, rfl⟩ := whenAlive_some hs
    exact createPublisher_orderly h os env i topic qos hok _
  | createSubscription os env allowed i topic qos =>
    obtain ⟨_, rfl⟩ := whenAlive_some hs
    exact createSubscription_orderly h.tidy os env allowed i topic qos _
  | destroy e =>
    obtain ⟨p, _, rfl⟩ := map_eq_some_iff.mp hs
    exact destroy_orderly h.tidy e p
  | publish e data gid =>
    obtain ⟨p, hp, rfl⟩ := map_eq_some_iff.mp hs
    exact publish_orderly h hp data gid
  | borrow i t n =>
    obtain ⟨_, rfl⟩ := whenAlive_some hs
    exact orderly_of_quiet (borrowLoaned_quiet ..) rfl rfl rfl rfl (borrowLoaned_epochs st.machine i t n)
  | store i k ptr data =>
    obtain ⟨_, rfl⟩ := whenAlive_some hs
    exact orderly_of_quiet (storeLoaned_quiet ..) rfl rfl rfl rfl (setRing_epochs rfl)
  | commit e ptr size =>
    obtain ⟨p, hp, rfl⟩ := map_eq_some_iff.mp hs
    exact commit_orderly h hp ptr size hok
  | arrive i t payload =>
    obtain ⟨_, rfl⟩ := whenAlive_some hs
    refine orderly_of_quiet (arrive_quiet ..) rfl rfl rfl rfl fun g => ?_
    simp only [applyArrival, Host.arrive]
    split <;> rfl
  | receive i t seq out =>
    obtain ⟨_, rfl⟩ := whenAlive_some hs
    exact orderly_of_quiet (receive_quiet ..) rfl rfl rfl rfl
      (receive_epochs codec (world st.machine i) st.clock t seq out)
  | receiveNext i t requested out =>
    obtain ⟨_, rfl⟩ := whenAlive_some hs
    exact orderly_of_quiet (receiveNext_quiet ..) rfl rfl rfl rfl
      (received_epochs (SessionFrame.receiveNext_received ..))
  | tick d =>
    cases hs
    exact orderly_of_quiet (.refl _) rfl rfl rfl rfl (.refl _)
  | die i =>
    cases hs
    exact die_orderly h i hok
  | reap t =>
    cases hs
    exact orderly_of_same (change_onward (r := none) (.unlinked t)) le_rfl (fun _ _ h => h) rfl rfl
      (fun _ _ => rfl) fun _ hg hg' => absurd hg' hg

theorem step_loansBelow (hx : AllTidy st.machine) (h : LoansBelow st.machine)
    (hs : step codec st ev = some st') : LoansBelow st'.machine := by
  have ho := change_onward (step_change hx hs)
  have hsame (hl : ∀ j, (st'.machine.processes j).loans = (st.machine.processes j).loans) :
      LoansBelow st'.machine :=
    loansBelow_of_onward hx h ho fun j k ptr s hk => .inl (hl j ▸ hk)
  cases ev with
  | createPublisher | createSubscription =>
    obtain ⟨_, _, _, _, rfl, hc⟩ := step_created hx hs rfl
    refine hsame fun j => ?_
    rw [addEndpoint_machine]
    cases hc with
    | failed hf => rcases hf with rfl | rfl <;> rfl
    | attached ha =>
      rw [put_loans]
      cases ha with
      | reuse => rfl
      | fresh =>
        simp only [attached, update_apply]
        split_ifs with hj
        · rw [hj]
        · rfl
  | destroy e =>
    obtain ⟨p, _, rfl⟩ := map_eq_some_iff.mp hs
    refine hsame fun j => ?_
    rw [applyDestroy_machine, put_loans]
  | borrow i t n =>
    obtain ⟨_, rfl⟩ := whenAlive_some hs
    exact borrowLoaned_loansBelow hx h i t n
  | commit e ptr size =>
    obtain ⟨p, _, rfl⟩ := map_eq_some_iff.mp hs
    exact loansBelow_of_onward hx h ho fun _ _ _ _ hl => .inl (commitLoaned_loans hl)
  | arrive i t payload =>
    obtain ⟨_, rfl⟩ := whenAlive_some hs
    refine hsame fun j => ?_
    simp only [applyArrival, Host.arrive]
    split
    · rfl
    · exact put_loans ..
  | publish =>
    obtain ⟨p, _, rfl⟩ := map_eq_some_iff.mp hs
    exact hsame fun j => put_loans ..
  | store | receive | receiveNext =>
    obtain ⟨_, rfl⟩ := whenAlive_some hs
    exact hsame fun j => put_loans ..
  | tick | reap =>
    cases hs
    exact hsame fun j => rfl
  | die i =>
    cases hs
    refine hsame fun j => ?_
    simp only [applyDeath, die, update_apply]
    split_ifs with hj
    · rw [hj]
    · rfl

theorem step_inv (h : Inv st) (hok : keepsGeneration st ev) (hs : step codec st ev = some st') : Inv st' :=
  orderly_inv h (step_orderly h hok hs) (step_tidy h.tidy hs) (step_counted h.counted h.tidy hs)
    (step_loansBelow h.tidy h.loans hs)

theorem start_inv (quicTransport : Nat → Bool) : Inv (start quicTransport) := by
  refine ⟨start_tidy quicTransport, start_counted quicTransport, ?_, ?_, ?_, ?_, ?_⟩
  · intro i h ptr s hs
    cases hs
  · intro g hg
    cases hg
  · intro g s f hf
    cases hf
  · intro g s f hf
    cases hf
  · intro g s f hf
    cases hf

/-- In every run that keeps the generations of its rings in order, a late
subscription to retained messages starts after the frames of dead processes
and before those of live publishers. -/
theorem orderly_initial_seq {quicTransport : Nat → Bool}
    (h : Reach (step codec) keepsGeneration (start quicTransport) st) {os : Os} {env : Option Nat}
    {allowed : Bool} {i : Nat} {topic : Topic} {qos : QosProfile} {s₀ : Nat} {x' : Machine}
    (hd : qos.durability = .transientLocal)
    (hc : Host.createSubscription os env allowed st.machine i topic qos = (.ok s₀, x')) :
    ∃ k, (x'.processes i).tables.subscriptions topic.hash = some k ∧
      ∀ s f, st.frames ((x'.processes i).handles k).segment s = some f →
        (st.alive f.session = false → s < s₀) ∧
        (st.endpoints f.publisher ≠ none →
          oldestAvailableSeq (x'.shm.rings ((x'.processes i).handles k).segment) ≤ s → s₀ ≤ s) := by
  have hi := h.invariant (I := Inv) (start_inv quicTransport) fun _ _ _ => step_inv
  rcases createSubscription_cases os env allowed st.machine i topic qos fun k hk =>
    existing_created hi.tidy (existingSubscription_entry hk) with ⟨er, x₂, he, _⟩ | ⟨k, x₁, ha, he⟩
  · rw [he] at hc
    cases hc
  rw [he, initialSeq, if_pos hd] at hc
  cases hc
  refine ⟨k, ?_, fun s f hf => ?_⟩
  · simp [put, addSubscription]
  simp only [put, update_self] at hf ⊢
  have hg := (hi.frame _ s f hf).1
  have hring : ringOf (world x₁ i) k = ring st ((x₁.processes i).handles k).segment :=
    attach_rings ha hg
  refine ⟨fun hdead => ?_, fun hlive hold => ?_⟩
  · rw [hring]
    exact hi.dead _ s f hf hdead
  · have hold : oldestAvailableSeq (ringOf (world x₁ i) k) ≤ s := hold
    rw [hring] at hold ⊢
    exact max_le hold (hi.live _ s f hf hlive hold)

def latched : QosProfile := { defaultSensor with durability := .transientLocal }

/-- Session 0 has published, then session 1 creates its first publisher of
the topic and marks the ring that both use. -/
def secondPublisher : List Event :=
  [.createPublisher roomyOs none 0 chatter latched, .publish 0 [7] 0,
    .createPublisher roomyOs none 1 chatter latched]

theorem live_frame_excluded :
    ¬ ∀ codec quicTransport st os env allowed i topic qos s₀ x' k s f,
      Reach (step codec) anyStep (start quicTransport) st → qos.durability = .transientLocal →
      Host.createSubscription os env allowed st.machine i topic qos = (.ok s₀, x') →
      (x'.processes i).tables.subscriptions topic.hash = some k →
      st.frames ((x'.processes i).handles k).segment s = some f →
      (st.alive f.session = false → s < s₀) ∧
      (st.endpoints f.publisher ≠ none →
        oldestAvailableSeq (x'.shm.rings ((x'.processes i).handles k).segment) ≤ s → s₀ ≤ s) := by
  intro hall
  have hrun : (run (step plain) secondPublisher (start fun _ => false)).any (fun st =>
      let r := Host.createSubscription roomyOs none true st.machine 2 chatter latched
      decide (r.1 = .ok 1 ∧ (r.2.processes 2).tables.subscriptions 5 = some 0 ∧
        st.frames ((r.2.processes 2).handles 0).segment 0 = some ⟨0, 0, 5, latched, 0, false⟩ ∧
        st.endpoints 0 ≠ none ∧
        oldestAvailableSeq (r.2.shm.rings ((r.2.processes 2).handles 0).segment) = 0)) = true := by
    decide +kernel
  obtain ⟨st, hst, hok, hk, hf, hlive, hold⟩ := exists_of_any hrun
  have h := (hall plain _ st roomyOs none true 2 chatter latched 1 _ 0 0 _
    (reach_of_run hst fun _ _ _ => trivial) rfl (Prod.ext hok rfl) hk hf).2 hlive hold.le
  simp at h

instance (st : State) (ev : Event) : Decidable (keepsGeneration st ev) := by
  unfold keepsGeneration
  split <;> infer_instance

/-- The publisher of session 0 is gone when session 1 marks the ring, and
session 0 ends after that. -/
def relaunch : List Event :=
  [.createPublisher roomyOs none 0 chatter latched, .publish 0 [7] 0, .destroy 0,
    .createPublisher roomyOs none 1 chatter latched, .die 0, .publish 1 [8] 0]

theorem relaunched_initial_seq :
    ∃ (st : State) (s₀ : Nat) (x' : Machine),
      Host.createSubscription roomyOs none true st.machine 2 chatter latched = (.ok s₀, x') ∧
      st.alive 0 = false ∧ 0 < s₀ ∧ s₀ ≤ 1 := by
  have hrun : (guardedRun (step plain) keepsGeneration relaunch (start fun _ => false)).any (fun st =>
      let r := Host.createSubscription roomyOs none true st.machine 2 chatter latched
      decide (r.1 = .ok 1 ∧ (r.2.processes 2).tables.subscriptions 5 = some 0 ∧
        st.frames ((r.2.processes 2).handles 0).segment 0 = some ⟨0, 0, 5, latched, 0, false⟩ ∧
        st.frames ((r.2.processes 2).handles 0).segment 1 = some ⟨1, 1, 5, latched, 0, false⟩ ∧
        st.alive 0 = false ∧ st.endpoints 1 ≠ none ∧
        oldestAvailableSeq (r.2.shm.rings ((r.2.processes 2).handles 0).segment) = 0)) = true := by
    decide +kernel
  obtain ⟨st, hst, hok, hk, hf₀, hf₁, hdead, hlive, hold⟩ := exists_of_any hrun
  have hc : Host.createSubscription .. = (.ok 1, _) := Prod.ext hok rfl
  obtain ⟨k, hk', hall⟩ := orderly_initial_seq (reach_of_guardedRun hst) rfl hc
  cases hk.symm.trans hk'
  exact ⟨st, 1, _, hc, hdead, (hall 0 _ hf₀).1 hdead, (hall 1 _ hf₁).2 hlive (hold.le.trans (Nat.zero_le _))⟩

end RmwAxon.LateHistory
