import RmwAxon.HostOnward

namespace RmwAxon.HostStamp

open Compress Session Host HostFrame HostCreate HostRun HostInv HostChange HostOnward Function Option
open RingBuffer (Bytes Ring oldestAvailableSeq slotCount)

def stampOf (st : State) (i t s : Nat) : Option Nat := (tables st i).messageTimestamps t s

def Newest (st : State) (i t g : Nat) : Prop :=
  ∀ k, k < (st.machine.processes i).opened → st.machine.shm.channel (segment st i k) = t →
    segment st i k ≤ g

/-- A session opened the segments that it published on, and it has a timestamp
for each message that it published on the newest one and that is retained. -/
structure Stamped (st : State) : Prop where
  home : ∀ g s f, st.frames g s = some f → f.loaned = false →
    ∃ k, k < (st.machine.processes f.session).opened ∧ segment st f.session k = g ∧
      st.machine.shm.channel g = f.topic
  below : ∀ g s f, st.frames g s = some f → f.loaned = false →
    s < (st.machine.shm.rings g).writeIndex
  stamp : ∀ g s f, st.frames g s = some f → f.loaned = false → st.alive f.session = true →
    Newest st f.session f.topic g → oldestAvailableSeq (st.machine.shm.rings g) ≤ s →
    stampOf st f.session f.topic s = some f.time

structure Calm (st' st : State) : Prop where
  onward : Onward st'.machine st.machine
  frames : ∀ g s f, st'.frames g s = some f → f.loaned = false → st.frames g s = some f
  alive : ∀ i, st'.alive i = true → st.alive i = true
  stamps : ∀ i t s, st'.alive i = true → (∀ h, Entry (tables st i) t h →
    oldestAvailableSeq (st'.machine.shm.rings (segment st i h)) ≤ s) →
    stampOf st' i t s = stampOf st i t s

variable {st st' : State} {i t g s : Nat} {f : Frame}

theorem newest_of_onward (hx : AllTidy st.machine) (ho : Onward st'.machine st.machine)
    (hn : Newest st' i t g) : Newest st i t g := by
  intro k hk hch
  have hseg : segment st' i k = segment st i k := ho.segments i k hk
  rw [← hseg]
  refine hn k (hk.trans_le (ho.opened i)) ?_
  rw [hseg]
  exact (ho.channel _ ((hx i).created k hk)).trans hch

variable {h k n : Nat}

theorem entry_newest (hx : AllTidy st.machine) (he : Entry (tables st i) t h)
    (hn : Newest st i t g) (hk : k < (st.machine.processes i).opened) (hseg : segment st i k = g)
    (hch : st.machine.shm.channel g = t) : segment st i h = g := by
  refine Nat.le_antisymm (hn h ((hx i).named t h he) ((hx i).channel t h he)) ?_
  subst hseg
  exact (hx i).latest t h k he hk hch

theorem Stamped.created (h : Stamped st) (hx : AllTidy st.machine) (hf : st.frames g s = some f)
    (hl : f.loaned = false) : g < st.machine.shm.created := by
  obtain ⟨k, hk, rfl, _⟩ := h.home g s f hf hl
  exact (hx f.session).created k hk

theorem Stamped.onward (h : Stamped st) (hx : AllTidy st.machine)
    (ho : Onward st'.machine st.machine) (hf : st.frames g s = some f) (hl : f.loaned = false) :
    (∃ k, k < (st'.machine.processes f.session).opened ∧ segment st' f.session k = g ∧
      st'.machine.shm.channel g = f.topic) ∧ s < (st'.machine.shm.rings g).writeIndex := by
  have hg := h.created hx hf hl
  obtain ⟨k, hk, hseg, hch⟩ := h.home g s f hf hl
  exact ⟨⟨k, hk.trans_le (ho.opened _), (ho.segments _ k hk).trans hseg, (ho.channel g hg).trans hch⟩,
    (h.below g s f hf hl).trans_le (ho.rings g hg).writeIndex⟩

theorem calm_stamped (hx : AllTidy st.machine) (h : Stamped st) (hc : Calm st' st) : Stamped st' := by
  constructor
  · intro g s f hf hl
    exact (h.onward hx hc.onward (hc.frames g s f hf hl) hl).1
  · intro g s f hf hl
    exact (h.onward hx hc.onward (hc.frames g s f hf hl) hl).2
  intro g s f hf hl halive hn hold
  have hf := hc.frames g s f hf hl
  have hn := newest_of_onward hx hc.onward hn
  obtain ⟨k, hk, hseg, hch⟩ := h.home g s f hf hl
  rw [hc.stamps f.session f.topic s halive fun k' he => ?_]
  · exact h.stamp g s f hf hl (hc.alive _ halive) hn
      ((oldest_mono (hc.onward.rings g (h.created hx hf hl))).trans hold)
  · rw [entry_newest hx he hn hk hseg hch]
    exact hold

theorem calm_of_change {r : Option Request} (hc : Change st.machine r st'.machine)
    (hf : st'.frames = st.frames) (ha : st'.alive = st.alive)
    (hs : ∀ i, (tables st' i).messageTimestamps = (tables st i).messageTimestamps) :
    Calm st' st :=
  ⟨change_onward hc, fun _ _ _ h _ => hf ▸ h, fun _ h => ha ▸ h,
    fun i t s _ _ => congrFun (congrFun (hs i) t) s⟩

theorem calm_of_pruned {w : World} (hm : st'.machine = put st.machine i w)
    (hq : Quiet st'.machine st.machine) (hf : st'.frames = st.frames) (ha : st'.alive = st.alive)
    (hw : Pruned w (world st.machine i) t) : Calm st' st := by
  refine ⟨change_onward (r := none) (.quiet hq), fun _ _ _ h _ => hf ▸ h, fun _ h => ha ▸ h,
    fun j u s _ hold => ?_⟩
  rw [stampOf, tables, hm, put_tables]
  split_ifs with hj
  · subst hj
    rcases hw with hw | ⟨h, hh, hw⟩
    · rw [hw]
      rfl
    rw [hw, update_apply]
    split_ifs with hu
    · subst hu
      exact if_pos ((oldest_mono (hq.rings _)).trans (hold h (.inr hh)))
    · rfl
  · rfl

structure Published (st' st : State) (i t h n : Nat) (f : Frame) : Prop where
  entry : (tables st i).publishers t = some h
  number : n = (st.machine.shm.rings (segment st i h)).writeIndex
  onward : Onward st'.machine st.machine
  next : (st'.machine.shm.rings (segment st i h)).writeIndex = n + 1
  frames : st'.frames = update st.frames (segment st i h)
    (update (st.frames (segment st i h)) n (some f))
  alive : st'.alive = st.alive
  stamped : stampOf st' i t n = some st.clock
  stamps : ∀ j u s, (j = i → u = t →
    s ≠ n ∧ oldestAvailableSeq (st'.machine.shm.rings (segment st i h)) ≤ s) →
    stampOf st' j u s = stampOf st j u s

theorem applyPublish_cases (st : State) (e : Nat) (p : Endpoint) (data : Bytes) (gid : Nat) :
    applyPublish st e p data gid = st ∨
    ∃ h n, Published (applyPublish st e p data gid) st p.session p.topic h n (frameOf st e p false) := by
  have hq := publishWithGid_quiet st.machine p.session p.topic st.clock data gid
  rcases publishWithGid_cases (world st.machine p.session) p.topic st.clock data gid with ⟨er, he⟩ |
    ⟨h, r, gids, hp, hw, he⟩
  · left
    simp only [applyPublish, Host.publishWithGid, he, put_world, recordFrame, Except.toOption]
    split
    · rename_i hs
      cases hs
    · rfl
  · right
    have hnext : r.writeIndex = (ringOf (world st.machine p.session) h).writeIndex + 1 := by
      obtain ⟨-, _, k, rfl⟩ := RingHistory.write_ok hw
      simp
    have hring : (applyPublish st e p data gid).machine.shm.rings (segment st p.session h) = r := by
      rcases he with he | he
      all_goals
        simp only [applyPublish, Host.publishWithGid, he]
        exact update_self (β := fun _ => Ring) (segment st p.session h) r _
    refine ⟨h, _, ⟨hp, rfl, change_onward (r := none) (.quiet hq), ?_, ?_, rfl, ?_, ?_⟩⟩
    · rw [hring, hnext]
      rfl
    · have hp : (tables st p.session).publishers p.topic = some h := hp
      rcases he with he | he
      all_goals
        simp only [applyPublish, Host.publishWithGid, he, recordFrame, hp, Except.toOption]
        rfl
    · have hold : oldestAvailableSeq r ≤ (ringOf (world st.machine p.session) h).writeIndex := by
        have := r.geometry.slotCount_pos
        simp only [oldestAvailableSeq, RingBuffer.currentSeq, slotCount, hnext]
        omega
      rcases he with he | he
      all_goals simp only [stampOf, tables, applyPublish, Host.publishWithGid, he, put_tables, if_true]
      · exact stamped_new ..
      · exact (pruneTopic_stamp fun _ => hold).trans (stamped_new ..)
    · intro j u s hs
      rcases he with he | he
      all_goals
        simp only [stampOf, tables, applyPublish, Host.publishWithGid, he, put_tables]
        split_ifs with hj
      · subst hj
        exact stamped_old fun hu => (hs rfl hu).1
      · rfl
      · subst hj
        rw [hring] at hs
        exact (pruneTopic_stamp fun hu => (hs rfl hu).2).trans (stamped_old fun hu => (hs rfl hu).1)
      · rfl

theorem Published.frame_cases {f₀ : Frame} (hp : Published st' st i t h n f₀) (hf : st'.frames g s = some f) :
    (g = segment st i h ∧ s = n ∧ f = f₀) ∨ ((g = segment st i h → s ≠ n) ∧ st.frames g s = some f) := by
  rw [hp.frames, update_apply] at hf
  split_ifs at hf with hg
  · rw [update_apply] at hf
    split_ifs at hf with hs
    · exact .inl ⟨hg, hs, (some.inj hf).symm⟩
    · exact .inr ⟨fun _ => hs, hg ▸ hf⟩
  · exact .inr ⟨fun h => absurd h hg, hf⟩

theorem published_stamped (hx : AllTidy st.machine) (h : Stamped st) {f₀ : Frame}
    (hp : Published st' st i t k n f₀) (hf₀ : f₀.session = i ∧ f₀.topic = t ∧ f₀.time = st.clock) :
    Stamped st' := by
  obtain ⟨hi, ht, htime⟩ := hf₀
  have hk : k < (st.machine.processes i).opened := (hx i).named t k (.inl hp.entry)
  refine ⟨fun g s f hf hl => ?_, fun g s f hf hl => ?_, fun g s f hf hl ha hn hold => ?_⟩
  · rcases hp.frame_cases hf with ⟨rfl, rfl, rfl⟩ | ⟨_, hf⟩
    · subst hi ht
      refine ⟨k, hk.trans_le (hp.onward.opened _), hp.onward.segments _ k hk, ?_⟩
      exact (hp.onward.channel _ ((hx _).created k hk)).trans ((hx _).channel _ k (.inl hp.entry))
    · exact (h.onward hx hp.onward hf hl).1
  · rcases hp.frame_cases hf with ⟨rfl, rfl, rfl⟩ | ⟨_, hf⟩
    · rw [hp.next]
      exact Nat.lt_succ_self _
    · exact (h.onward hx hp.onward hf hl).2
  · rcases hp.frame_cases hf with ⟨rfl, rfl, rfl⟩ | ⟨hne, hf⟩
    · rw [hi, ht, htime]
      exact hp.stamped
    · have hn := newest_of_onward hx hp.onward hn
      obtain ⟨k', hk', hseg, hch⟩ := h.home g s f hf hl
      rw [hp.stamps f.session f.topic s fun hfi hft => ?_]
      · exact h.stamp g s f hf hl (hp.alive ▸ ha) hn
          ((oldest_mono (hp.onward.rings g (h.created hx hf hl))).trans hold)
      -- the message is on the ring that was published on, under another number
      subst hfi hft
      have hg := entry_newest hx (.inl hp.entry) hn hk' hseg hch
      exact ⟨hne hg.symm, hg ▸ hold⟩

theorem step_stamped {codec : Codec} {ev : Event} (hx : AllTidy st.machine) (h : Stamped st)
    (hs : step codec st ev = some st') : Stamped st' := by
  have hc := step_change hx hs
  cases ev with
  | createPublisher | createSubscription =>
    obtain ⟨_, _, _, _, rfl, hmade⟩ := step_created hx hs rfl
    exact calm_stamped hx h (calm_of_change hc (addEndpoint_kept ..).frames (addEndpoint_kept ..).alive
      (created_stamps hmade (addEndpoint_machine ..)))
  | destroy e =>
    obtain ⟨p, _, rfl⟩ := map_eq_some_iff.mp hs
    exact calm_stamped hx h (calm_of_change hc rfl rfl (applyDestroy_stamps st e p))
  | publish e data gid =>
    obtain ⟨p, _, rfl⟩ := map_eq_some_iff.mp hs
    rcases applyPublish_cases st e p data gid with he | ⟨k, n, hp⟩
    · rw [he]
      exact h
    · exact published_stamped hx h hp ⟨rfl, rfl, rfl⟩
  | borrow i t n =>
    obtain ⟨_, rfl⟩ := whenAlive_some hs
    exact calm_stamped hx h (calm_of_change hc rfl rfl fun j =>
      congrArg Tables.messageTimestamps (borrowLoaned_tables st.machine i t n j))
  | store i h' ptr data =>
    obtain ⟨_, rfl⟩ := whenAlive_some hs
    exact calm_stamped hx h (calm_of_change hc rfl rfl fun j =>
      congrArg Tables.messageTimestamps (setRing_tables st.machine i h' _ j))
  | commit e ptr size =>
    obtain ⟨p, _, rfl⟩ := map_eq_some_iff.mp hs
    refine calm_stamped hx h ⟨change_onward hc, fun g s f hf hl => ?_, fun _ => id, fun j t s _ _ => ?_⟩
    · rcases recordFrame_cases hf with hf | ⟨rfl, _⟩
      · exact hf
      · cases hl
    · exact congrArg (fun s' => s'.messageTimestamps t s)
        (commitLoaned_tables st.machine p.session p.topic ptr size j)
  | arrive i t payload =>
    obtain ⟨_, rfl⟩ := whenAlive_some hs
    exact calm_stamped hx h (calm_of_change hc rfl rfl fun j => arrive_stamps ..)
  | receive i t seq out =>
    obtain ⟨_, rfl⟩ := whenAlive_some hs
    exact calm_stamped hx h (calm_of_pruned rfl (receive_quiet ..) rfl rfl (receive_pruned ..))
  | receiveNext i t requested out =>
    obtain ⟨_, rfl⟩ := whenAlive_some hs
    exact calm_stamped hx h (calm_of_pruned rfl (receiveNext_quiet ..) rfl rfl
      (received_pruned (SessionFrame.receiveNext_received ..)))
  | tick | reap =>
    cases hs
    exact calm_stamped hx h (calm_of_change hc rfl rfl fun _ => rfl)
  | die i =>
    cases hs
    refine calm_stamped hx h ⟨change_onward hc, fun _ _ _ hf _ => hf, fun j hj => ?_, fun j t s hj _ => ?_⟩
    · simp only [applyDeath, update_apply] at hj
      split_ifs at hj
      exact hj
    · simp only [applyDeath, update_apply] at hj
      split_ifs at hj with hji
      simp only [stampOf, tables, applyDeath, die, update_of_ne hji]

end RmwAxon.HostStamp
