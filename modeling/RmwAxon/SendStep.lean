import RmwAxon.RetainedHistory

namespace RmwAxon.SendStep

open Qos RetainedHistory Function List
open RingBuffer (Bytes)

variable {n : Nat} {st st' : State n} {i : Fin n}

def jobsOf : Thread → List Job
  | .busy _ (.flush jobs) => jobs
  | _ => []

def callOf : Thread → Option Call
  | .idle => none
  | .busy call _ => call

def retaining : Thread → Bool
  | .busy _ .retain | .busy _ (.checkPeers _) | .busy _ (.checkPending _) | .busy _ (.push _) => true
  | _ => false

def planning : Thread → List Match
  | .busy _ (.plan valid) => valid
  | _ => []

def key (b : Job) : Nat × Nat := (b.peer, b.topic)

def ids (samples : List Sample) : List Nat := samples.map Sample.id

structure Left (new old : List Job) : Prop where
  keys : (new.map key).Sublist (old.map key)
  samples : ∀ b ∈ new, ∃ b₀ ∈ old, key b = key b₀ ∧ b.samples.Sublist b₀.samples ∧
    b.late = b₀.late

theorem Left.refl (jobs : List Job) : Left jobs jobs :=
  ⟨List.Sublist.refl _, fun b hb => ⟨b, hb, rfl, List.Sublist.refl _, rfl⟩⟩

theorem Left.nil (jobs : List Job) : Left [] jobs := ⟨List.nil_sublist _, by simp⟩

structure Still (st' st : State n) : Prop where
  sent : st'.sent = st.sent
  samples : ∀ t, (st'.tables.retainedRemoteSamples t).Sublist (st.tables.retainedRemoteSamples t)
  next : ∀ t, st.next t ≤ st'.next t
  jobs : ∀ i, Left (jobsOf (st'.threads i)) (jobsOf (st.threads i))
  call : ∀ i c, callOf (st'.threads i) = some c → callOf (st.threads i) = some c
  retaining : ∀ i, retaining (st'.threads i) = true → retaining (st.threads i) = true

theorem still_setThread {st₁ : State n} {th : Thread} (hsent : st₁.sent = st.sent)
    (hsamples : st₁.tables.retainedRemoteSamples = st.tables.retainedRemoteSamples)
    (hnext : st₁.next = st.next) (hthreads : st₁.threads = st.threads)
    (hjobs : Left (jobsOf th) (jobsOf (st.threads i)))
    (hcall : ∀ c, callOf th = some c → callOf (st.threads i) = some c)
    (hret : retaining th = true → retaining (st.threads i) = true) : Still (setThread st₁ i th) st where
  sent := hsent
  samples t := by
    simp only [setThread, hsamples]
    exact List.Sublist.refl _
  next t := by
    simp only [setThread, hnext]
    exact Nat.le_refl _
  jobs j := by
    simp only [setThread, hthreads, update_apply]
    split_ifs with hj
    · exact hj ▸ hjobs
    · exact .refl _
  call j c := by
    simp only [setThread, hthreads, update_apply]
    split_ifs with hj
    · exact hj ▸ hcall c
    · exact id
  retaining j := by
    simp only [setThread, hthreads, update_apply]
    split_ifs with hj
    · exact hj ▸ hret
    · exact id

theorem setThread_self (st : State n) (i : Fin n) (th : Thread) : (setThread st i th).threads i = th :=
  update_self ..

theorem setThread_of_ne {j : Fin n} (st : State n) (th : Thread) (hj : j ≠ i) :
    (setThread st i th).threads j = st.threads j :=
  update_of_ne hj ..

theorem retained_still {c : Call} {history : HistoryKind}
    (hth : st.threads i = .busy (some c) (.push history)) :
    Still (setThread st i (.busy (some c) .enter)) st :=
  still_setThread rfl rfl rfl rfl (.nil _) (by simp [hth, callOf]) (by simp [retaining])

structure Aside (st' st : State n) : Prop where
  sent : st'.sent = st.sent
  samples : st'.tables.retainedRemoteSamples = st.tables.retainedRemoteSamples
  next : st'.next = st.next
  threads : st'.threads = st.threads
  calls : st'.calls = st.calls
  finished : st'.finished = st.finished
  deliveries : st'.deliveries = st.deliveries
  matched : ∀ t p info, st'.matched t p = some info → st.matched t p = some info

theorem aside_tables {s : Tables} (hs : s.retainedRemoteSamples = st.tables.retainedRemoteSamples) :
    Aside { st with tables := s } st :=
  ⟨rfl, hs, rfl, rfl, rfl, rfl, rfl, fun _ _ _ h => h⟩

structure SameGhost (st' st : State n) : Prop where
  calls : st'.calls = st.calls
  finished : st'.finished = st.finished
  deliveries : st'.deliveries = st.deliveries
  matched : ∀ t p info, st'.matched t p = some info → st.matched t p = some info

inductive Change (st : State n) : Event n → State n → Prop
  | still {ev : Event n} {st' : State n} : Still st' st → SameGhost st' st → Change st ev st'
  | created (topic : Nat) (qos : QosProfile) (opened : Option Nat) :
      Change st (.create topic qos opened) { st with
        tables := createPublisher st.tables topic qos
        next := update st.next topic (opened.getD (st.next topic)) }
  | called {i : Fin n} (topic : Nat) (data : Bytes) : st.threads i = .idle →
      Change st (.publish i topic data) (beginPublish st i topic data)
  | retained {i : Fin n} {c : Call} {history : HistoryKind} (e : Entry) :
      st.threads i = .busy (some c) (.push history) →
      Change st (.act i e) (setThread
        { st with tables := retainSample st.tables c.topic c.sample history } i (.busy (some c) .enter))
  | planned {i : Fin n} {call : Option Call} {valid : List Match} (e : Entry) :
      st.threads i = .busy call (.plan valid) → Change st (.act i e) (advance st i e call (.plan valid))
  | flushed {i : Fin n} {call : Option Call} {b : Job} {rest : List Job} {s : Sample}
      {more : List Sample} (e : Entry) : st.threads i = .busy call (.flush (b :: rest)) →
      b.samples = s :: more →
      Change st (.act i e) (setThread (handOver st b.peer b.topic s true b.late) i
        (.busy call (.flush ({ b with samples := more } :: rest))))
  | lived {i : Fin n} {c : Call} (e : Entry) : st.threads i = .busy (some c) .live →
      Change st (.act i e) (setThread (sendLive st c) i .idle)

theorem afterSync_jobs (call : Option Call) : jobsOf (afterSync call) = [] := by
  cases call <;> rfl

theorem afterSync_call (call : Option Call) (c : Call) (h : callOf (afterSync call) = some c) :
    call = some c := by
  cases call with
  | none => cases h
  | some c' => exact h

theorem afterSync_retaining (call : Option Call) : retaining (afterSync call) = false := by
  cases call <;> rfl

theorem enter_samples (s : Tables) (e : Entry) :
    (enter s e).1.retainedRemoteSamples = s.retainedRemoteSamples := by
  unfold enter
  dsimp only
  split_ifs <;> rfl

variable {ev : Event n} {call : Option Call}

theorem quiet_change {point : Point} {st₁ : State n} {th : Thread}
    (hth : st.threads i = .busy call point) (ha : Aside st₁ st) (hjobs : jobsOf th = [])
    (hcall : ∀ c, callOf th = some c → call = some c)
    (hret : retaining th = true → retaining (.busy call point) = true) :
    Change st ev (setThread st₁ i th) := by
  refine .still (still_setThread ha.sent ha.samples ha.next ha.threads ?_ ?_ ?_)
    ⟨ha.calls, ha.finished, ha.deliveries, ha.matched⟩
  · rw [hjobs]
    exact .nil _
  · rw [hth]
    exact hcall
  · rw [hth]
    exact hret

theorem flushOne_change (e : Entry) {jobs : List Job} (hth : st.threads i = .busy call (.flush jobs)) :
    Change st (.act i e) (flushOne st i call jobs) := by
  cases jobs with
  | nil =>
    exact quiet_change hth (aside_tables rfl) (afterSync_jobs call) (afterSync_call call)
      (by simp [afterSync_retaining])
  | cons b rest =>
    cases hs : b.samples with
    | nil =>
      simp only [flushOne, hs]
      refine .still (still_setThread rfl rfl rfl rfl ?_ (by simp [hth, callOf]) (by simp [retaining]))
        ⟨rfl, rfl, rfl, fun _ _ _ h => h⟩
      rw [hth]
      exact ⟨sublist_cons_self _ _, fun b' hb' =>
        ⟨b', mem_cons_of_mem _ hb', rfl, List.Sublist.refl _, rfl⟩⟩
    | cons s more =>
      simp only [flushOne, hs]
      exact .flushed e hth hs

theorem advance_change (e : Entry) {point : Point} (hth : st.threads i = .busy call point) :
    Change st (.act i e) (advance st i e call point) := by
  have hidle : Change st (.act i e) (setThread st i .idle) :=
    quiet_change hth (aside_tables rfl) rfl (by simp [callOf]) (by simp [retaining])
  cases point with
  | retain =>
    cases call with
    | none => exact hidle
    | some c =>
      refine quiet_change hth (aside_tables rfl) ?_ (by simp [callOf]) (by simp [retaining])
      unfold afterQos
      split
      · rfl
      · split_ifs <;> rfl
  | checkPeers | checkPending =>
    cases call with
    | none => exact hidle
    | some c =>
      refine quiet_change hth (aside_tables rfl) ?_ (by simp [callOf]) (by simp [retaining])
      split_ifs <;> rfl
  | push history =>
    cases call with
    | none => exact hidle
    | some c => exact .retained e hth
  | live =>
    cases call with
    | none => exact hidle
    | some c => exact .lived e hth
  | enter =>
    unfold advance
    dsimp only
    cases hp : (enter st.tables e).2 with
    | none =>
      exact quiet_change hth (aside_tables (enter_samples _ _)) (afterSync_jobs call)
        (afterSync_call call) (by simp [afterSync_retaining])
    | some point =>
      obtain ⟨rest, valid, rfl⟩ : ∃ rest valid, point = .wipe rest valid := by
        unfold enter at hp
        dsimp only at hp
        split_ifs at hp <;> cases hp <;> exact ⟨_, _, rfl⟩
      exact quiet_change hth (aside_tables (enter_samples _ _)) rfl (by simp [callOf]) (by simp [retaining])
  | wipe rest valid =>
    cases rest with
    | nil =>
      simp only [advance]
      split_ifs
      · exact quiet_change hth (aside_tables rfl) (afterSync_jobs call) (afterSync_call call)
          (by simp [afterSync_retaining])
      · exact quiet_change hth (aside_tables rfl) rfl (by simp [callOf]) (by simp [retaining])
    | cons table rest =>
      refine quiet_change hth ⟨rfl, by cases table <;> rfl, rfl, rfl, rfl, rfl, rfl, ?_⟩ rfl
        (by simp [callOf]) (by simp [retaining])
      intro t p info hm
      dsimp only at hm
      split_ifs at hm
      exact hm
  | know | route => exact quiet_change hth (aside_tables rfl) rfl (by simp [callOf]) (by simp [retaining])
  | plan valid => exact .planned e hth
  | flush jobs => exact flushOne_change e hth

theorem still_tables {s : Tables} {next : Nat → Nat}
    (hsamples : ∀ t, (s.retainedRemoteSamples t).Sublist (st.tables.retainedRemoteSamples t))
    (hnext : ∀ t, st.next t ≤ next t) : Still { st with tables := s, next := next } st :=
  ⟨rfl, hsamples, hnext, fun _ => .refl _, fun _ _ h => h, fun _ h => h⟩

theorem forget_samples (s : Tables) (topic t : Nat) :
    ((forget s topic).retainedRemoteSamples t).Sublist (s.retainedRemoteSamples t) := by
  simp only [forget, setPending, setPeers, setSamples, update_apply]
  split_ifs
  · exact nil_sublist _
  · exact List.Sublist.refl _

theorem settleTask_change (k : Nat) (c : Completion) : Change st ev (settleTask st k c) := by
  unfold settleTask
  split
  all_goals
    exact .still ⟨rfl, fun _ => List.Sublist.refl _, fun _ => Nat.le_refl _, fun _ => .refl _,
      fun _ _ h => h, fun _ h => h⟩ ⟨rfl, rfl, rfl, fun _ _ _ h => h⟩

theorem le_update {next : Nat → Nat} {topic m : Nat} (hm : next topic ≤ m) (t : Nat) :
    next t ≤ update next topic m t := by
  rw [update_apply]
  split_ifs with ht
  · rw [ht]
    exact hm
  · exact Nat.le_refl _

theorem step_change (hs : step st ev = some st') : Change st ev st' := by
  cases ev with
  | create topic qos opened =>
    cases hs
    exact .created topic qos opened
  | destroy topic subscribed =>
    simp only [step] at hs
    split_ifs at hs
    cases hs
    refine .still (still_tables (fun t => ?_) fun _ => Nat.le_refl _) ⟨rfl, rfl, rfl, fun _ _ _ h => h⟩
    unfold destroyPublisher
    dsimp only
    split_ifs
    · exact List.Sublist.refl _
    · exact forget_samples _ topic t
    · exact forget_samples _ topic t
  | publish i topic data =>
    simp only [step] at hs
    split_ifs at hs with hidle
    cases hs
    exact .called topic data hidle.1
  | sync i =>
    simp only [step] at hs
    split_ifs at hs with hidle
    cases hs
    exact .still (still_setThread rfl rfl rfl rfl (.nil _) (by simp [callOf]) (by simp [retaining]))
      ⟨rfl, rfl, rfl, fun _ _ _ h => h⟩
  | act i e =>
    simp only [step] at hs
    cases hth : st.threads i with
    | idle =>
      rw [hth] at hs
      cases hs
    | busy call point =>
      rw [hth] at hs
      cases hs
      exact advance_change e hth
  | settle k =>
    obtain ⟨c, _, rfl⟩ := Option.map_eq_some_iff.mp hs
    exact settleTask_change k c
  | others topic count =>
    cases hs
    exact .still (still_tables (fun _ => List.Sublist.refl _) (le_update (Nat.le_add_right _ _)))
      ⟨rfl, rfl, rfl, fun _ _ _ h => h⟩

end RmwAxon.SendStep
