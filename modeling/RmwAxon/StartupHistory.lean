import RmwAxon.FlushPlan

namespace RmwAxon.StartupHistory

open RetainedHistory SendStep FlushPlan Transition Function List

variable {n : Nat} {st st' : State n} {i : Fin n} {topic : Nat}

/-- A retained message goes to a peer that was matched in time; and a peer that
was matched late gets no message whose publish call had returned by then. -/
structure Proper (d : Delivery) : Prop where
  startup : d.startup = true → d.late = false
  live : ∀ info, d.info = some info → info.late = true → info.finished d.sample.call = false

structure Inv (topic : Nat) (st : State n) : Prop where
  jobs : ∀ j, ∀ b ∈ jobsOf (st.threads j), b.topic = topic →
    b.late = false ∧ isLate (st.matched topic b.peer) = false
  matched : ∀ t p info, st.matched t p = some info → ∀ k, info.finished k = true → st.finished k = true
  calls : ∀ j c, callOf (st.threads j) = some c → c.sample.call < st.calls ∧
    st.finished c.sample.call = false
  distinct : ∀ j j' c c', callOf (st.threads j) = some c → callOf (st.threads j') = some c' →
    c.sample.call = c'.sample.call → j = j'
  returned : ∀ k, st.finished k = true → k < st.calls
  deliveries : ∀ d ∈ st.deliveries, d.topic = topic → Proper d

theorem same_inv (hi : Inv topic st) (hjobs : ∀ j, Left (jobsOf (st'.threads j)) (jobsOf (st.threads j)))
    (hcall : ∀ j c, callOf (st'.threads j) = some c → callOf (st.threads j) = some c)
    (hg : SameGhost st' st) : Inv topic st' where
  jobs j b hb ht := by
    obtain ⟨b₀, hb₀, hkey, _, hlate⟩ := (hjobs j).samples b hb
    have hpeer : b.peer = b₀.peer := congrArg Prod.fst hkey
    obtain ⟨hb, hm⟩ := hi.jobs j b₀ hb₀ ((congrArg Prod.snd hkey).symm.trans ht)
    refine ⟨hlate.trans hb, ?_⟩
    rw [hpeer]
    cases hm' : st'.matched topic b₀.peer with
    | none => rfl
    | some info =>
      rw [hg.matched _ _ _ hm'] at hm
      exact hm
  matched t p info hm := by
    rw [hg.finished]
    exact hi.matched t p info (hg.matched t p info hm)
  calls j c hc := by
    rw [hg.calls, hg.finished]
    exact hi.calls j c (hcall j c hc)
  distinct j j' c c' hc hc' := hi.distinct j j' c c' (hcall j c hc) (hcall j' c' hc')
  returned := by
    rw [hg.calls, hg.finished]
    exact hi.returned
  deliveries := by
    rw [hg.deliveries]
    exact hi.deliveries

theorem beginPublish_inv (hi : Inv topic st) (t : Nat) (data : RingBuffer.Bytes) :
    Inv topic (beginPublish st i t data) := by
  have hnew : ∀ j c, callOf ((beginPublish st i t data).threads j) = some c →
      (j = i ∧ c.sample.call = st.calls) ∨ (j ≠ i ∧ callOf (st.threads j) = some c) := by
    intro j c hc
    by_cases hj : j = i
    · rw [hj, beginPublish, setThread_self] at hc
      cases hc
      exact .inl ⟨hj, rfl⟩
    · rw [beginPublish, setThread_of_ne _ _ hj] at hc
      exact .inr ⟨hj, hc⟩
  refine ⟨fun j b hb => ?_, hi.matched, fun j c hc => ?_, fun j j' c c' hc hc' he => ?_, fun k hk => ?_,
    hi.deliveries⟩
  · by_cases hj : j = i
    · rw [hj, beginPublish, setThread_self] at hb
      cases hb
    · rw [beginPublish, setThread_of_ne _ _ hj] at hb
      exact hi.jobs j b hb
  · rcases hnew j c hc with ⟨_, hcall⟩ | ⟨_, hold⟩
    · rw [hcall]
      refine ⟨Nat.lt_succ_self _, eq_false_of_ne_true fun hfin => ?_⟩
      exact Nat.lt_irrefl _ (hi.returned _ hfin)
    · obtain ⟨hlt, hfin⟩ := hi.calls j c hold
      exact ⟨Nat.lt_succ_of_lt hlt, hfin⟩
  · rcases hnew j c hc with ⟨hj, hcall⟩ | ⟨_, hold⟩ <;>
      rcases hnew j' c' hc' with ⟨hj', hcall'⟩ | ⟨_, hold'⟩
    · exact hj.trans hj'.symm
    · have := (hi.calls j' c' hold').1
      omega
    · have := (hi.calls j c hold).1
      omega
    · exact hi.distinct j j' c c' hold hold' he
  · exact Nat.lt_succ_of_lt (hi.returned k hk)

def lateMatch (st : State n) (topic peer : Nat) : Bool :=
  (st.matched topic peer).elim (st.completed topic) MatchInfo.late

/-- A synchronisation finds a late match of the topic only while no sample of
the topic is retained and no flush to the peer is left. -/
def settledFirst (topic : Nat) (st : State n) : Event n → Prop
  | .act i _ => ∀ m ∈ planning (st.threads i), m.topic = topic → lateMatch st topic m.peer = true →
      st.tables.retainedRemoteSamples topic = [] ∧
        ∀ j : Fin n, ∀ b ∈ jobsOf (st.threads j), key b ≠ (m.peer, topic)
  | .create .. | .destroy .. | .publish .. | .sync _ | .settle _ | .others .. => True

theorem isLate_rematch {valid : List Match} {p : Nat} (h : isLate (rematch st valid topic p) = true) :
    lateMatch st topic p = true ∧ ∃ m ∈ valid, m.topic = topic ∧ m.peer = p := by
  unfold rematch at h
  split_ifs at h with hact
  · refine ⟨?_, ?_⟩
    · unfold lateMatch
      cases hm : st.matched topic p with
      | none | some => simpa [hm, isLate] using h
    · simp only [activePeers, mem_toFinset, mem_map, mem_filter, decide_eq_true_eq] at hact
      obtain ⟨m, ⟨hm, ht⟩, hp⟩ := hact
      exact ⟨m, hm, ht, hp⟩
  · cases h

theorem plan_inv (hi : Inv topic st) (e : Entry) {call : Option Call} {valid : List Match}
    (hth : st.threads i = .busy call (.plan valid)) (hg : settledFirst topic st (.act i e)) :
    Inv topic (advance st i e call (.plan valid)) := by
  obtain ⟨hplan, _⟩ := plan_planned st.tables (fun t p => isLate (rematch st valid t p)) valid
  have hcall : ∀ j c, callOf ((advance st i e call (.plan valid)).threads j) = some c →
      callOf (st.threads j) = some c := by
    intro j c hc
    by_cases hj : j = i
    · rw [hj, advance, setThread_self] at hc
      rw [hj, hth]
      exact hc
    · rwa [advance, setThread_of_ne _ _ hj] at hc
  have hlate : ∀ p, isLate (rematch st valid topic p) = true → st.tables.retainedRemoteSamples topic = [] ∧
        ∀ j : Fin n, ∀ b ∈ jobsOf (st.threads j), key b ≠ (p, topic) := by
    intro p hp
    obtain ⟨hlm, m, hm, ht, rfl⟩ := isLate_rematch hp
    refine hg m ?_ ht hlm
    rw [hth]
    exact hm
  refine ⟨fun j b hb ht => ?_, fun t p info hm k hk => ?_, fun j c hc => hi.calls j c (hcall j c hc),
    fun j j' c c' hc hc' => hi.distinct j j' c c' (hcall j c hc) (hcall j' c' hc'), hi.returned,
    hi.deliveries⟩
  · by_cases hj : j = i
    · rw [hj, advance, setThread_self] at hb
      have hb' := hplan b hb
      have hin : isLate (rematch st valid topic b.peer) = false := by
        refine eq_false_of_ne_true fun hp => hb'.kept ?_
        rw [ht]
        exact (hlate _ hp).1
      exact ⟨by rw [hb'.late, ht]; exact hin, hin⟩
    · rw [advance, setThread_of_ne _ _ hj] at hb
      refine ⟨(hi.jobs j b hb ht).1, eq_false_of_ne_true fun hp => ?_⟩
      exact (hlate _ hp).2 j b hb (Prod.ext rfl ht)
  · have hm' : rematch st valid t p = some info := hm
    unfold rematch at hm'
    split_ifs at hm'
    cases hold : st.matched t p with
    | none =>
      rw [hold] at hm'
      cases hm'
      exact hk
    | some old =>
      rw [hold] at hm'
      cases hm'
      exact hi.matched t p info hold k hk

theorem flush_inv (hi : Inv topic st) {call : Option Call} {b : Job} {rest : List Job} {s : Sample}
    {more : List Sample} (hth : st.threads i = .busy call (.flush (b :: rest)))
    (hs : b.samples = s :: more) :
    Inv topic (setThread (handOver st b.peer b.topic s true b.late) i
      (.busy call (.flush ({ b with samples := more } :: rest)))) := by
  have hsame : Inv topic (setThread st i (.busy call (.flush ({ b with samples := more } :: rest)))) := by
    have hstill := flushed_still hth hs
    exact same_inv hi hstill.jobs hstill.call ⟨rfl, rfl, rfl, fun _ _ _ h => h⟩
  refine ⟨hsame.jobs, hsame.matched, hsame.calls, hsame.distinct, hsame.returned, fun d hd ht => ?_⟩
  rcases mem_cons.mp hd with rfl | hd
  · obtain ⟨hlate, hinfo⟩ := hi.jobs i b (by simp [hth, jobsOf]) ht
    have htopic : b.topic = topic := ht
    refine ⟨fun _ => hlate, fun info hm hl => ?_⟩
    have hm' : st.matched topic b.peer = some info := htopic ▸ hm
    rw [hm'] at hinfo
    exact absurd hl (by simpa [isLate] using hinfo)
  · exact hi.deliveries d hd ht

theorem sendAll_inv (hi : Inv topic st) {c : Call} (hfin : st.finished c.sample.call = false)
    (peers : List Nat) : Inv topic (sendAll st c peers) := by
  induction peers generalizing st with
  | nil => exact hi
  | cons p peers ih =>
    refine ih ⟨hi.jobs, hi.matched, hi.calls, hi.distinct, hi.returned, fun d hd ht => ?_⟩ hfin
    rcases mem_cons.mp hd with rfl | hd
    · refine ⟨by simp, fun info hm _ => eq_false_of_ne_true fun hk => ?_⟩
      exact absurd (hi.matched _ _ info hm _ hk) (by simp [hfin])
    · exact hi.deliveries d hd ht

theorem sendAll_threads (st : State n) (c : Call) (peers : List Nat) :
    (sendAll st c peers).threads = st.threads := by
  induction peers generalizing st with
  | nil => rfl
  | cons p peers ih => exact ih (handOver st p c.topic c.sample false (isLate (st.matched c.topic p)))

theorem live_inv (hi : Inv topic st) {c : Call} (hth : st.threads i = .busy (some c) .live) :
    Inv topic (setThread (sendLive st c) i .idle) := by
  have hc : callOf (st.threads i) = some c := by
    rw [hth]
    rfl
  have hall := sendAll_inv hi (hi.calls i c hc).2 (livePeers st.tables c.topic)
  have hthreads := sendAll_threads st c (livePeers st.tables c.topic)
  have hc' : callOf ((sendAll st c (livePeers st.tables c.topic)).threads i) = some c := hthreads ▸ hc
  unfold sendLive
  generalize sendAll st c (livePeers st.tables c.topic) = sx at hall hc'
  have hcall : ∀ j d, callOf ((setThread { sx with
      finished := update sx.finished c.sample.call true } i .idle).threads j) = some d →
      j ≠ i ∧ callOf (sx.threads j) = some d := by
    intro j d hd
    by_cases hj : j = i
    · rw [hj, setThread_self] at hd
      cases hd
    · rw [setThread_of_ne _ _ hj] at hd
      exact ⟨hj, hd⟩
  refine ⟨fun j b hb => ?_, fun t p info hm k hk => ?_, fun j d hd => ?_, fun j j' d d' hd hd' => ?_,
    fun k hk => ?_, hall.deliveries⟩
  · by_cases hj : j = i
    · rw [hj, setThread_self] at hb
      cases hb
    · rw [setThread_of_ne _ _ hj] at hb
      exact hall.jobs j b hb
  · have hold := hall.matched t p info hm k hk
    simp only [setThread, update_apply]
    split_ifs
    · rfl
    · exact hold
  · obtain ⟨hj, hd⟩ := hcall j d hd
    obtain ⟨hlt, hfin⟩ := hall.calls j d hd
    refine ⟨hlt, ?_⟩
    simp only [setThread, update_apply]
    rw [if_neg fun he => hj (hall.distinct j i d c hd hc' he)]
    exact hfin
  · exact hall.distinct j j' d d' (hcall j d hd).2 (hcall j' d' hd').2
  · simp only [setThread, update_apply] at hk
    split_ifs at hk with he
    · rw [he]
      exact (hall.calls i c hc').1
    · exact hall.returned k hk

theorem step_inv {ev : Event n} (hi : Inv topic st) (hg : settledFirst topic st ev)
    (hs : step st ev = some st') : Inv topic st' := by
  cases step_change hs with
  | still hstill hghost => exact same_inv hi hstill.jobs hstill.call hghost
  | created t qos opened =>
    exact same_inv hi (fun _ => .refl _) (fun _ _ h => h) ⟨rfl, rfl, rfl, fun _ _ _ h => h⟩
  | called t data _ => exact beginPublish_inv hi t data
  | retained e hth =>
    have hstill := retained_still hth
    exact same_inv hi hstill.jobs hstill.call ⟨rfl, rfl, rfl, fun _ _ _ h => h⟩
  | planned e hth => exact plan_inv hi e hth hg
  | flushed e hth hsamples => exact flush_inv hi hth hsamples
  | lived e hth => exact live_inv hi hth

theorem start_inv (n topic : Nat) : Inv topic (start n) where
  jobs _ b hb := by cases hb
  matched _ _ info hm := by cases hm
  calls _ c hc := by cases hc
  distinct _ _ c _ hc := by cases hc
  returned k hk := by cases hk
  deliveries d hd := by cases hd

/-- In every run in which late matches of a topic are found only while none of
its samples is retained, no peer that is matched after a first delivery gets a
retained sample, or any sample that was published before. -/
theorem settled_first_proper (h : Reach step (settledFirst topic) (start n) st) :
    ∀ d ∈ st.deliveries, d.topic = topic → Proper d :=
  (h.invariant (I := Inv topic) (start_inv n topic) fun _ _ _ => step_inv).deliveries

def volatileOnly (topic : Nat) (_ : State n) : Event n → Prop
  | .create t qos _ => t = topic → qos.reliability = .reliable ∧ qos.durability = .volatile
  | .destroy .. | .publish .. | .sync _ | .act .. | .settle _ | .others .. => True

instance (st : State n) (ev : Event n) : Decidable (volatileOnly topic st ev) :=
  match ev with
  | .create .. | .destroy .. | .publish .. | .sync _ | .act .. | .settle _ | .others .. => by
    dsimp only [volatileOnly]
    infer_instance

def twoPeers : Entry := ⟨true, 2, 2, [⟨1, 5, 9⟩, ⟨2, 5, 10⟩]⟩

/-- The sample stays retained after the delivery, and goes to the next peer as
well. -/
theorem late_peer_gets_history :
    ¬ ∀ n topic (st : State n), Reach step (volatileOnly topic) (start n) st →
      ∀ d ∈ st.deliveries, d.topic = topic → Proper d := by
  intro hall
  have hrun : (guardedRun step (volatileOnly 5)
      (firstDelivery ++ [.sync 0] ++ replicate 8 (.act 0 twoPeers)) (start 1)).any (fun st => decide
        (∃ d ∈ st.deliveries, d.topic = 5 ∧ d.peer = 2 ∧ d.startup = true ∧ d.late = true)) = true := by
    decide +kernel
  obtain ⟨st, hst, d, hd, ht, _, hstartup, hlate⟩ := exists_of_any hrun
  have hproper := hall 1 5 st (reach_of_guardedRun hst) d hd ht
  exact absurd (hproper.startup hstartup) (by simp [hlate])

instance (st : State n) (ev : Event n) : Decidable (settledFirst topic st ev) :=
  match ev with
  | .act .. | .create .. | .destroy .. | .publish .. | .sync _ | .settle _ | .others .. => by
    dsimp only [settledFirst]
    infer_instance

/-- A second peer is matched after the first delivery, once the publisher has
been created anew, and gets what is published from then on. -/
def secondPublisher : List (Event 1) :=
  firstDelivery ++ [.destroy 5 false, .create 5 Qos.reliable none, .sync soloThread] ++
    List.replicate 8 (.act soloThread twoPeers) ++ [.publish soloThread 5 [8]] ++
    List.replicate 6 (.act soloThread twoPeers)

theorem late_peer_gets_new_samples :
    ∃ st : State 1, st.sent 1 5 = [0, 1] ∧ st.sent 2 5 = [1] ∧
      ∀ d ∈ st.deliveries, d.topic = 5 → Proper d := by
  have hrun : (guardedRun step (settledFirst 5) secondPublisher (start 1)).any
      (fun st => decide (st.sent 1 5 = [0, 1] ∧ st.sent 2 5 = [1])) = true := by decide +kernel
  obtain ⟨st, hst, hone, htwo⟩ := exists_of_any hrun
  exact ⟨st, hone, htwo, settled_first_proper (reach_of_guardedRun hst)⟩

end RmwAxon.StartupHistory
