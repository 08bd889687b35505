import RmwAxon.FlushPlan

namespace RmwAxon.SendOrder

open RetainedHistory SendStep SendInv FlushPlan Transition List

variable {n : Nat} {st st' : State n} {i : Fin n}

theorem livePeers_nodup (s : Tables) (topic : Nat) : (livePeers s topic).Nodup := by
  unfold livePeers
  generalize s.remoteRoutes topic = addrs
  have hall : ∀ seen : List Nat, seen.Nodup → (addrs.foldl (addPeer s.knownAddrs) seen).Nodup := by
    induction addrs with
    | nil => exact fun seen h => h
    | cons addr addrs ih =>
      refine fun seen h => ih _ ?_
      unfold addPeer
      split
      · exact h
      split_ifs with hin
      · exact h
      · exact nodup_append.mpr ⟨h, nodup_singleton _, fun a ha b hb => by
          rw [mem_singleton.mp hb]
          exact fun he => hin (he ▸ ha)⟩
  exact hall [] nodup_nil

theorem sendAll_inv (hi : Inv st) {c : Call} (hnext : c.sample.id < st.next c.topic)
    (hjobs : ∀ j, ∀ b ∈ jobsOf (st.threads j), b.topic ≠ c.topic)
    (hcalls : ∀ j c', callOf (st.threads j) = some c' → c'.topic ≠ c.topic) {peers : List Nat}
    (hnodup : peers.Nodup) (hsent : ∀ p ∈ peers, ∀ m ∈ st.sent p c.topic, m < c.sample.id) :
    Inv (sendAll st c peers) := by
  induction peers generalizing st with
  | nil => exact hi
  | cons p peers ih =>
    obtain ⟨hp, hnodup⟩ := nodup_cons.mp hnodup
    refine ih (handOver_inv hi _ _ hnext (hsent p mem_cons_self) (fun j b hb hkey => ?_)
      fun j c' hc' ht => absurd ht (hcalls j c' hc')) hnext hjobs hcalls hnodup fun p' hp' m hm => ?_
    · exact absurd (congrArg Prod.snd hkey) (hjobs j b hb)
    · have hne : p' ≠ p := fun he => hp (he ▸ hp')
      rw [handOver_sent, if_neg (fun hpt => hne hpt.1)] at hm
      exact hsent p' (mem_cons_of_mem _ hp') m hm

theorem sendAll_setThread (st : State n) (i : Fin n) (th : Thread) (c : Call) (peers : List Nat) :
    sendAll (setThread st i th) c peers = setThread (sendAll st c peers) i th := by
  induction peers generalizing st with
  | nil => rfl
  | cons p peers ih => exact ih (handOver st p c.topic c.sample false (isLate (st.matched c.topic p)))

theorem live_inv (hi : Inv st) {c : Call} (hth : st.threads i = .busy (some c) .live) :
    Inv (setThread (sendLive st c) i .idle) := by
  have hl := hi.calls i c (by rw [hth]; rfl)
  have hstill : Still (setThread st i .idle) st :=
    still_setThread rfl rfl rfl rfl (.nil _) (by simp [callOf]) (by simp [retaining])
  have hjobs : ∀ j, ∀ b ∈ jobsOf ((setThread st i .idle).threads j), b.topic ≠ c.topic := by
    intro j b hb ht
    obtain ⟨b₀, hb₀, hkey, _, _⟩ := (hstill.jobs j).samples b hb
    obtain ⟨rfl, _⟩ := hl.jobs j b₀ hb₀ ((congrArg Prod.snd hkey).symm.trans ht)
    rw [setThread_self] at hb
    cases hb
  have hcalls : ∀ j c', callOf ((setThread st i .idle).threads j) = some c' → c'.topic ≠ c.topic := by
    intro j c' hc' ht
    obtain rfl := hl.only j c' (hstill.call j c' hc') ht
    rw [setThread_self] at hc'
    cases hc'
  have hall := sendAll_inv (still_inv hstill hi) hl.below hjobs hcalls (livePeers_nodup st.tables c.topic)
    fun p _ => hl.sent p
  rw [sendAll_setThread] at hall
  have hdone : Still (setThread (sendLive st c) i .idle)
      (setThread (sendAll st c (livePeers st.tables c.topic)) i .idle) :=
    ⟨rfl, fun _ => List.Sublist.refl _, fun _ => Nat.le_refl _, fun _ => .refl _, fun _ _ h => h,
      fun _ h => h⟩
  exact still_inv hdone hall

/-- Publish calls on a topic do not overlap, neither with each other nor with a
flush of the topic; a flush is planned only for peers to which nothing has
gone on the topic, and not between the moment a publish call has retained its
sample and the moment it sends it; and a ring that replaces another one goes
on with its numbers. -/
def orderly (st : State n) : Event n → Prop
  | .create topic _ opened => ∀ r ∈ opened, st.next topic ≤ r
  | .publish _ topic _ => ∀ j : Fin n, (∀ c ∈ callOf (st.threads j), c.topic ≠ topic) ∧
      ∀ b ∈ jobsOf (st.threads j), b.topic ≠ topic
  | .act i _ => ∀ m ∈ planning (st.threads i), newPeer st.tables m → undisturbed st i m
  | .destroy .. | .sync _ | .settle _ | .others .. => True

theorem step_inv {ev : Event n} (hi : Inv st) (hg : orderly st ev) (hs : step st ev = some st') :
    Inv st' := by
  cases step_change hs with
  | still hstill _ => exact still_inv hstill hi
  | created topic qos opened =>
    refine still_inv (still_tables (fun t => ?_) (le_update ?_)) hi
    · unfold createPublisher
      dsimp only
      split_ifs
      · exact forget_samples _ topic t
      · exact List.Sublist.refl _
    cases opened with
    | none => exact Nat.le_refl _
    | some r => exact hg r rfl
  | called topic data hidle =>
    exact beginPublish_inv hi hidle data (fun j c hc => (hg j).1 c hc) fun j b hb => (hg j).2 b hb
  | retained e hth => exact push_inv hi hth
  | planned e hth =>
    obtain ⟨hjobs, hkeys⟩ := plan_planned st.tables (fun t p => isLate (rematch st _ t p)) _
    refine flushing_inv hi hth ?_ rfl rfl rfl rfl hjobs hkeys
    simpa only [orderly, hth, planning] using hg
  | flushed e hth hsamples => exact flushSend_inv hi hth hsamples
  | lived e hth => exact live_inv hi hth

theorem start_inv (n : Nat) : Inv (start n) where
  sorted _ _ := List.Pairwise.nil
  below _ _ m hm := by cases hm
  samples _ := List.Pairwise.nil
  retained _ m hm := by cases hm
  jobs _ b hb := by cases hb
  apart _ := List.nodup_nil
  calls _ c hc := by cases hc

/-- In every run of orderly steps the numbers handed to the pipeline of a peer
and a topic are strictly increasing. -/
theorem orderly_strictly_increasing (h : Reach step orderly (start n) st) (peer topic : Nat) :
    (st.sent peer topic).Pairwise (· < ·) :=
  (h.invariant (I := Inv) (start_inv n) fun _ _ _ => step_inv).sorted peer topic

/-- A publish call retains its sample, finds a peer in its own synchronisation,
flushes the sample to it and then sends it as a live message. -/
def ownSample : List (Event 1) :=
  [.create 5 Qos.reliable none, .publish soloThread 5 [7]] ++ List.replicate 15 (.act soloThread onePeer)

theorem own_sample_sent_twice :
    ¬ ∀ n (st : State n) (peer topic : Nat), Reach step anyStep (start n) st →
      (st.sent peer topic).Pairwise (· < ·) := by
  intro hall
  have hrun : (run step ownSample (start 1)).any (fun st => decide (st.sent 1 5 = [0, 0])) = true := by
    decide +kernel
  obtain ⟨st, hst, hsent⟩ := exists_of_any hrun
  have hlt := hall 1 st 1 5 (reach_of_run hst fun _ _ _ => trivial)
  rw [hsent] at hlt
  exact absurd hlt (by decide)

instance (s : Tables) (m : Match) : Decidable (newPeer s m) := inferInstanceAs (Decidable (_ ∧ _))

instance (st : State n) (i : Fin n) (m : Match) : Decidable (undisturbed st i m) :=
  inferInstanceAs (Decidable (_ ∧ ∀ j : Fin n, (∀ b ∈ jobsOf (st.threads j), _) ∧
    ∀ c ∈ callOf (st.threads j), _))

instance (st : State n) (ev : Event n) : Decidable (orderly st ev) := by
  unfold orderly
  split <;> infer_instance

def flushThenLive : List (Event 1) :=
  firstDelivery ++ [.publish soloThread 5 [8]] ++ List.replicate 4 (.act soloThread onePeer)

theorem flush_then_live_increasing :
    ∃ st : State 1, st.sent 1 5 = [0, 1] ∧ (st.sent 1 5).Pairwise (· < ·) := by
  have hrun : (guardedRun step orderly flushThenLive (start 1)).any
      (fun st => decide (st.sent 1 5 = [0, 1])) = true := by decide +kernel
  obtain ⟨st, hst, hsent⟩ := exists_of_any hrun
  exact ⟨st, hsent, orderly_strictly_increasing (reach_of_guardedRun hst) 1 5⟩

end RmwAxon.SendOrder
