import RmwAxon.Lifespan
import RmwAxon.QosPairs
import RmwAxon.TakeNext

namespace RmwAxon.TakeProgress

open Compress Session Receive ReceiveSpec SubscriberQueue SessionFrame TakeNext Transition
open Host HostRun HostCount Lifespan
open RingBuffer (Bytes Ring currentSeq oldestAvailableSeq slotDataSize)
open RingHistory (SameSlots)
open SessionRun (chatter)

variable {w w' : World} {now t h requested : Nat} {out : Bytes}

/-- What a call of take_next leaves as it was: all but the watermark of the
ring and the timestamps of numbers that are no longer retained. -/
structure Alike (w' w : World) (t h : Nat) : Prop where
  kept : Kept w' w
  stamps : ∀ s, oldestAvailableSeq (ringOf w h) ≤ s → localTimestamp w' t h s = localTimestamp w t h s

theorem sameSlots_eqns {n m : Ring} (hs : SameSlots n m) :
    oldestAvailableSeq n = oldestAvailableSeq m ∧ slotDataSize n = slotDataSize m ∧
      nextNumber n = nextNumber m ∧ settledOn n = settledOn m := by
  obtain ⟨hg, hw, hc⟩ := hs
  cases m
  cases n
  simp only at hg hw hc
  subst hg hw hc
  exact ⟨rfl, rfl, rfl, rfl⟩

theorem Alike.trans {w'' : World} (h₁ : Alike w'' w' t h) (h₂ : Alike w' w t h) : Alike w'' w t h := by
  refine ⟨h₁.kept.trans h₂.kept, fun s hs => ?_⟩
  have hold := (sameSlots_eqns (h₂.kept.ringOf h)).1
  exact (h₁.stamps s (hold ▸ hs)).trans (h₂.stamps s hs)

theorem receiveNext_alike (codec : Codec) (now requested : Nat) (out : Bytes)
    (hh : w.session.subscriptions t = some h) :
    Alike (receiveNext codec w now t requested out).2.2 w t h := by
  refine ⟨receiveNext_kept codec w now t requested out, fun s hs => ?_⟩
  unfold receiveNext
  simp only [hh]
  split
  · rfl
  unfold receiveLocal
  simp only
  split_ifs
  · rfl
  · rfl
  · split
    · exact localTimestamp_prune w t h _ hs
    · split_ifs <;> exact localTimestamp_prune w t h _ hs

section

variable (ha : Alike w' w t h)
include ha

theorem Alike.tables :
    selected w'.session t = selected w.session t ∧ lifespanOf w'.session t = lifespanOf w.session t ∧
      qosAdmits w'.session t = qosAdmits w.session t ∧
      w'.session.subscriptions t = w.session.subscriptions t := by
  obtain ⟨ts, hts⟩ := ha.kept.tables
  rw [hts]
  exact ⟨rfl, rfl, rfl, rfl⟩

theorem Alike.nextStamp (requested : Nat) : nextStamp w' t h requested = nextStamp w t h requested := by
  obtain ⟨hsel, _, hqos, _⟩ := ha.tables
  unfold TakeNext.nextStamp
  rw [hsel, hqos, (sameSlots_eqns (ha.kept.ringOf h)).2.2.1]
  cases hnext : TakeNext.nextNumber (ringOf w h) requested with
  | none => rfl
  | some s => rw [Option.map_some, Option.map_some, ha.stamps s (nextNumber_bounds hnext).2.2.2]

theorem Alike.served : Served w' now t h requested ↔ Served w now t h requested := by
  unfold Served
  rw [ha.nextStamp, ha.tables.2.1]

theorem Alike.settled (requested : Nat) : settled w' t h requested = settled w t h requested := by
  unfold TakeNext.settled
  rw [ha.tables.1, (sameSlots_eqns (ha.kept.ringOf h)).2.2.2]

theorem Alike.roomy (hroom : Roomy w t h out) : Roomy w' t h out := by
  obtain ⟨_, hsize, _, _⟩ := sameSlots_eqns (ha.kept.ringOf h)
  refine ⟨hroom.pos, ?_, ?_, ?_⟩
  · rw [hsize]
    exact hroom.ring
  · rw [ha.tables.1]
    exact hroom.stored
  · rw [ha.tables.1]
    exact hroom.payload

end

theorem takeNext_roomy (codec : Codec) (now requested : Nat) (hh : w.session.subscriptions t = some h)
    (hroom : Roomy w t h out) :
    Alike (takeNext codec w now t requested out).2.2 w t h ∧
    (Served w now t h requested → (takeNext codec w now t requested out).1.code = 0 ∧
      requested < (takeNext codec w now t requested out).1.seq) ∧
    (¬ Served w now t h requested → (takeNext codec w now t requested out).1.code ≠ 0 ∧
      (takeNext codec w now t requested out).1.seq = settled w t h requested) := by
  have ha := receiveNext_alike codec now requested out hh
  obtain ⟨hyes, hno⟩ := receiveNext_roomy codec now requested hh hroom
  have hpos : ¬ out.length = 0 := Nat.ne_of_gt hroom.pos
  unfold takeNext
  generalize receiveNext codec w now t requested out = r at ha hyes hno
  obtain ⟨answer, out', w'⟩ := r
  simp only [hpos, if_false] at ha hyes hno ⊢
  cases answer with
  | ok found =>
    obtain ⟨n, s⟩ := found
    have hserved : Served w now t h requested := by
      refine not_not.mp fun hnot => ?_
      obtain ⟨e, he⟩ := hno hnot
      cases he
    obtain ⟨n, s, hr, hn, hle⟩ := hyes hserved
    cases hr
    simp only [Nat.not_lt.mpr hn, if_false]
    exact ⟨ha, fun _ => ⟨trivial, Nat.lt_succ_of_le hle⟩, fun hnot => absurd hserved hnot⟩
  | error e =>
    have hunserved : ¬ Served w now t h requested := fun hs => by
      obtain ⟨n, s, hr, _⟩ := hyes hs
      cases hr
    obtain ⟨hok, herr⟩ := peek_settled requested (ha.tables.2.2.2.trans hh)
    rw [ha.settled] at hok herr
    cases hp : peekNextMessageSize w' t requested with
    | ok found =>
      obtain ⟨n, s⟩ := found
      simp only [hp]
      exact ⟨ha, fun hs => absurd hs hunserved, fun _ => ⟨by simp, hok n s hp⟩⟩
    | error e' =>
      simp only [hp]
      exact ⟨ha, fun hs => absurd hs hunserved, fun _ => ⟨by simp, (herr e' hp).symm⟩⟩

theorem served_mono {now' : Nat} (hle : now ≤ now') (hs : Served w now' t h requested) :
    Served w now t h requested := by
  obtain ⟨stamp, hstamp, hlive⟩ := hs
  refine ⟨stamp, hstamp, ?_⟩
  unfold outlived at hlive ⊢
  split at hlive
  · refine decide_eq_false fun hold => of_decide_eq_false hlive ⟨hold.1, ?_⟩
    exact Nat.lt_of_lt_of_le hold.2 (Nat.sub_le_sub_right hle _)
  · rfl

theorem select_again {q : Queue} {actual : Nat} {data : Bytes}
    (hs : select q requested = some (data, actual)) : select q actual = some (data, actual) := by
  obtain ⟨_, _, _, _, _, hhead, hlast, hv, _, ⟨_, rfl⟩ | ⟨_, rfl⟩⟩ := QueueSelect.select_some hs
  · simp [select, hhead, hlast, hv]
  · exact hs

theorem select_later {q : Queue} {s actual : Nat} {data : Bytes} (hnone : select q requested = none)
    (hle : requested ≤ s) (hs : select q s = some (data, actual)) : actual = s := by
  obtain ⟨oldest, _, _, _, _, hhead, hlast, hv, _, ⟨hold, rfl⟩ | ⟨_, rfl⟩⟩ := QueueSelect.select_some hs
  · have hlow : requested < oldest := by omega
    have hnew : ¬ actual < requested := by omega
    simp [select, hhead, hlast, hnew, hlow, hv] at hnone
  · rfl

theorem le_settledOn (m : Ring) (requested : Nat) : requested ≤ settledOn m requested := by
  unfold settledOn startSeq
  split_ifs <;> omega

theorem le_settled (w : World) (t h requested : Nat) : requested ≤ settled w t h requested := by
  unfold settled
  split
  · rename_i q data actual hsel
    exact QueueSelect.select_le (selected_some_iff.mp hsel).2
  · exact le_settledOn _ _

theorem settled_settled (w : World) (t h requested : Nat) :
    settled w t h (settled w t h requested) = settled w t h requested := by
  cases hsel : selected w.session t requested with
  | some m =>
    obtain ⟨q, data, actual⟩ := m
    obtain ⟨hq, hsel'⟩ := selected_some_iff.mp hsel
    have hagain := selected_some_iff.mpr ⟨hq, select_again hsel'⟩
    simp only [settled, hsel, hagain]
  | none =>
    have hfirst : settled w t h requested = settledOn (ringOf w h) requested := by
      simp only [settled, hsel]
    rw [hfirst]
    cases hsel' : selected w.session t (settledOn (ringOf w h) requested) with
    | none =>
      simp only [settled, hsel']
      unfold settledOn
      split_ifs with hread hagain
      · obtain ⟨hlow, hwin⟩ := startSeq_window hread.1
        refine if_pos ?_
        unfold oldestAvailableSeq
        omega
      · rfl
      · rfl
    | some m =>
      obtain ⟨q, data, actual⟩ := m
      obtain ⟨hq, hlater⟩ := selected_some_iff.mp hsel'
      simp only [settled, hsel']
      exact select_later (selected_none_iff.mp hsel q hq) (le_settledOn _ _) hlater

section Calls

variable (codec : Codec) (w : World) (t requested : Nat) (time : Nat → Nat) (out : Nat → Bytes)

def before : Nat → World × Nat
  | 0 => (w, requested)
  | k + 1 =>
    let r := takeNext codec (before k).1 (time k) t (before k).2 (out k)
    (r.2.2, r.1.seq)

def reply (k : Nat) : Reply :=
  (takeNext codec (before codec w t requested time out k).1 (time k) t
    (before codec w t requested time out k).2 (out k)).1

/-- Some call returns a message at or after the cursor that has not outlived
its lifespan. -/
def Returns (h : Nat) : Prop :=
  ∃ k, (reply codec w t requested time out k).code = 0 ∧
    requested < (reply codec w t requested time out k).seq ∧
    Served (before codec w t requested time out k).1 (time k) t h (before codec w t requested time out k).2

end Calls

variable {codec : Codec} {time : Nat → Nat} {outs : Nat → Bytes}

theorem stuck_calls (codec : Codec) (hh : w.session.subscriptions t = some h)
    (hroom : ∀ k, Roomy w t h (outs k))
    (hmono : Monotone time) (hfirst : ¬ Served w (time 0) t h requested)
    (hsecond : ¬ Served w (time 1) t h (settled w t h requested)) (k : Nat) :
    Alike (before codec w t requested time outs (k + 1)).1 w t h ∧
      (before codec w t requested time outs (k + 1)).2 = settled w t h requested := by
  induction k with
  | zero =>
    obtain ⟨ha, _, hno⟩ := takeNext_roomy codec (time 0) requested hh (hroom 0)
    exact ⟨ha, (hno hfirst).2⟩
  | succ k ih =>
    obtain ⟨hk, hcur⟩ := ih
    have hunserved : ¬ Served (before codec w t requested time outs (k + 1)).1 (time (k + 1)) t h
        (before codec w t requested time outs (k + 1)).2 := by
      rw [hcur, hk.served]
      exact fun hs => hsecond (served_mono (hmono (Nat.succ_le_succ (Nat.zero_le k))) hs)
    obtain ⟨ha, _, hno⟩ := takeNext_roomy codec (time (k + 1))
      (before codec w t requested time outs (k + 1)).2 (hk.tables.2.2.2.trans hh)
      (hk.roomy (hroom (k + 1)))
    refine ⟨ha.trans hk, (hno hunserved).2.trans ?_⟩
    rw [hk.settled, hcur, settled_settled]

/-- Repeated calls return a message exactly if the cursor leads to one in time,
at the first call or, from where that call leaves it, at the second. -/
theorem returns_iff (hh : w.session.subscriptions t = some h) (hroom : ∀ k, Roomy w t h (outs k))
    (hmono : Monotone time) :
    Returns codec w t requested time outs h ↔
      Served w (time 0) t h requested ∨ Served w (time 1) t h (settled w t h requested) := by
  obtain ⟨ha, hyes, hno⟩ := takeNext_roomy codec (time 0) requested hh (hroom 0)
  constructor
  · rintro ⟨k, _, _, hk⟩
    by_contra hnot
    obtain ⟨hfirst, hsecond⟩ := not_or.mp hnot
    cases k with
    | zero => exact hfirst hk
    | succ k =>
      obtain ⟨hal, hcur⟩ := stuck_calls codec hh hroom hmono hfirst hsecond k
      rw [hcur, hal.served] at hk
      exact hsecond (served_mono (hmono (Nat.succ_le_succ (Nat.zero_le k))) hk)
  · by_cases hfirst : Served w (time 0) t h requested
    · exact fun _ => ⟨0, (hyes hfirst).1, (hyes hfirst).2, hfirst⟩
    · rintro (hs | hs)
      · exact absurd hs hfirst
      · have hcur : (before codec w t requested time outs 1).2 = settled w t h requested := (hno hfirst).2
        have hal : Alike (before codec w t requested time outs 1).1 w t h := ha
        have hs' : Served (before codec w t requested time outs 1).1 (time 1) t h
            (before codec w t requested time outs 1).2 := by
          rw [hcur, hal.served]
          exact hs
        obtain ⟨_, hyes', _⟩ := takeNext_roomy codec (time 1) (before codec w t requested time outs 1).2
          (hal.tables.2.2.2.trans hh) (hal.roomy (hroom 1))
        refine ⟨1, (hyes' hs').1, Nat.lt_of_le_of_lt ?_ (hyes' hs').2, hs'⟩
        rw [hcur]
        exact le_settled w t h requested

/-- A message at or after the cursor that the subscription may be given and
that has not outlived its lifespan. -/
def Available (w : World) (now t h requested : Nat) : Prop :=
  (∃ q m, w.session.remoteRecvQueues t = some q ∧ m ∈ q.messages ∧ requested ≤ m.1 ∧
    outlived (lifespanOf w.session t) now (timestampFor q m.1) = false) ∨
  (qosAdmits w.session t = true ∧ ∃ s, requested ≤ s ∧ readable (ringOf w h) s = true ∧
    outlived (lifespanOf w.session t) now (localTimestamp w t h s) = false)

/-- In every state that the sessions of a host can reach, repeated calls on a
subscription return a message in time whenever there is one, if and only if
the messages that the first two calls lead to are in time whenever there is
one. -/
theorem fresh_cursor_returns {quicTransport : Nat → Bool} {st : State}
    (hreach : Reach (step codec) anyStep (start quicTransport) st) {e : Nat} {sub : Endpoint}
    (he : st.endpoints e = some sub) (hs : sub.publisher = false) :
    ∃ h, (tables st sub.session).subscriptions sub.topic = some h ∧
      ∀ requested time outs, Monotone time → time 0 = st.clock →
        (∀ k, Roomy (world st.machine sub.session) sub.topic h (outs k)) →
        ((Available (world st.machine sub.session) st.clock sub.topic h requested →
            Returns codec (world st.machine sub.session) sub.topic requested time outs h) ↔
          (Available (world st.machine sub.session) st.clock sub.topic h requested →
            Served (world st.machine sub.session) st.clock sub.topic h requested ∨
              Served (world st.machine sub.session) (time 1) sub.topic h
                (settled (world st.machine sub.session) sub.topic h requested))) := by
  obtain ⟨h, hh⟩ := (reach_counted hreach).2.handle_some he
  rw [hs] at hh
  refine ⟨h, hh, fun requested time outs hmono hnow hroom => ?_⟩
  rw [returns_iff (w := world st.machine sub.session) hh hroom hmono, hnow]

def sizesWithin (w : World) (h n : Nat) : Prop :=
  ∀ s < currentSeq (ringOf w h), ∀ k ∈ (slotDataSize (ringOf w h) s).toOption, k ≤ n

instance (w : World) (h n : Nat) : Decidable (sizesWithin w h n) :=
  inferInstanceAs (Decidable (∀ s < _, ∀ k ∈ _, _))

theorem roomy_of_sizes (hpos : 0 < out.length) (hq : w.session.remoteRecvQueues t = none)
    (hsize : sizesWithin w h out.length) : Roomy w t h out := by
  have hsel : ∀ requested, selected w.session t requested = none := by simp [selected, hq]
  refine ⟨hpos, fun s n hn => ?_, by simp [hsel], by simp [hsel]⟩
  exact hsize s (QosPairs.size_window hn).1 n (by simp [hn, Except.toOption])

def oldAndNew : List Event :=
  [.createSubscription roomyOs none true 0 chatter shortLived,
    .createPublisher roomyOs none 0 chatter shortLived, .publish 1 [7] 0, .tick 8, .publish 1 [8] 0, .tick 8]

theorem old_message_blocks :
    ¬ ∀ codec quicTransport st e sub h requested time outs,
      Reach (step codec) anyStep (start quicTransport) st → st.endpoints e = some sub →
      sub.publisher = false → (tables st sub.session).subscriptions sub.topic = some h →
      (∃ L, lifespanOf (tables st sub.session) sub.topic = some L ∧ L ≠ 0) →
      Monotone time → time 0 = st.clock →
      (∀ k, Roomy (world st.machine sub.session) sub.topic h (outs k)) →
      Available (world st.machine sub.session) st.clock sub.topic h requested →
      Returns codec (world st.machine sub.session) sub.topic requested time outs h := by
  intro hall
  have hrun : (run (step plain) oldAndNew (start fun _ => false)).any (fun st =>
      decide ((st.endpoints 0 = some ⟨false, 0, 5, shortLived⟩ ∧ (tables st 0).subscriptions 5 = some 0 ∧
        st.clock = 16 ∧ lifespanOf (tables st 0) 5 = some 10 ∧ (tables st 0).remoteRecvQueues 5 = none ∧
        sizesWithin (world st.machine 0) 0 1) ∧ qosAdmits (tables st 0) 5 = true ∧
        readable (ringOf (world st.machine 0) 0) 1 = true ∧
        localTimestamp (world st.machine 0) 5 0 1 = some 8 ∧
        nextStamp (world st.machine 0) 5 0 0 = some (some 0) ∧
        settled (world st.machine 0) 5 0 0 = 0)) = true := by
    decide +kernel
  obtain ⟨st, hst, ⟨he, hh, hnow, hlife, hq, hsize⟩, hqos, hread, hts, hnext, hset⟩ := exists_of_any hrun
  have hlife' : lifespanOf (world st.machine 0).session 5 = some 10 := hlife
  have hroom : ∀ k : Nat, Roomy (world st.machine 0) 5 0 [0] := fun _ =>
    roomy_of_sizes (by simp) hq hsize
  have hold : ¬ Served (world st.machine 0) 16 5 0 0 := by
    rintro ⟨stamp, hstamp, hlive⟩
    cases hnext.symm.trans hstamp
    rw [hlife'] at hlive
    exact absurd hlive (by decide)
  have hret := hall plain _ st 0 _ 0 0 (fun _ => 16) (fun _ => [0]) (reach_of_run hst fun _ _ _ => trivial)
    he rfl hh ⟨10, hlife, by decide⟩ monotone_const hnow.symm hroom
    (.inr ⟨hqos, 1, Nat.zero_le 1, hread, by rw [hts, hnow, hlife']; decide⟩)
  rw [returns_iff (w := world st.machine 0) hh hroom monotone_const, hset, or_self] at hret
  exact hold hret

theorem young_message_returned :
    ∃ st : State, st.clock = 5 ∧
      Returns plain (world st.machine 0) 5 0 (fun k => 5 + k) (fun _ => [0]) 0 := by
  have hrun : (run (step plain) (oldAndNew.take 3 ++ [.tick 5]) (start fun _ => false)).any (fun st =>
      decide ((st.endpoints 0 = some ⟨false, 0, 5, shortLived⟩ ∧ (tables st 0).subscriptions 5 = some 0 ∧
        st.clock = 5 ∧ lifespanOf (tables st 0) 5 = some 10 ∧ (tables st 0).remoteRecvQueues 5 = none ∧
        sizesWithin (world st.machine 0) 0 1) ∧ qosAdmits (tables st 0) 5 = true ∧
        readable (ringOf (world st.machine 0) 0) 0 = true ∧
        localTimestamp (world st.machine 0) 5 0 0 = some 0 ∧
        nextStamp (world st.machine 0) 5 0 0 = some (some 0))) = true := by
    decide +kernel
  obtain ⟨st, hst, ⟨he, hh, hnow, hlife, hq, hsize⟩, hqos, hread, hts, hnext⟩ := exists_of_any hrun
  have hlife' : lifespanOf (world st.machine 0).session 5 = some 10 := hlife
  obtain ⟨h, hh', hall⟩ := fresh_cursor_returns (reach_of_run hst fun _ _ _ => trivial) he rfl
  cases hh.symm.trans hh'
  refine ⟨st, hnow, (hall 0 (fun k => 5 + k) (fun _ => [0]) (fun a b hab => Nat.add_le_add_left hab 5)
    hnow.symm fun _ => roomy_of_sizes (by simp) hq hsize).mpr (fun _ => .inl ⟨some 0, hnext, ?_⟩)
    (.inr ⟨hqos, 0, Nat.le_refl 0, hread, ?_⟩)⟩
  · rw [hnow, hlife']
    decide
  · rw [hts, hnow, hlife']
    decide

end RmwAxon.TakeProgress
