import RmwAxon.Seqlock

namespace RmwAxon.WriterRace

open Cells RingBuffer RingHistory RingAtomic SlotOrder Seqlock Transition Function List

def Quiescent (st : State) : Prop := ∀ c, settled (st.writes c)

def WindowReadable (st : State) : Prop :=
  ∀ s, st.ring.writeIndex - slotCount st.ring ≤ s → s < st.ring.writeIndex →
    ∃ c data, st.writes c = .reserved data s .returned ∧
      ∀ out : Bytes, data.length ≤ out.length →
        readSlot st.ring s out = (.ok data.length, copyOut data out)

def payloads (g : Geometry) (_ : State) : Action → Prop
  | .beginWrite _ data => data ≠ [] ∧ data.length ≤ payloadCapacityFromStride g.slotSize
  | _ => True

def NoEmptyCall (st : State) : Prop :=
  ∀ c, st.writes c ≠ .entered [] ∧ ∀ w p, st.writes c ≠ .reserved [] w p

variable {st : State}

theorem step_noEmptyCall {st' : State} {a : Action} (h : NoEmptyCall st)
    (ha : ∀ c data, a = .beginWrite c data → data ≠ []) (hs : step st a = some st') :
    NoEmptyCall st' := by
  intro d
  by_cases hd : writer a = some d
  · cases a with
    | beginRead | read => cases hd
    | beginWrite c data =>
      cases hd
      obtain ⟨_, rfl⟩ := step_beginWrite hs
      simp [ha d data rfl]
    | write c k =>
      cases hd
      obtain ⟨he, hr⟩ := h d
      rcases step_write_cases hs with ⟨data, hc, _, rfl⟩ | ⟨data, hc, _, rfl⟩ |
        ⟨data, w, p, m, p', hc, _, rfl⟩
      · simp
      · rw [hc] at he
        simpa using he
      · have := hr w p
        rw [hc] at this
        simpa using this
  · rw [step_other_writer hs hd]
    exact h d

theorem window_readable_of_inv (hi : Inv st) (hne : NoEmptyCall st)
    (hq : Quiescent st) : WindowReadable st := by
  intro s hlo hhi
  obtain ⟨c, data, p, hc⟩ := hi.assigned s hhi
  have hp : p = .returned := by
    have hset := hq c
    rw [hc] at hset
    cases p with
    | returned => rfl
    | loadRead | exchangeRead | invalidate | clearLen | copy | setLen | stamp => cases hset
  subst hp
  have ho : ¬ Overtaken st s := by
    rintro ⟨d, e, v, q, hd, _, hlt, hi'⟩
    have hb := hi.below _ _ _ _ hd
    have hle := add_le_of_mod_eq hi'.symm hlt
    omega
  have hholds : Holds (slotAt st.ring s) s data := hi.content c data s _ hc (by simp [rank]) ho
  have hdata : data ≠ [] := by
    rintro rfl
    exact (hne c).2 s _ hc
  refine ⟨c, data, hc, fun out hout => ?_⟩
  rw [readSlot_of_holds hholds hhi (by omega), readMessage_ok hdata hout]

theorem initial_noEmptyCall (g : Geometry) : NoEmptyCall (initial g) :=
  fun _ => ⟨by simp [initial], by simp [initial]⟩

/-- In every schedule in which no call stores into its slot after a later
write of that slot has begun to, the whole last turn is readable as soon as
the started writes are over. -/
theorem orderly_window_readable (g : Geometry) {st : State}
    (h : Reach step (fun s a => payloads g s a ∧ orderly s a) (initial g) st)
    (hq : Quiescent st) : WindowReadable st := by
  have hinv : Inv st ∧ NoEmptyCall st :=
    h.invariant (I := fun st => Inv st ∧ NoEmptyCall st) ⟨initial_inv g, initial_noEmptyCall g⟩
      fun _ _ _ hi ha hs =>
        ⟨step_inv hi.1 ha.2 hs, step_noEmptyCall hi.2 (fun _ _ heq => (heq ▸ ha.1).1) hs⟩
  exact window_readable_of_inv hinv.1 hinv.2 hq

/-- Writer 0 takes number 0 and stalls; writers 1 and 2 take numbers 1 and 2
and finish; then writer 0 stores into the slot of number 2. -/
def lateWriter : List Action :=
  [.beginWrite 0 [10], .write 0 0] ++
  (.beginWrite 1 [11] :: List.replicate 8 (.write 1 0)) ++
  (.beginWrite 2 [12] :: List.replicate 9 (.write 2 0)) ++ List.replicate 7 (.write 0 0)

theorem late_writer_hides_newest :
    ¬ ∀ g st, Reach step (payloads g) (initial g) st → Quiescent st → WindowReadable st := by
  intro hall
  have hrun : (run step lateWriter (initial twoSlots)).map
      (fun st => (st.ring.writeIndex, slotCount st.ring, (range 3).map st.writes,
        (readSlot st.ring 2 [0]).1)) =
      some (3, 2, [.reserved [10] 0 .returned, .reserved [11] 1 .returned,
        .reserved [12] 2 .returned], .error .slotNotYetWritten) := by decide +kernel
  obtain ⟨st, hst, hobs⟩ := Option.map_eq_some_iff.mp hrun
  simp only [Prod.mk.injEq, range_succ, range_zero, nil_append, cons_append,
    map_cons, map_nil, cons.injEq, and_true] at hobs
  obtain ⟨hw, hn, ⟨h0, h1, h2⟩, hread⟩ := hobs
  have hreach : Reach step (payloads twoSlots) (initial twoSlots) st :=
    reach_of_run hst (by simp [lateWriter, payloads, twoSlots, payloadCapacityFromStride, slotDataOffset])
  have hidle (c : Nat) (hc : 3 ≤ c) : st.writes c = .idle := by
    obtain ⟨d, rfl⟩ := Nat.exists_eq_add_of_le' hc
    exact run_other_writer hst (by simp [lateWriter, writer])
  have hcases (c : Nat) : c = 0 ∨ c = 1 ∨ c = 2 ∨ 3 ≤ c := by omega
  have hq : Quiescent st := by
    intro c
    rcases hcases c with rfl | rfl | rfl | hc
    · rw [h0]; rfl
    · rw [h1]; rfl
    · rw [h2]; rfl
    · rw [hidle c hc]; rfl
  obtain ⟨c, data, hc, hdata⟩ := hall twoSlots st hreach hq 2 (by omega) (by omega)
  rcases hcases c with rfl | rfl | rfl | hlt
  · simp [h0] at hc
  · simp [h1] at hc
  · rw [h2] at hc
    cases hc
    rw [hdata [0] le_rfl] at hread
    cases hread
  · simp [hidle c hlt] at hc

/-- Calls 0 and 1 are made one after the other, with such payloads. -/
def takeTurns (p : Bytes → Bool) (st : State) : Action → Prop
  | .beginWrite c data => p data ∧ c < 2 ∧ settled (st.writes 0) ∧ settled (st.writes 1)
  | .write c _ => c < 2
  | _ => True

instance (p : Bytes → Bool) (st : State) (a : Action) : Decidable (takeTurns p st a) := by
  unfold takeTurns
  split <;> infer_instance

theorem turns_orderly {g : Geometry} {p : Bytes → Bool} (h : Reach step (takeTurns p) (initial g) st)
    {ok : State → Action → Prop} (hok : ∀ s a, takeTurns p s a → ok s a) :
    Reach step (fun s a => ok s a ∧ orderly s a) (initial g) st ∧ ∀ c, 2 ≤ c → st.writes c = .idle := by
  let Two (s : State) : Prop := Solo s ∧ ∀ c, 2 ≤ c → s.writes c = .idle
  have hstart : Two (initial g) := ⟨initial_solo g, fun _ _ => rfl⟩
  have hstep : ∀ s a t, Two s → takeTurns p s a → step s a = some t → Two t := by
    intro s a t hi ha hs
    refine ⟨step_solo hi.1 ?_ hs, fun c hc => ?_⟩
    · cases a with
      | beginWrite c data =>
        intro d
        obtain rfl | rfl | hd : d = 0 ∨ d = 1 ∨ 2 ≤ d := by omega
        · exact ha.2.2.1
        · exact ha.2.2.2
        · rw [hi.2 d hd]
          rfl
      | write | beginRead | read => trivial
    · rw [step_other_writer hs ?_]
      · exact hi.2 c hc
      cases a with
      | beginWrite d data => simpa [writer] using (ha.2.1.trans_le hc).ne
      | write d k => simpa [writer] using (Nat.lt_of_lt_of_le ha hc).ne
      | beginRead | read => simp [writer]
  exact ⟨h.weaken hstart hstep fun s a t hi ha hs => ⟨hok s a ha, solo_orderly hi.1 hs⟩,
    (h.invariant hstart hstep).2⟩

/-- The second writer stores into the slot of the first. -/
theorem orderly_window_second_write :
    ∃ st, st.writes 0 = .reserved [7] 0 .returned ∧ st.writes 1 = .reserved [8] 1 .returned ∧
      Quiescent st ∧ WindowReadable st := by
  obtain ⟨st, hst, h0, h1⟩ : ∃ st, guardedRun step (takeTurns fun data => data.length = 1)
      (.beginWrite 0 [7] :: replicate 8 (.write 0 0) ++ .beginWrite 1 [8] :: replicate 9 (.write 1 0))
      (initial oneSlot) = some st ∧ st.writes 0 = .reserved [7] 0 .returned ∧
        st.writes 1 = .reserved [8] 1 .returned := exists_of_any (by decide +kernel)
  have hok : ∀ s a, takeTurns (fun data => data.length = 1) s a → payloads oneSlot s a := by
    intro s a ha
    cases a with
    | beginWrite c data =>
      have hlen : data.length = 1 := of_decide_eq_true ha.1
      exact ⟨ne_nil_of_length_pos (hlen ▸ Nat.one_pos), hlen.trans_le (by decide)⟩
    | write | beginRead | read => trivial
  obtain ⟨hreach, hidle⟩ := turns_orderly (reach_of_guardedRun hst) hok
  have hq : Quiescent st := by
    intro c
    obtain rfl | rfl | hc : c = 0 ∨ c = 1 ∨ 2 ≤ c := by omega
    · rw [h0]; rfl
    · rw [h1]; rfl
    · rw [hidle c hc]; rfl
  exact ⟨st, h0, h1, hq, orderly_window_readable oneSlot hreach hq⟩

end RmwAxon.WriterRace
