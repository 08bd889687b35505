import RmwAxon.RingCreation
import RmwAxon.WriterRace

namespace RmwAxon.CreationRace

open Cells RingBuffer RingHistory SlotOrder WriterRace Transition RingCreation
open RingAtomic hiding State Action step

structure Untouched (m : RingAtomic.State) : Prop where
  writeIndex : m.ring.writeIndex = 0
  calls : ∀ c data w p, m.writes c ≠ .reserved data w p
  seq : ∀ i, (m.ring.slots i).seq = some 0
  len : ∀ i, (m.ring.slots i).len = 0

variable {m : RingAtomic.State} {a : RingAtomic.Action} {s t : State} {who : Option Nat}

theorem Untouched.inv (h : Untouched m) : Inv m where
  assigned := by simp [h.writeIndex]
  below := fun c data w p hc => absurd hc (h.calls c data w p)
  fits := fun c data w p hc => absurd hc (h.calls c data w p)
  unique := fun c _ data _ w p _ hc _ => absurd hc (h.calls c data w p)
  content := fun c data w p hc => absurd hc (h.calls c data w p)
  pristine := fun _ _ => ⟨h.seq _, h.len _⟩

variable {m' : RingAtomic.State}

theorem Untouched.zeroed (h : Untouched m) (hz : Zeroed m.ring m'.ring)
    (hw : m'.writes = m.writes) : Untouched m' where
  writeIndex := by
    rcases hz.writeIndex with hi | hi
    · exact hi.trans h.writeIndex
    · exact hi
  calls := by simpa only [hw] using h.calls
  seq := fun i => by
    rcases hz.seq i with hs | hs
    · exact hs.trans (h.seq i)
    · exact hs
  len := fun i => by
    rcases hz.len i with hl | hl
    · exact hl.trans (h.len i)
    · exact hl

theorem initial_untouched (g : Geometry) : Untouched (initial g) :=
  ⟨rfl, by simp [initial], fun _ => rfl, fun _ => rfl⟩

theorem Untouched.step (h : Untouched m) (ha : ∀ c k data, a = .write c k → m.writes c ≠ .entered data)
    (hs : RingAtomic.step m a = some m') : Untouched m' := by
  cases a with
  | beginWrite c data =>
    obtain ⟨_, rfl⟩ := step_beginWrite hs
    refine ⟨h.writeIndex, fun d e w p => ?_, h.seq, h.len⟩
    by_cases hd : d = c
    · subst hd
      simp
    · simpa [Function.update_of_ne hd] using h.calls d e w p
  | write c k =>
    rcases step_write_cases hs with ⟨data, hc, _⟩ | ⟨data, hc, _⟩ | ⟨data, w, p, _, _, hc, _⟩
    · exact absurd hc (ha c k data rfl)
    · exact absurd hc (ha c k data rfl)
    · exact absurd hc (h.calls c data w p)
  | beginRead c s out =>
    obtain ⟨_, rfl⟩ := step_beginRead hs
    exact ⟨h.writeIndex, h.calls, h.seq, h.len⟩
  | read c k =>
    obtain ⟨_, _, rfl⟩ := step_read hs
    exact ⟨h.writeIndex, h.calls, h.seq, h.len⟩

/-- No number is given out before the creator has cleared the last slot, no
payload is empty, and no call stores into its slot after a later write of it
has begun to. -/
def Settled (s : State) : Action → Prop
  | .use _ (.beginWrite _ data) => data ≠ []
  | .use _ (.write c k) => orderly s.memory (.write c k) ∧
      ∀ data, s.memory.writes c = .entered data → s.creation = .finished
  | _ => True

theorem Settled.orderly (h : Settled s (.use who a)) : orderly s.memory a := by
  cases a with
  | write c k => exact h.1
  | beginWrite | beginRead | read => trivial

theorem Settled.nonempty (h : Settled s (.use who a)) (c : Nat) (data : Bytes) (ha : a = .beginWrite c data) :
    data ≠ [] := by
  subst ha
  exact h

theorem Settled.finished (h : Settled s (.use who a)) (hf : s.creation ≠ .finished) (c k : Nat)
    (data : Bytes) (ha : a = .write c k) : s.memory.writes c ≠ .entered data := by
  subst ha
  exact fun hc => hf (h.2 data hc)

structure Sound (s : State) : Prop where
  inv : Inv s.memory
  noEmpty : NoEmptyCall s.memory
  untouched : s.creation ≠ .finished → Untouched s.memory

theorem step_sound {a : Action} (h : Sound s) (ha : Settled s a) (hs : step s a = some t) : Sound t := by
  cases moves_of_step hs with
  | use who b hb hc =>
    exact ⟨step_inv h.inv ha.orderly hb, step_noEmptyCall h.noEmpty ha.nonempty hb,
      fun hf => (h.untouched (hc ▸ hf)).step (ha.finished (hc ▸ hf)) hb⟩
  | consume who r hm hc =>
    obtain ⟨h1, h2, h3, h4, h5, h6⟩ := h.inv
    refine ⟨hm ▸ ⟨h1, h2, h3, h4, h5, h6⟩, fun c => by rw [hm]; exact h.noEmpty c, fun hf => ?_⟩
    have hu := h.untouched (hc ▸ hf)
    rw [hm]
    exact ⟨hu.writeIndex, hu.calls, hu.seq, hu.len⟩
  | zero _ hf hz hw =>
    have hu : Untouched t.memory := (h.untouched hf).zeroed hz hw
    exact ⟨hu.inv, fun c => by rw [hw]; exact h.noEmpty c, fun _ => hu⟩
  | other _ hm hc => exact ⟨hm ▸ h.inv, hm ▸ h.noEmpty, fun hf => hm ▸ h.untouched (hc ▸ hf)⟩

def Distinct (m : RingAtomic.State) : Prop :=
  ∀ c c' data data' w p p', m.writes c = .reserved data w p →
    m.writes c' = .reserved data' w p' → c = c'

def Kept (m : RingAtomic.State) : Prop :=
  ∀ c data w p, m.writes c = .reserved data w p → m.ring.writeIndex - slotCount m.ring ≤ w →
    ∀ out : Bytes, data.length ≤ out.length →
      readSlot m.ring w out = (.ok data.length, copyOut data out)

theorem Sound.kept (h : Sound s) (hq : Quiescent s.memory) : Kept s.memory := by
  intro c data w p hc hlo out hout
  obtain ⟨d, e, hd, hread⟩ := window_readable_of_inv h.inv h.noEmpty hq w hlo (h.inv.below _ _ _ _ hc)
  obtain rfl := h.inv.unique _ _ _ _ _ _ _ hc hd
  rw [hc] at hd
  cases hd
  exact hread out hout

theorem reach_writeIndex (h : Sound s) (ht : Reach step Settled s t) :
    s.memory.ring.writeIndex ≤ t.memory.ring.writeIndex := by
  refine (ht.invariant (I := fun u => Sound u ∧ s.memory.ring.writeIndex ≤ u.memory.ring.writeIndex)
    ⟨h, le_rfl⟩ fun _ _ _ hi ha hs => ⟨step_sound hi.1 ha hs, hi.2.trans ?_⟩).2
  cases moves_of_step hs with
  | use who b hb hc => exact (step_advances hb).writeIndex
  | consume who r hm hc => rw [hm]
  | zero _ hf hz hw =>
    rw [(hi.1.untouched hf).writeIndex]
    exact Nat.zero_le _
  | other _ hm hc => rw [hm]

/-- If no number is given out before the creator has finished, the processes
that share the new ring see one history of it. -/
theorem numbers_kept_after_creation (g : Geometry) (request : Nat → Nat) {s : State}
    (h : Reach step Settled (start g request) s) :
    (∀ t, Reach step Settled s t → s.memory.ring.writeIndex ≤ t.memory.ring.writeIndex) ∧
      Distinct s.memory ∧ (Quiescent s.memory → Kept s.memory) :=
  have hi : Sound s := h.invariant ⟨initial_inv g, initial_noEmptyCall g, fun _ => initial_untouched g⟩
    fun _ _ _ hi ha hs => step_sound hi ha hs
  ⟨fun _ ht => reach_writeIndex hi ht, hi.inv.unique, hi.kept⟩

def OneWriter (s : State) : Action → Prop
  | .use _ (.beginWrite c data) => c = 0 ∧ data ≠ []
  | .use _ (.write c _) => c = 0 ∧ s.creation = .finished
  | _ => True

instance (s : State) (a : Action) : Decidable (OneWriter s a) := by
  unfold OneWriter
  split <;> infer_instance

theorem step_other_idle {a : Action} (h : ∀ c, c ≠ 0 → s.memory.writes c = .idle)
    (ha : OneWriter s a) (hs : step s a = some t) (c : Nat) (hc : c ≠ 0) :
    t.memory.writes c = .idle := by
  rw [← h c hc]
  cases moves_of_step hs with
  | use who b hb _ =>
    refine step_other_writer hb ?_
    cases b with
    | beginRead | read => simp [writer]
    | beginWrite | write => simpa [writer, ha.1] using hc.symm
  | consume who r hm _ => rw [hm]
  | zero _ _ _ hw => rw [hw]
  | other _ hm _ => rw [hm]

theorem OneWriter.settled {a : Action} (h : OneWriter s a)
    (hi : ∀ c, c ≠ 0 → s.memory.writes c = .idle) : Settled s a := by
  cases a with
  | use who b =>
    cases b with
    | beginWrite c data => exact h.2
    | write c k =>
      refine ⟨fun data w p hc _ => ?_, fun _ _ => h.2⟩
      rintro ⟨d, e, v, q, hd, _, hlt, _⟩
      obtain rfl : d = c := by
        by_contra hdc
        rw [hi d (by rw [← h.1]; exact hdc)] at hd
        cases hd
      rw [hc] at hd
      cases hd
      exact absurd hlt (lt_irrefl _)
    | beginRead | read => trivial
  | create | clear | abandon | call | openNext | fail | consume => trivial

def creationSteps (g : Geometry) : List Action :=
  List.replicate 6 .create ++ (cells g).map .clear ++ [.create]

def joining (p : Nat) : List Action := .call p :: List.replicate 5 (.openNext p)

def writing (p c : Nat) (data : Bytes) : List Action :=
  .use (some p) (.beginWrite c data) :: List.replicate (7 + data.length) (.use (some p) (.write c 0))

/-- The ring is created, a second process opens it and writes a message. -/
theorem joined_ring_kept :
    ∃ s : State, s.opening 0 = .handed 2 24 ∧ s.memory.writes 0 = .reserved [7] 0 .returned ∧
      s.memory.ring.writeIndex = 1 ∧ Distinct s.memory ∧ Kept s.memory := by
  obtain ⟨s, hs, ho, hw, h1⟩ := exists_of_any (show (guardedRun step OneWriter
    (creationSteps twoSlots ++ joining 0 ++ writing 0 0 [7]) (start twoSlots fun _ => 24)).any
      (fun s => decide (s.opening 0 = .handed 2 24 ∧ s.memory.writes 0 = .reserved [7] 0 .returned ∧
        s.memory.ring.writeIndex = 1)) = true by decide +kernel)
  have hr := reach_of_guardedRun hs
  have hidle : ∀ c, c ≠ 0 → s.memory.writes c = .idle :=
    hr.invariant (I := fun s => ∀ c, c ≠ 0 → s.memory.writes c = .idle) (fun _ _ => rfl)
      fun _ _ _ hi ha hs => step_other_idle hi ha hs
  have hsettled := hr.weaken (I := fun s => ∀ c, c ≠ 0 → s.memory.writes c = .idle)
    (fun _ _ => rfl) (fun _ _ _ hi ha hs => step_other_idle hi ha hs)
    fun _ _ _ hi ha _ => ha.settled hi
  have hq : Quiescent s.memory := by
    intro c
    by_cases hc : c = 0
    · rw [hc, hw]; rfl
    · rw [hidle c hc]; rfl
  obtain ⟨_, hd, hk⟩ := numbers_kept_after_creation twoSlots (fun _ => 24) hsettled
  exact ⟨s, ho, hw, h1, hd, hk hq⟩

/-- A process opens the segment behind the store of the slot size and writes.
The creator then stores its index over the number, and the next write is
given it once more. -/
theorem early_number_given_twice :
    ∃ s t u, Reach step anyStep (start twoSlots fun _ => 24) s ∧ holds s (some 0) = true ∧
      Reach step anyStep s t ∧ t.memory.ring.writeIndex < s.memory.ring.writeIndex ∧
      Reach step anyStep t u ∧ ¬ Distinct u.memory := by
  obtain ⟨s, hs, hh, hrest⟩ := exists_of_any (show (run step
    (List.replicate 3 .create ++ joining 0 ++ writing 0 0 [10]) (start twoSlots fun _ => 24)).any
      (fun s => decide (holds s (some 0) = true ∧ (run step [.create] s).any (fun t =>
        decide (t.memory.ring.writeIndex < s.memory.ring.writeIndex ∧
          (run step (writing 0 1 [11]) t).any (fun u =>
            decide (u.memory.writes 0 = .reserved [10] 0 .returned ∧
              u.memory.writes 1 = .reserved [11] 0 .returned)) = true)) = true)) = true by
        decide +kernel)
  obtain ⟨t, ht, hlt, hlast⟩ := exists_of_any hrest
  obtain ⟨u, hu, h0, h1⟩ := exists_of_any hlast
  have hd : ¬ Distinct u.memory := by
    intro h
    exact absurd (h 0 1 _ _ _ _ _ h0 h1) (by decide)
  exact ⟨s, t, u, reach_of_run hs fun _ _ _ => trivial, hh, reach_of_run ht fun _ _ _ => trivial,
    hlt, reach_of_run hu fun _ _ _ => trivial, hd⟩

end RmwAxon.CreationRace
