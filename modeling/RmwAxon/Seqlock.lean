import RmwAxon.SlotOrder

namespace RmwAxon.Seqlock

open Cells RingBuffer RingHistory RingAtomic SlotOrder Transition Function List Option

/-- The bytes moved so far are those of message s, unless a later write has
taken the slot; then the second look at the stamp will fail. -/
def Copied (st : State) (s n : Nat) (todo : List Nat) (out : Bytes) : Prop :=
  Overtaken st s ∨ ∃ c data p, st.writes c = .reserved data s p ∧ 6 ≤ rank p ∧ n = data.length ∧
    n ≤ out.length ∧ ∀ i, (h : i < data.length) → i ∉ todo → out[i]? = some (data.get ⟨i, h⟩)

def Sound (st : State) : ReadCall → Prop
  | .running s _ .loadLen => s = 0 ∨ ∃ c data p, st.writes c = .reserved data s p ∧ 7 ≤ rank p
  | .running s out (.copy n todo) => Copied st s n todo out
  | .running s out (.recheck n) => Copied st s n [] out
  | .returned s out (.ok n) => ∃ c data p, st.writes c = .reserved data s p ∧ n = data.length ∧
      out.take n = data
  | _ => True

variable {st st' : State} {s : Nat} {a : Action}
variable {data out : Bytes}

theorem sound_mono (h : Advances st st') {call : ReadCall} (hs : Sound st call) : Sound st' call := by
  cases call with
  | idle => trivial
  | running s out p =>
    cases p with
    | loadWrite | loadSeq => trivial
    | loadLen =>
      rcases hs with hs | ⟨c, data, p, hw, hp⟩
      · exact .inl hs
      · obtain ⟨p', hw', hp'⟩ := h.call c data s p hw
        exact .inr ⟨c, data, p', hw', hp.trans hp'⟩
    | copy | recheck =>
      rcases hs with ho | ⟨c, data, p, hw, hp, hrest⟩
      · exact .inl (h.overtaken ho)
      · obtain ⟨p', hw', hp'⟩ := h.call c data _ p hw
        exact .inr ⟨c, data, p', hw', hp.trans hp', hrest⟩
  | returned s out r =>
    cases r with
    | error e => trivial
    | ok n =>
      obtain ⟨c, data, p, hw, hrest⟩ := hs
      obtain ⟨p', hw', _⟩ := h.call c data s p hw
      exact ⟨c, data, p', hw', hrest⟩

/-- A slot carries the stamp s only while the call that was given s is done
and still the last one in the slot, or from creation when s is zero. -/
theorem stamped_cases (h : Inv st) (hs : (slotAt st.ring s).seq = some s) :
    (s = 0 ∧ ∀ c data w p, st.writes c = .reserved data w p → 3 ≤ rank p →
      slotIndex st.ring w ≠ slotIndex st.ring s) ∨
    ∃ c data, st.writes c = .reserved data s .returned ∧ ¬ Overtaken st s := by
  by_cases hno : ∀ c data w p, st.writes c = .reserved data w p → 3 ≤ rank p →
      slotIndex st.ring w ≠ slotIndex st.ring s
  · have hz := (h.pristine s hno).1
    rw [hs] at hz
    exact .inl ⟨some.inj hz, hno⟩
  push Not at hno
  obtain ⟨c, data, w, p, hc, hp, hi⟩ := hno
  obtain ⟨d, e, v, q, hd, hq, _, hj, hv⟩ := exists_last h hc hp
  have hcont := h.content d e v q hd hq hv
  rw [show slotAt st.ring v = slotAt st.ring s by rw [slotAt, hj, hi, slotAt]] at hcont
  cases q with
  | loadRead | exchangeRead | invalidate => simp [rank] at hq
  | clearLen | copy | setLen | stamp => simp [hs, Content] at hcont
  | returned =>
    have he : v = s := some.inj (hcont.stamped.symm.trans hs)
    subst he
    exact .inr ⟨d, e, hd, hv⟩

theorem length_seen (h : Inv st) (hlen : (slotAt st.ring s).len ≠ 0)
    (hs : s = 0 ∨ ∃ c data p, st.writes c = .reserved data s p ∧ 7 ≤ rank p) :
    Overtaken st s ∨ ∃ c data p, st.writes c = .reserved data s p ∧ 6 ≤ rank p ∧
      (slotAt st.ring s).len = data.length := by
  by_cases ho : Overtaken st s
  · exact .inl ho
  refine .inr ?_
  rcases hs with rfl | ⟨c, data, p, hc, hp⟩
  · by_cases hno : ∀ c data w p, st.writes c = .reserved data w p → 3 ≤ rank p →
        slotIndex st.ring w ≠ slotIndex st.ring 0
    · exact absurd (h.pristine 0 hno).2 hlen
    · push Not at hno
      obtain ⟨c, data, w, p, hc, hp, hi⟩ := hno
      have hw : w = 0 := by
        by_contra hw
        exact ho ⟨c, data, w, p, hc, hp, Nat.pos_of_ne_zero hw, hi⟩
      subst hw
      have hcont := h.content c data 0 p hc hp ho
      refine ⟨c, data, p, hc, ?_⟩
      cases p with
      | loadRead | exchangeRead | invalidate => simp [rank] at hp
      | clearLen => exact absurd (hcont.2 st.ring.geometry.slotCount_pos) hlen
      | copy | setLen => exact absurd hcont.2.1 hlen
      | stamp => exact ⟨by simp [rank], hcont.2.1⟩
      | returned => exact ⟨by simp [rank], hcont.sized⟩
  · have hcont := h.content c data s p hc (by omega) ho
    rw [rank_eq_returned hp] at hcont
    exact ⟨c, data, p, hc, by omega, hcont.sized⟩

theorem bytes_seen (h : Inv st) {c : Nat} {p : WritePoint}
    (hc : st.writes c = .reserved data s p) (hp : 6 ≤ rank p) (ho : ¬ Overtaken st s) :
    slice (slotAt st.ring s).data data.length = data := by
  have hcont := h.content c data s p hc (by omega) ho
  cases p with
  | loadRead | exchangeRead | invalidate | clearLen | copy | setLen => simp [rank] at hp
  | stamp => exact hcont.2.2
  | returned => exact hcont.bytes

theorem take_eq_of_getElem (h : ∀ i, (hi : i < data.length) → out[i]? = some (data.get ⟨i, hi⟩)) :
    out.take data.length = data := by
  apply ext_getElem?
  intro i
  by_cases hi : i < data.length
  · rw [getElem?_take_of_lt hi, h i hi]
    simp [hi]
  · rw [getElem?_eq_none (by simp; omega), getElem?_eq_none (by omega)]

theorem stepRead_sound (h : Inv st) {k : Nat} {call call' : ReadCall} (hs : Sound st call)
    (hstep : stepRead st.ring k call = some call') : Sound st call' := by
  cases call with
  | idle | returned => cases hstep
  | running s out p =>
    cases p with
    | loadWrite =>
      simp only [stepRead, some.injEq] at hstep
      subst hstep
      split_ifs <;> trivial
    | loadSeq =>
      simp only [stepRead, some.injEq] at hstep
      subst hstep
      split_ifs with hseq
      · trivial
      · rcases stamped_cases h (not_not.mp hseq) with ⟨hz, _⟩ | ⟨c, data, hc, _⟩
        · exact .inl hz
        · exact .inr ⟨c, data, .returned, hc, le_rfl⟩
    | loadLen =>
      simp only [stepRead, some.injEq] at hstep
      subst hstep
      split_ifs with hz hl
      · trivial
      · trivial
      rcases length_seen h hz hs with ho | ⟨c, data, p, hc, hp, hn⟩
      · exact .inl ho
      · refine .inr ⟨c, data, p, hc, hp, hn, Nat.le_of_not_lt hl, fun i hi hmem => ?_⟩
        exact absurd (mem_range.mpr (hn ▸ hi)) hmem
    | copy n todo =>
      simp only [stepRead] at hstep
      split_ifs at hstep with ht hk
      · cases hstep
        subst ht
        exact hs
      cases hstep
      by_cases ho : Overtaken st s
      · exact .inl ho
      rcases hs with ho' | ⟨c, data, p, hc, hp, hn, hl, hd⟩
      · exact absurd ho' ho
      refine .inr ⟨c, data, p, hc, hp, hn, by simpa using hl, fun i hi hmem => ?_⟩
      by_cases hik : i = k
      · subst hik
        have hb := (slice_eq_iff _ _).mp (bytes_seen h hc hp ho) i hi
        rw [getElem?_set_self (by omega), hb]
      · rw [getElem?_set_ne (Ne.symm hik)]
        exact hd i hi fun hm => hmem ((mem_erase_of_ne hik).mpr hm)
    | recheck n =>
      simp only [stepRead, some.injEq] at hstep
      subst hstep
      split_ifs with hseq
      · trivial
      rcases hs with ho | ⟨c, data, p, hc, _, hn, _, hd⟩
      · rcases stamped_cases h (not_not.mp hseq) with ⟨_, hno⟩ | ⟨_, _, _, hno⟩
        · obtain ⟨c, data, v, p, hv, hp, _, hi⟩ := ho
          exact absurd hi (hno c data v p hv hp)
        · exact absurd ho hno
      · subst hn
        exact ⟨c, data, p, hc, rfl, take_eq_of_getElem fun i hi => hd i hi (by simp)⟩

theorem step_sound (h : Inv st) (hr : ∀ r, Sound st (st.reads r)) (hs : step st a = some st') :
    ∀ r, Sound st' (st'.reads r) := by
  have hadv := step_advances hs
  intro r
  cases a with
  | beginWrite c data =>
    obtain ⟨_, rfl⟩ := step_beginWrite hs
    exact sound_mono hadv (hr r)
  | write c k =>
    have he : st'.reads = st.reads := by
      rcases step_write_cases hs with ⟨_, _, _, rfl⟩ | ⟨_, _, _, rfl⟩ | ⟨_, _, _, _, _, _, _, rfl⟩ <;>
        rfl
    rw [he]
    exact sound_mono hadv (hr r)
  | beginRead c s out =>
    obtain ⟨_, rfl⟩ := step_beginRead hs
    by_cases hrc : r = c
    · subst hrc
      simp only [update_self]
      trivial
    · simp only [update_of_ne hrc]
      exact sound_mono hadv (hr r)
  | read c k =>
    obtain ⟨call, hcall, rfl⟩ := step_read hs
    by_cases hrc : r = c
    · subst hrc
      simp only [update_self]
      exact sound_mono hadv (stepRead_sound h (hr r) hcall)
    · simp only [update_of_ne hrc]
      exact sound_mono hadv (hr r)

/-- In an orderly schedule, whatever the number of writers, no read returns
anything but the payload of the number it asked for. -/
theorem orderly_sound {g : Geometry} (h : Reach step orderly (initial g) st) :
    Inv st ∧ ∀ r, Sound st (st.reads r) :=
  h.invariant (I := fun st => Inv st ∧ ∀ r, Sound st (st.reads r))
    ⟨initial_inv g, fun _ => trivial⟩ fun _ _ _ hi ha hs =>
    ⟨step_inv hi.1 ha hs, step_sound hi.1 hi.2 hs⟩

/-- One writer: a write is called only when every earlier call is over. -/
def soloWriter (st : State) : Action → Prop
  | .beginWrite _ _ => ∀ c, settled (st.writes c)
  | _ => True

structure Solo (st : State) : Prop where
  below : ∀ c data w p, st.writes c = .reserved data w p → w < st.ring.writeIndex
  alone : ∀ c c', settled (st.writes c) = false → settled (st.writes c') = false → c = c'
  last : ∀ c data w p, st.writes c = .reserved data w p →
    settled (st.writes c) = false → w + 1 = st.ring.writeIndex

theorem solo_orderly (h : Solo st) (hs : step st a = some st') : orderly st a := by
  cases a with
  | beginWrite | beginRead | read => trivial
  | write c k =>
    rintro data w p hc _ ⟨d, e, v, q, hd, _, hlt, _⟩
    have hb := h.below _ _ _ _ hd
    have hw := h.last c data w p hc ?_
    · omega
    rw [hc]
    cases p with
    | returned => simp [step, hc, stepWrite, movePoint] at hs
    | loadRead | exchangeRead | invalidate | clearLen | copy | setLen | stamp => rfl

theorem solo_update (h : Solo st) {c : Nat} {call : WriteCall} {m : Ring}
    (hc : settled (st.writes c) = false) (hw : st.ring.writeIndex ≤ m.writeIndex)
    (hcall : ∀ data w p, call = .reserved data w p → w + 1 = m.writeIndex) :
    Solo ⟨m, update st.writes c call, st.reads⟩ := by
  have hother : ∀ d, settled (update st.writes c call d) = false → d = c := by
    intro d hd
    by_contra hdc
    rw [update_of_ne hdc] at hd
    exact hdc (h.alone _ _ hd hc)
  refine ⟨?_, ?_, ?_⟩
  · intro d data w p hd
    by_cases hdc : d = c
    · subst hdc
      have := hcall data w p ((update_self ..).symm.trans hd)
      exact Nat.lt_of_succ_le this.le
    · exact (h.below d data w p ((update_of_ne hdc ..).symm.trans hd)).trans_le hw
  · intro d d' hd hd'
    rw [hother d hd, hother d' hd']
  · intro d data w p hd hset
    have hdc := hother d hset
    subst hdc
    exact hcall data w p ((update_self ..).symm.trans hd)

theorem step_solo (h : Solo st) (ha : soloWriter st a) (hs : step st a = some st') : Solo st' := by
  cases a with
  | beginWrite c data =>
    obtain ⟨hc, rfl⟩ := step_beginWrite hs
    have hother : ∀ d, settled (update st.writes c (.entered data) d) = false → d = c := by
      intro d hd
      by_contra hdc
      rw [update_of_ne hdc, ha d] at hd
      cases hd
    have hres : ∀ d e v q, update st.writes c (.entered data) d = .reserved e v q ↔
        st.writes d = .reserved e v q := update_reserved_iff (by simp [hc]) (by simp)
    refine ⟨fun d e v q hd => h.below _ _ _ _ ((hres _ _ _ _).mp hd), ?_, ?_⟩
    · intro d d' hd hd'
      rw [hother d hd, hother d' hd']
    intro d e v q hd hset
    have hdc := hother d hset
    subst hdc
    simp at hd
  | write c k =>
    rcases step_write_cases hs with ⟨data, hc, _, rfl⟩ | ⟨data, hc, _, rfl⟩ | ⟨data, w, p, m, p', hc, hm, rfl⟩
    · exact solo_update h (by rw [hc]; rfl) le_rfl (by simp)
    · refine solo_update h (by rw [hc]; rfl) (Nat.le_succ _) ?_
      rintro _ _ _ ⟨⟩
      rfl
    obtain ⟨_, hw, _⟩ := movePoint_frame hm
    have hset : settled (st.writes c) = false := by
      rw [hc]
      cases p with
      | returned => simp [movePoint] at hm
      | loadRead | exchangeRead | invalidate | clearLen | copy | setLen | stamp => rfl
    refine solo_update h hset hw.ge ?_
    rintro _ _ _ ⟨⟩
    rw [hw]
    exact h.last c data w p hc hset
  | beginRead c s out =>
    obtain ⟨_, rfl⟩ := step_beginRead hs
    exact ⟨h.below, h.alone, h.last⟩
  | read c k =>
    obtain ⟨_, _, rfl⟩ := step_read hs
    exact ⟨h.below, h.alone, h.last⟩

theorem initial_solo (g : Geometry) : Solo (initial g) :=
  ⟨by simp [initial], by simp [initial, settled], by simp [initial]⟩

/-- One writer, any number of readers, every interleaving: a read that
returns has copied the payload of the write that was given its number. -/
theorem solo_writer_reads_whole (g : Geometry) {st : State}
    (h : Reach step soloWriter (initial g) st) {r s n : Nat} {out : Bytes}
    (hr : st.reads r = .returned s out (.ok n)) :
    ∃ c data p, st.writes c = .reserved data s p ∧
      (∀ c' data' p', st.writes c' = .reserved data' s p' → c' = c) ∧
      n = data.length ∧ out.take n = data := by
  have ho : Reach step orderly (initial g) st :=
    h.weaken (initial_solo g) (fun _ _ _ => step_solo) fun _ _ _ hi _ hs => solo_orderly hi hs
  obtain ⟨hi, hsound⟩ := orderly_sound ho
  have hx := hsound r
  rw [hr] at hx
  obtain ⟨c, data, p, hc, hn, hout⟩ := hx
  exact ⟨c, data, p, hc, fun c' _ _ hc' => hi.unique _ _ _ _ _ _ _ hc' hc, hn, hout⟩

def writeThenRead : List Action :=
  List.replicate 8 (.write 0 0) ++ [.beginRead 0 0 [9, 9]] ++ List.replicate 6 (.read 0 0)

theorem solo_writer_reads_whole_once :
    ∃ st, Reach step soloWriter (initial twoSlots) st ∧
      st.reads 0 = .returned 0 [7, 9] (.ok 1) ∧
      ∃ c data p, st.writes c = .reserved data 0 p ∧
        (∀ c' data' p', st.writes c' = .reserved data' 0 p' → c' = c) ∧
        1 = data.length ∧ [7, 9].take 1 = data := by
  have hstart : Reach step soloWriter (initial twoSlots)
      ⟨create twoSlots, update (fun _ => .idle) 0 (.entered [7]), fun _ => .idle⟩ :=
    .tail (.beginWrite 0 [7]) .refl (fun _ => rfl) rfl
  have hrun : (run step writeThenRead
      ⟨create twoSlots, update (fun _ => .idle) 0 (.entered [7]), fun _ => .idle⟩).map
        (fun st => st.reads 0) = some (.returned 0 [7, 9] (.ok 1)) := by decide +kernel
  obtain ⟨st, hst, hread⟩ := map_eq_some_iff.mp hrun
  have hreach := hstart.trans (reach_of_run hst (by simp [writeThenRead, soloWriter]))
  exact ⟨st, hreach, hread, solo_writer_reads_whole twoSlots hreach hread⟩

end RmwAxon.Seqlock
