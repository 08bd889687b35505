import RmwAxon.RingAtomic

namespace RmwAxon.SlotOrder

open Cells RingBuffer RingHistory RingAtomic Function

def Overtaken (st : State) (w : Nat) : Prop :=
  ∃ c data v p, st.writes c = .reserved data v p ∧ 3 ≤ rank p ∧ w < v ∧
    slotIndex st.ring v = slotIndex st.ring w

/-- No call stores into its slot once a later write has begun to do so. -/
def orderly (st : State) : Action → Prop
  | .write c _ => ∀ data w p, st.writes c = .reserved data w p → 2 ≤ rank p → ¬ Overtaken st w
  | _ => True

/-- What the slot contains while the last call that stored into it is at a
program point. The length word keeps its zero through the first turn. -/
def Content (n : Nat) (data : Bytes) (w : Nat) (c : Slot) : WritePoint → Prop
  | .loadRead | .exchangeRead _ | .invalidate => w < n → c.len = 0
  | .clearLen => c.seq = none ∧ (w < n → c.len = 0)
  | .copy todo => c.seq = none ∧ c.len = 0 ∧
      ∀ i, (h : i < data.length) → i ∉ todo → c.data i = data.get ⟨i, h⟩
  | .setLen => c.seq = none ∧ c.len = 0 ∧ slice c.data data.length = data
  | .stamp => c.seq = none ∧ c.len = data.length ∧ slice c.data data.length = data
  | .returned => Holds c w data

variable {m : Ring} {k w c : Nat} {data : Bytes} {p p' : WritePoint} {st st' : State}

theorem movePoint_content {m' : Ring} {n : Nat} (h : movePoint m k data w p = some (m', p'))
    (hp : 2 ≤ rank p) (hfit : data.length ≤ payloadCapacity m)
    (hc : Content n data w (slotAt m w) p) :
    Content n data w (slotAt m' w) p' := by
  cases p with
  | loadRead | exchangeRead => simp [rank] at hp
  | invalidate =>
    cases h
    simp only [storeSeq, slotAt_updateSlot_self, Content]
    exact ⟨trivial, hc⟩
  | clearLen =>
    cases h
    simp only [storeLen, slotAt_updateSlot_self, Content]
    exact ⟨hc.1, trivial, fun i hi hn => absurd (List.mem_range.mpr hi) hn⟩
  | copy todo =>
    obtain ⟨hseq, hlen, hdata⟩ := hc
    simp only [movePoint] at h
    split_ifs at h with ht hk
    · cases h
      subst ht
      exact ⟨hseq, hlen, (slice_eq_iff _ _).mpr fun i hi => hdata i hi (by simp)⟩
    cases h
    simp only [storeByte, slotAt_updateSlot_self, Content]
    refine ⟨hseq, hlen, fun i hi hn => ?_⟩
    by_cases hik : i = k
    · subst hik
      simp [hi]
    · rw [update_of_ne hik]
      exact hdata i hi fun hm => hn ((List.mem_erase_of_ne hik).mpr hm)
  | setLen =>
    cases h
    simp only [storeLen, slotAt_updateSlot_self, Content]
    exact ⟨hc.1, asU32_of_le hfit, hc.2.2⟩
  | stamp =>
    cases h
    simp only [storeSeq, slotAt_updateSlot_self, Content]
    exact ⟨rfl, hc.2.1, hc.2.2⟩
  | returned => cases h

structure Advances (st st' : State) : Prop where
  geometry : st'.ring.geometry = st.ring.geometry
  writeIndex : st.ring.writeIndex ≤ st'.ring.writeIndex
  call : ∀ c data w p, st.writes c = .reserved data w p →
    ∃ p', st'.writes c = .reserved data w p' ∧ rank p ≤ rank p'

theorem Advances.slotIndex (h : Advances st st') (s : Nat) :
    RingBuffer.slotIndex st'.ring s = RingBuffer.slotIndex st.ring s := by
  simp only [RingBuffer.slotIndex, slotCount, h.geometry]

theorem Advances.overtaken (h : Advances st st') (ho : Overtaken st w) : Overtaken st' w := by
  obtain ⟨c, data, v, p, hc, hp, hlt, hi⟩ := ho
  obtain ⟨p', hc', hp'⟩ := h.call c data v p hc
  exact ⟨c, data, v, p', hc', hp.trans hp', hlt, by rw [h.slotIndex, h.slotIndex, hi]⟩

/-- The bookkeeping of the calls, and for each slot the contents that the
last call to store into it has reached. -/
structure Inv (st : State) : Prop where
  assigned : ∀ s, s < st.ring.writeIndex → ∃ c data p, st.writes c = .reserved data s p
  below : ∀ c data w p, st.writes c = .reserved data w p → w < st.ring.writeIndex
  fits : ∀ c data w p, st.writes c = .reserved data w p → data.length ≤ payloadCapacity st.ring
  unique : ∀ c c' data data' w p p', st.writes c = .reserved data w p →
    st.writes c' = .reserved data' w p' → c = c'
  content : ∀ c data w p, st.writes c = .reserved data w p → 3 ≤ rank p → ¬ Overtaken st w →
    Content (slotCount st.ring) data w (slotAt st.ring w) p
  pristine : ∀ s, (∀ c data w p, st.writes c = .reserved data w p → 3 ≤ rank p →
    slotIndex st.ring w ≠ slotIndex st.ring s) →
    (slotAt st.ring s).seq = some 0 ∧ (slotAt st.ring s).len = 0

theorem initial_inv (g : Geometry) : Inv (initial g) :=
  ⟨by simp [initial, create], by simp [initial], by simp [initial], by simp [initial],
    by simp [initial], fun _ _ => ⟨rfl, rfl⟩⟩

/-- Among the calls that stored into a slot there is one no other overtook. -/
theorem exists_last (h : Inv st) (hc : st.writes c = .reserved data w p) (hp : 3 ≤ rank p) :
    ∃ c' data' v p', st.writes c' = .reserved data' v p' ∧ 3 ≤ rank p' ∧ w ≤ v ∧
      slotIndex st.ring v = slotIndex st.ring w ∧ ¬ Overtaken st v := by
  have hfuel : st.ring.writeIndex ≤ w + (st.ring.writeIndex - w) := by omega
  generalize st.ring.writeIndex - w = fuel at hfuel
  induction fuel generalizing c data w p with
  | zero => exact absurd (h.below c data w p hc) (by omega)
  | succ fuel ih =>
    by_cases ho : Overtaken st w
    · obtain ⟨c', data', v, p', hc', hp', hlt, hi⟩ := ho
      obtain ⟨d, e, u, q, hd, hq, hle, hj, hn⟩ := ih hc' hp' (by omega)
      exact ⟨d, e, u, q, hd, hq, by omega, hj.trans hi, hn⟩
    · exact ⟨c, data, w, p, hc, hp, le_rfl, rfl, ho⟩

theorem inv_of_same_calls (h : Inv st) (hr : st'.ring = st.ring)
    (hc : ∀ c data w p, st'.writes c = .reserved data w p ↔ st.writes c = .reserved data w p) :
    Inv st' := by
  have ho : ∀ w, Overtaken st' w ↔ Overtaken st w := by simp only [Overtaken, hr, hc, implies_true]
  refine ⟨?_, ?_, ?_, ?_, ?_, ?_⟩
  · simpa only [hr, hc] using h.assigned
  · simpa only [hr, hc] using h.below
  · simpa only [hr, hc] using h.fits
  · simpa only [hc] using h.unique
  · simpa only [hr, hc, ho] using h.content
  · simpa only [hr, hc] using h.pristine

variable {writes : Nat → WriteCall}

theorem update_reserved_iff {call : WriteCall} (hold : ∀ data w p, writes c ≠ .reserved data w p)
    (hnew : ∀ data w p, call ≠ .reserved data w p) (d : Nat) (data : Bytes) (w : Nat)
    (p : WritePoint) :
    update writes c call d = .reserved data w p ↔ writes d = .reserved data w p := by
  by_cases hd : d = c
  · subst hd
    simp [hold, hnew]
  · rw [update_of_ne hd]

theorem update_reserved {d v : Nat} {e : Bytes} {q : WritePoint}
    (h : update writes c (.reserved data w p) d = .reserved e v q) :
    (d = c ∧ e = data ∧ v = w ∧ q = p) ∨ (d ≠ c ∧ writes d = .reserved e v q) := by
  by_cases hdc : d = c
  · subst hdc
    rw [update_self] at h
    cases h
    exact .inl ⟨rfl, rfl, rfl, rfl⟩
  · rw [update_of_ne hdc] at h
    exact .inr ⟨hdc, h⟩

theorem reserve_inv (h : Inv st) (hc : st.writes c = .entered data)
    (hfit : data.length ≤ payloadCapacity st.ring) :
    Inv ⟨reserve st.ring, update st.writes c (.reserved data st.ring.writeIndex .loadRead), st.reads⟩ := by
  have hkeep : ∀ d data' w p, st.writes d = .reserved data' w p →
      update st.writes c (.reserved data st.ring.writeIndex .loadRead) d = .reserved data' w p := by
    intro d data' w p hd
    rw [update_of_ne]
    · exact hd
    · rintro rfl; simp [hc] at hd
  refine ⟨?_, ?_, ?_, ?_, ?_, ?_⟩
  · intro s hs
    rcases Nat.lt_succ_iff_lt_or_eq.mp hs with hs | rfl
    · obtain ⟨d, data', p, hd⟩ := h.assigned s hs
      exact ⟨d, data', p, hkeep _ _ _ _ hd⟩
    · exact ⟨c, data, .loadRead, update_self ..⟩
  · intro d data' w p hd
    rcases update_reserved hd with ⟨_, _, rfl, _⟩ | ⟨_, hd⟩
    · exact Nat.lt_succ_self _
    · exact Nat.lt_succ_of_lt (h.below _ _ _ _ hd)
  · intro d data' w p hd
    rcases update_reserved hd with ⟨_, rfl, _, _⟩ | ⟨_, hd⟩
    · exact hfit
    · exact h.fits _ _ _ _ hd
  · intro d d' e e' w p p' hd hd'
    rcases update_reserved hd with ⟨rfl, _, rfl, _⟩ | ⟨_, hx⟩ <;>
      rcases update_reserved hd' with ⟨rfl, _, he, _⟩ | ⟨_, hy⟩
    · rfl
    · exact absurd (h.below _ _ _ _ hy) (lt_irrefl _)
    · subst he; exact absurd (h.below _ _ _ _ hx) (lt_irrefl _)
    · exact h.unique _ _ _ _ _ _ _ hx hy
  · intro d data' w p hd hp ho
    rcases update_reserved hd with ⟨_, _, _, rfl⟩ | ⟨_, hd⟩
    · simp [rank] at hp
    · refine h.content _ _ _ _ hd hp ?_
      rintro ⟨e, f, v, q, he, hq, hlt, hi⟩
      exact ho ⟨e, f, v, q, hkeep _ _ _ _ he, hq, hlt, hi⟩
  · intro s hs
    exact h.pristine s fun d data' w p hd hp => hs d data' w p (hkeep _ _ _ _ hd) hp

theorem move_advances (hc : st.writes c = .reserved data w p)
    (hm : movePoint st.ring k data w p = some (m, p')) :
    Advances st ⟨m, update st.writes c (.reserved data w p'), st.reads⟩ := by
  obtain ⟨hg, hw, _⟩ := movePoint_frame hm
  refine ⟨hg, hw.ge, ?_⟩
  intro d e v q hd
  by_cases hdc : d = c
  · subst hdc
    rw [hc] at hd
    cases hd
    exact ⟨p', update_self .., (movePoint_rank hm).1⟩
  · exact ⟨q, by rw [← hd]; exact update_of_ne hdc _ _, le_rfl⟩

/-- A call that is about to store has not yet left a trace in a slot of the
first turn, so its length word is still zero. -/
theorem content_before_move (h : Inv st) (hc : st.writes c = .reserved data w p) (hp : 2 ≤ rank p)
    (ho : ¬ Overtaken st w) :
    Content (slotCount st.ring) data w (slotAt st.ring w) p := by
  rcases Nat.lt_or_ge (rank p) 3 with hlt | hge
  · cases p with
    | loadRead | exchangeRead | clearLen | copy | setLen | stamp | returned => simp [rank] at hp hlt
    | invalidate =>
      intro hw
      refine (h.pristine w fun d e v q hd hq hi => ?_).2
      rcases Nat.lt_trichotomy v w with hv | rfl | hv
      · have := add_le_of_mod_eq hi hv
        simp only [slotCount] at hw this
        omega
      · have hdc := h.unique _ _ _ _ _ _ _ hd hc
        subst hdc
        rw [hc] at hd
        cases hd
        simp [rank] at hq
      · exact ho ⟨d, e, v, q, hd, hq, hv, hi⟩
  · exact h.content c data w p hc hge ho

theorem move_inv (h : Inv st) (hc : st.writes c = .reserved data w p)
    (hm : movePoint st.ring k data w p = some (m, p')) (ho : 2 ≤ rank p → ¬ Overtaken st w) :
    Inv ⟨m, update st.writes c (.reserved data w p'), st.reads⟩ := by
  obtain ⟨hg, hw, hslot⟩ := movePoint_frame hm
  obtain ⟨hrank, hstores, hloads⟩ := movePoint_rank hm
  have hadv := move_advances hc hm
  have hindex : ∀ s, slotIndex m s = slotIndex st.ring s := hadv.slotIndex
  have hself : update st.writes c (.reserved data w p') c = .reserved data w p' :=
    update_self ..
  refine ⟨?_, ?_, ?_, ?_, ?_, ?_⟩
  · intro s hs
    obtain ⟨d, e, q, hd⟩ := h.assigned s (hw ▸ hs)
    obtain ⟨q', hq', _⟩ := hadv.call d e s q hd
    exact ⟨d, e, q', hq'⟩
  · intro d e v q hd
    rw [show State.ring _ = m from rfl, hw]
    rcases update_reserved hd with ⟨_, _, rfl, _⟩ | ⟨_, hx⟩
    · exact h.below _ _ _ _ hc
    · exact h.below _ _ _ _ hx
  · intro d e v q hd
    simp only [payloadCapacity, hg]
    rcases update_reserved hd with ⟨_, rfl, _, _⟩ | ⟨_, hx⟩
    · exact h.fits _ _ _ _ hc
    · exact h.fits _ _ _ _ hx
  · intro d d' e e' v q q' hd hd'
    rcases update_reserved hd with ⟨rfl, _, rfl, _⟩ | ⟨_, hx⟩ <;>
      rcases update_reserved hd' with ⟨rfl, _, hv, _⟩ | ⟨_, hy⟩
    · rfl
    · exact h.unique _ _ _ _ _ _ _ hc hy
    · subst hv; exact h.unique _ _ _ _ _ _ _ hx hc
    · exact h.unique _ _ _ _ _ _ _ hx hy
  · intro d e v q hd hq hno
    rw [show State.ring _ = m from rfl, slotCount, hg]
    rcases update_reserved hd with ⟨_, rfl, rfl, rfl⟩ | ⟨hdc, hx⟩
    · have hp : 2 ≤ rank p := by by_contra hlt; have := hloads (by omega); omega
      exact movePoint_content hm hp (h.fits _ _ _ _ hc) (content_before_move h hc hp (ho hp))
    have hnold : ¬ Overtaken st v := fun hov => hno (hadv.overtaken hov)
    have hcont := h.content _ _ _ _ hx hq hnold
    by_cases hstore : 2 ≤ rank p
    · rw [hslot v (.inr ?_)]
      · exact hcont
      · intro hi
        rcases Nat.lt_trichotomy v w with hv | rfl | hv
        · exact hno ⟨c, data, w, p', hself, hstores hstore, hv, by rw [hindex, hindex, hi]⟩
        · exact hdc (h.unique _ _ _ _ _ _ _ hx hc)
        · exact ho hstore ⟨d, e, v, q, hx, hq, hv, hi⟩
    · rw [hslot v (.inl (by omega))]
      exact hcont
  · intro s hs
    have hold := h.pristine s fun d e v q hd hq => by
      obtain ⟨q', hq', hle⟩ := hadv.call d e v q hd
      have := hs d e v q' hq' (hq.trans hle)
      rwa [hindex, hindex] at this
    rw [show slotAt m s = slotAt st.ring s from hslot s ?_]
    · exact hold
    by_cases hstore : 2 ≤ rank p
    · refine .inr fun hi => hs c data w p' hself (hstores hstore) ?_
      rw [hindex, hindex, hi]
    · exact .inl (by omega)

theorem step_advances {a : Action} (hs : step st a = some st') : Advances st st' := by
  cases a with
  | beginWrite c data =>
    obtain ⟨hc, rfl⟩ := step_beginWrite hs
    refine ⟨rfl, le_rfl, fun d e v q hd => ⟨q, ?_, le_rfl⟩⟩
    rw [← hd]
    exact update_of_ne (by rintro rfl; simp [hc] at hd) _ _
  | write c k =>
    rcases step_write_cases hs with ⟨data, hc, _, rfl⟩ | ⟨data, hc, _, rfl⟩ | ⟨data, w, p, m, p', hc, hm, rfl⟩
    · refine ⟨rfl, le_rfl, fun d e v q hd => ⟨q, ?_, le_rfl⟩⟩
      rw [← hd]
      exact update_of_ne (by rintro rfl; simp [hc] at hd) _ _
    · refine ⟨rfl, Nat.le_succ _, fun d e v q hd => ⟨q, ?_, le_rfl⟩⟩
      rw [← hd]
      exact update_of_ne (by rintro rfl; simp [hc] at hd) _ _
    · exact move_advances hc hm
  | beginRead c s out =>
    obtain ⟨_, rfl⟩ := step_beginRead hs
    exact ⟨rfl, le_rfl, fun d e v q hd => ⟨q, hd, le_rfl⟩⟩
  | read c k =>
    obtain ⟨_, _, rfl⟩ := step_read hs
    exact ⟨rfl, le_rfl, fun d e v q hd => ⟨q, hd, le_rfl⟩⟩

theorem step_inv {a : Action} (h : Inv st) (ha : orderly st a) (hs : step st a = some st') : Inv st' := by
  cases a with
  | beginWrite c data =>
    obtain ⟨hc, rfl⟩ := step_beginWrite hs
    exact inv_of_same_calls h rfl (update_reserved_iff (by simp [hc]) (by simp))
  | write c k =>
    rcases step_write_cases hs with ⟨data, hc, _, rfl⟩ | ⟨data, hc, hfit, rfl⟩ |
      ⟨data, w, p, m, p', hc, hm, rfl⟩
    · exact inv_of_same_calls h rfl (update_reserved_iff (by simp [hc]) (by simp))
    · exact reserve_inv h hc hfit
    · exact move_inv h hc hm (ha data w p hc)
  | beginRead c s out =>
    obtain ⟨_, rfl⟩ := step_beginRead hs
    exact inv_of_same_calls h rfl fun _ _ _ _ => Iff.rfl
  | read c k =>
    obtain ⟨_, _, rfl⟩ := step_read hs
    exact inv_of_same_calls h rfl fun _ _ _ _ => Iff.rfl

end RmwAxon.SlotOrder
