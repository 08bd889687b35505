import RmwAxon.RequestCall

namespace RmwAxon.RequestRun

open Cells RingBuffer RingHistory ServiceRequest RequestCall Transition Function List Option
open ServiceEnvelope (twoFrames)

variable {deserialize : Bytes → Bool} {first : Nat} {st st' : State} {r : Request}

/-- Clients reserve a slot only while the requests that wait leave one free, and
not between a failed look of the server and its look at the write index. What
they send can be deserialised. -/
def prompt (deserialize : Bytes → Bool) (st : State) : Event → Prop
  | .reserve r => deserialize r.payload = true ∧
      st.ring.writeIndex < st.nextSeq + slotCount st.ring ∧ looksAtIndex st.point = false
  | _ => True

instance (st : State) (e : Event) : Decidable (prompt deserialize st e) := by
  unfold prompt
  split <;> infer_instance

def Clean (m : Ring) : Prop :=
  ∀ s, m.writeIndex ≤ s → (slotAt m s).seq ≠ some s ∨ (slotAt m s).len = 0

theorem reserveSlot_eq (m : Ring) :
    ∃ i, reserveSlot m = { m with writeIndex := m.writeIndex + 1, readIndex := i } := by
  simp only [reserveSlot, reserve, compareExchangeRead]
  split
  · exact ⟨_, rfl⟩
  · exact ⟨m.readIndex, rfl⟩

variable {m : Ring} {s : Nat}

section

variable (h : Waiting deserialize first st)
include h

theorem waiting_of_slots (hm : SameSlots m st.ring)
    (hn : st'.nextSeq = st.nextSeq) (hr : st'.requests = st.requests)
    (hc : st'.completed = st.completed) (hring : st'.ring = m) : Waiting deserialize first st' := by
  obtain ⟨hg, hw, hs⟩ := hm
  subst hring
  have hslot : ∀ s, slotAt st'.ring s = slotAt st.ring s := fun s => by
    rw [slotAt, slotAt, hs, slotIndex, slotIndex, slotCount, slotCount, hg]
  refine ⟨?_, ?_, ?_, ?_, ?_, ?_, ?_, ?_, ?_⟩
  · exact hn ▸ h.low
  · exact hn ▸ hw ▸ h.high
  · simpa only [hn, hw, slotCount, hg] using h.window
  · simpa only [hr, hw, payloadCapacity, hg] using h.sent
  · simpa only [hr, hw] using h.known
  · simpa only [hr, hc] using h.begun
  · simpa only [hn, hc] using h.passed
  · simpa only [hr, hc, hn, hslot] using h.held
  · simpa only [hc, hn, hslot] using h.fresh

theorem waiting_of_reserve (hfit : r.frame.length ≤ payloadCapacity st.ring)
    (hok : deserialize r.payload = true) (hroom : st.ring.writeIndex < st.nextSeq + slotCount st.ring) :
    Waiting deserialize first { st with
      ring := reserveSlot st.ring
      requests := update st.requests st.ring.writeIndex (some r) } := by
  obtain ⟨i, hi⟩ := reserveSlot_eq st.ring
  rw [hi]
  have hold : ∀ s, st.completed s = true → s ≠ st.ring.writeIndex := by
    intro s hc
    obtain ⟨r', hr'⟩ := h.begun s hc
    exact Nat.ne_of_lt (h.sent s r' hr').2.1
  refine ⟨h.low, Nat.le_succ_of_le h.high, hroom, fun s r' hr' => ?_, fun s hs hlt => ?_, fun s hc => ?_,
    h.passed, fun s r' hr' hc hs => ?_, h.fresh⟩
  · simp only [update_apply] at hr'
    split_ifs at hr' with hs
    · cases hr'
      exact ⟨hs ▸ h.low.trans h.high, hs ▸ Nat.lt_succ_self _, hfit, hok⟩
    · obtain ⟨hfirst, hlt, hrest⟩ := h.sent s r' hr'
      exact ⟨hfirst, Nat.lt_succ_of_lt hlt, hrest⟩
  · by_cases hlast : s = st.ring.writeIndex
    · exact ⟨r, by simp [hlast]⟩
    · simp only [update_of_ne hlast]
      exact h.known s hs (Nat.lt_of_le_of_ne (Nat.le_of_lt_succ hlt) hlast)
  · simp only [update_of_ne (hold s hc)]
    exact h.begun s hc
  · simp only [update_of_ne (hold s hc)] at hr'
    exact h.held s r' hr' hc hs

theorem fill_other {t : Nat} {data : Bytes} (hts : t ≠ s)
    (hs : st.nextSeq ≤ s) (hsw : s < st.ring.writeIndex) (ht : st.nextSeq ≤ t)
    (htw : t < st.ring.writeIndex) : slotAt (fillSlot st.ring s data) t = slotAt st.ring t := by
  have hwindow := h.window
  rw [fillSlot_eq, slotAt_updateSlot_of_ne]
  exact fun hmod => hts (eq_of_mod_eq hmod htw hsw (by omega) (by omega))

end

theorem fill_fresh {t : Nat} {data : Bytes} (hts : t ≠ s)
    (h : (slotAt m t).seq ≠ some t ∨ (slotAt m t).len = 0) :
    (slotAt (fillSlot m s data) t).seq ≠ some t ∨ (slotAt (fillSlot m s data) t).len = 0 := by
  by_cases hmod : slotIndex m t = slotIndex m s
  · rw [fillSlot_eq, slotAt_updateSlot, if_pos hmod]
    exact .inl fun he => hts (some.inj he).symm
  · rw [fillSlot_eq, slotAt_updateSlot_of_ne _ hmod]
    exact h

theorem waiting_of_complete (h : Waiting deserialize first st) (hr : st.requests s = some r)
    (hc : st.completed s = false) :
    Waiting deserialize first { st with
      ring := fillSlot st.ring s r.frame
      completed := update st.completed s true } := by
  obtain ⟨_, hlt, hfit, _⟩ := h.sent s r hr
  have hs : st.nextSeq ≤ s := by
    by_contra hbefore
    rw [h.passed s (h.sent s r hr).1 (by omega)] at hc
    cases hc
  refine ⟨h.low, ?_, ?_, fun t r' hr' => ?_, fun t ht htw => ?_, fun t hd => ?_, fun t ht htn => ?_,
    fun t r' hr' hd ht => ?_, fun t hd ht => ?_⟩
  · simpa using h.high
  · simpa only [fillSlot_writeIndex, slotCount, fillSlot_geometry] using h.window
  · simpa only [fillSlot_writeIndex, payloadCapacity, fillSlot_geometry] using h.sent t r' hr'
  · exact h.known t ht (by simpa using htw)
  · by_cases hts : t = s
    · exact ⟨r, hts ▸ hr⟩
    · exact h.begun t (by simpa [hts] using hd)
  · by_cases hts : t = s
    · simp [hts]
    · simpa [hts] using h.passed t ht htn
  · by_cases hts : t = s
    · subst hts
      cases hr.symm.trans hr'
      rw [fillSlot_eq, slotAt_updateSlot_self]
      exact holds_of_fill _ _ hfit
    · simp only [update_of_ne hts] at hd
      rw [fill_other h hts hs hlt ht (h.sent t r' hr').2.1]
      exact h.held t r' hr' hd ht
  · have hts : t ≠ s := by
      rintro rfl
      simp at hd
    simp only [update_of_ne hts] at hd
    exact fill_fresh hts (h.fresh t hd ht)

theorem waiting_of_take (h : Waiting deserialize first st) (hr : Ready st r) (hm : SameSlots m st.ring) :
    Waiting deserialize first { st with
      ring := m, nextSeq := st.nextSeq + 1, point := .idle
      taken := st.taken ++ [returned st.nextSeq r] } := by
  have hpassed : ∀ s, first ≤ s → s < st.nextSeq + 1 → st.completed s = true := by
    intro s hs hlt
    rcases Nat.eq_or_lt_of_le (Nat.le_of_lt_succ hlt) with rfl | hlt
    · exact hr.2
    · exact h.passed s hs hlt
  have hkept : Waiting deserialize first { st with nextSeq := st.nextSeq + 1 } :=
    ⟨Nat.le_succ_of_le h.low, hr.below h, by have := h.window; simp only; omega, h.sent, h.known, h.begun,
      hpassed, fun s r' hr' hc hs => h.held s r' hr' hc (Nat.le_of_succ_le hs),
      fun s hc hs => h.fresh s hc (Nat.le_of_succ_le hs)⟩
  exact waiting_of_slots hkept hm rfl rfl rfl rfl

theorem inv_of_reserve (h : Inv deserialize first st) (hfit : r.frame.length ≤ payloadCapacity st.ring)
    (he : prompt deserialize st (.reserve r)) :
    Inv deserialize first { st with
      ring := reserveSlot st.ring
      requests := update st.requests st.ring.writeIndex (some r) } := by
  obtain ⟨hok, hroom, hindex⟩ := he
  have hlast : ∀ s, s < st.ring.writeIndex →
      update st.requests st.ring.writeIndex (some r) s = st.requests s :=
    fun s hlt => update_of_ne (Nat.ne_of_lt hlt) _ _
  refine ⟨waiting_of_reserve h.waiting hfit hok hroom, ?_, h.kept, h.promise,
    h.atPoint.mono rfl (fun r' hr' => ⟨?_, hr'.2⟩) (.inr hindex)⟩
  · rw [h.ordered]
    refine map_congr_left fun s hmem => ?_
    have hbelow := (mem_range'_1.mp hmem).2
    have hhigh := h.waiting.high
    have hlow := h.waiting.low
    simp only [hlast s (by omega)]
  · exact (hlast _ (hr'.below h.waiting)).trans hr'.1

theorem inv_of_advance {allocated : Bool} (h : Inv deserialize first st)
    (hs : advance deserialize allocated st st.point = some st') : Inv deserialize first st' := by
  rcases advance_cases h hs with ⟨m, p, hgo, rfl⟩ | ⟨m, r, hm, hr, rfl⟩
  · refine ⟨waiting_of_slots h.waiting hgo.same rfl rfl rfl rfl, h.ordered, h.kept, fun hp _ => ?_,
      hgo.atPoint.mono rfl (fun _ hr => hr) (.inl hgo.same.writeIndex)⟩
    refine h.promise hp fun hidle => ?_
    rw [hidle] at hs
    cases hs
  · refine ⟨waiting_of_take h.waiting hr hm, ?_, h.kept, fun _ hne => absurd rfl hne, trivial⟩
    have hlow := h.waiting.low
    rw [Nat.succ_sub hlow, range'_1_concat, map_append, map_append, h.ordered,
      Nat.add_sub_cancel' hlow, map_singleton, map_singleton, hr.1]
    rfl

theorem step_inv {e : Event} (h : Inv deserialize first st) (he : prompt deserialize st e)
    (hs : step deserialize st e = some st') : Inv deserialize first st' := by
  cases e with
  | reserve r =>
    rw [step] at hs
    split_ifs at hs with hfit
    cases hs
    exact inv_of_reserve h (Nat.le_of_not_lt hfit) he
  | complete s =>
    obtain ⟨r, hr, hs⟩ := bind_eq_some_iff.mp hs
    split_ifs at hs with hc
    cases hs
    have hmono : ∀ t, st.completed t = true → update st.completed s true t = true := by
      intro t ht
      rw [update_apply]
      split_ifs
      · rfl
      · exact ht
    exact ⟨waiting_of_complete h.waiting hr (Bool.not_eq_true _ ▸ hc), h.ordered, h.kept,
      fun hp hne => hmono _ (h.promise hp hne),
      h.atPoint.mono rfl (fun r' hr' => ⟨hr'.1, hmono _ hr'.2⟩) (.inl (fillSlot_writeIndex _ _ _))⟩
  | call =>
    rw [step] at hs
    split_ifs at hs
    cases hs
    exact ⟨waiting_of_slots h.waiting (.refl _) rfl rfl rfl rfl, h.ordered, h.kept, fun hp _ => hp,
      ⟨by decide, .inl rfl⟩⟩
  | act allocated => exact inv_of_advance h hs

theorem start_inv (hm : Clean m) : Inv deserialize m.writeIndex (start m) := by
  refine ⟨⟨Nat.le_refl _, Nat.le_refl _, Nat.le_add_right _ _, ?_, ?_, ?_, ?_, ?_, fun s _ hs => hm s hs⟩,
    ?_, rfl, ?_, trivial⟩
  · intro s r hr
    cases hr
  · intro s hs hlt
    exact absurd hlt (Nat.not_lt.mpr hs)
  · intro s hc
    cases hc
  · intro s hs hlt
    exact absurd hlt (Nat.not_lt.mpr hs)
  · intro s r hr
    cases hr
  · simp [start]
  · intro hp
    cases hp

def serve (deserialize : Bytes → Bool) (st : State) : Option State :=
  step deserialize st (if st.point = .idle then .call else .act true)

theorem advance_isSome {allocated : Bool} (hp : st.point ≠ .idle) :
    ∃ t, advance deserialize allocated st st.point = some t := by
  cases hpoint : st.point with
  | idle => exact absurd hpoint hp
  | size | sizeAgain | index => exact ⟨_, rfl⟩
  | receive | receiveAgain =>
    simp only [advance]
    split <;> exact ⟨_, rfl⟩

/-- While the request of the cursor is complete, each step brings its return
closer. -/
theorem serve_closer (h : Inv deserialize first st) (hc : st.completed st.nextSeq = true) :
    ∃ t, serve deserialize st = some t ∧ Inv deserialize first t ∧ t.requests = st.requests ∧
      t.completed = st.completed ∧
      (t.nextSeq = st.nextSeq ∧ rank t.point < rank st.point ∨ t.nextSeq = st.nextSeq + 1) := by
  by_cases hp : st.point = .idle
  · have hs : serve deserialize st =
        some { st with point := .size 0 smallBuf, promised := st.completed st.nextSeq } := by
      rw [serve, if_pos hp, step, if_pos hp]
    refine ⟨_, hs, step_inv (e := .call) h trivial ?_, rfl, rfl, .inl ⟨rfl, by simp [hp, rank]⟩⟩
    rw [step, if_pos hp]
  · obtain ⟨t, ht⟩ : ∃ t, advance deserialize true st st.point = some t := advance_isSome hp
    have hs : serve deserialize st = some t := by rw [serve, if_neg hp, step, ht]
    have hi : Inv deserialize first t := step_inv (e := .act true) h trivial ht
    rcases advance_cases h ht with ⟨m, p, hgo, rfl⟩ | ⟨m, r, hm, hr, rfl⟩
    · refine ⟨_, hs, hi, rfl, rfl, .inl ⟨rfl, hgo.closer fun hidle => ?_⟩⟩
      rcases hgo.ended hidle with hfalse | hfalse
      · rw [hc] at hfalse
        cases hfalse
      · cases hfalse
    · exact ⟨_, hs, hi, rfl, rfl, .inr rfl⟩

theorem serve_reaches (h : Inv deserialize first st)
    (hc : ∀ t, st.nextSeq ≤ t → t ≤ s → st.completed t = true) :
    ∃ t, Reach (fun u (_ : Unit) => serve deserialize u) anyStep st t ∧
      Inv deserialize first t ∧ t.requests = st.requests ∧ s < t.nextSeq := by
  let keeps : State → Prop := fun u =>
    Inv deserialize first u ∧ u.requests = st.requests ∧ u.completed = st.completed ∧ st.nextSeq ≤ u.nextSeq
  have hstep : ∀ u, keeps u → ¬ (keeps u ∧ s < u.nextSeq) →
      ∃ (_ : Unit) (t : State), serve deserialize u = some t ∧ keeps t ∧
        (s + 1 - t.nextSeq) * 9 + rank t.point < (s + 1 - u.nextSeq) * 9 + rank u.point := by
    intro u hu hstop
    have hle : u.nextSeq ≤ s := Nat.le_of_not_lt fun hlt => hstop ⟨hu, hlt⟩
    obtain ⟨hi, hreq, hcomp, hfrom⟩ := hu
    obtain ⟨t, ht, hi', hreq', hcomp', hnext⟩ := serve_closer hi (hcomp ▸ hc u.nextSeq hfrom hle)
    refine ⟨(), t, ht, ⟨hi', hreq'.trans hreq, hcomp'.trans hcomp, by omega⟩, ?_⟩
    have hbound := (rank_bounds t.point).2
    have hpos := (rank_bounds u.point).1
    rcases hnext with ⟨hsame, hlt⟩ | hsucc
    · rw [hsame]
      omega
    · rw [hsucc]
      omega
  obtain ⟨t, hreach, hkeeps, hlt⟩ := exists_reach_of_measure keeps (fun u => keeps u ∧ s < u.nextSeq)
    (fun u => (s + 1 - u.nextSeq) * 9 + rank u.point) hstep (s := st) ⟨h, rfl, rfl, Nat.le_refl _⟩
  exact ⟨t, hreach, hkeeps.1, hkeeps.2.1, hlt⟩

/-- While the clients leave a slot free and keep clear of the server's looks at
the write index, the calls return the requests one by one in the order of their
numbers, none is overwritten before it is returned, and a call whose request was
complete when it began does not come back empty. A server that goes on calling
returns each request that is complete with all before it. -/
theorem prompt_requests_returned {m : Ring} (hm : Clean m)
    (h : Reach (step deserialize) (prompt deserialize) (start m) st) :
    st.taken.map some = (List.range' m.writeIndex (st.nextSeq - m.writeIndex)).map
        (fun s => (st.requests s).map (returned s)) ∧
      oldestAvailableSeq st.ring ≤ st.nextSeq ∧ st.missed = false ∧
      ∀ s, st.nextSeq ≤ s → (∀ t, st.nextSeq ≤ t → t ≤ s → st.completed t = true) →
        ∃ t, Reach (fun u (_ : Unit) => serve deserialize u) anyStep st t ∧
          ∃ r ∈ st.requests s, returned s r ∈ t.taken := by
  have hi := h.invariant (start_inv hm) fun _ _ _ hi he hs => step_inv hi he hs
  refine ⟨hi.ordered, ?_, hi.kept, fun s hs hc => ?_⟩
  · have := hi.waiting.window
    simp only [oldestAvailableSeq, currentSeq]
    omega
  · obtain ⟨t, hreach, ht, hreq, hlt⟩ := serve_reaches hi hc
    obtain ⟨r, hr, hmem⟩ := ht.returned_mem (hi.waiting.low.trans hs) hlt
    exact ⟨t, hreach, r, hreq ▸ hr, hmem⟩

def request (n : Int) (hlo : -2 ^ 63 ≤ n) (hhi : n < 2 ^ 63) : Request :=
  ⟨Vector.replicate 16 1, n, [0, 1, 0, 0], hlo, hhi⟩

def firstRequest : Request := request 1 (by decide) (by decide)

def secondRequest : Request := request 2 (by decide) (by decide)

def thirdRequest : Request := request 3 (by decide) (by decide)

def anyPayload (_ : Bytes) : Bool := true

def wholeCall : List Event := [.call, .act true, .act true, .act true, .act true]

/-- The second request waits while the first one is returned. -/
theorem second_request_waits :
    ∃ st, guardedRun (step anyPayload) (prompt anyPayload)
        ([.reserve firstRequest, .reserve secondRequest, .complete 1, .complete 0] ++ wholeCall)
        (start (create twoFrames)) = some st ∧
      st.taken = [returned 0 firstRequest] ∧ oldestAvailableSeq st.ring ≤ st.nextSeq ∧
      ∃ t, Reach (fun u (_ : Unit) => serve anyPayload u) anyStep st t ∧
        returned 1 secondRequest ∈ t.taken := by
  obtain ⟨st, hrun, htaken, hnext, hcomp, hreq⟩ := exists_of_any (p := fun st =>
      st.taken = [returned 0 firstRequest] ∧ st.nextSeq = 1 ∧ st.completed 1 = true ∧
      (st.requests 1).map (returned 1) = some (returned 1 secondRequest))
    (o := guardedRun (step anyPayload) (prompt anyPayload)
        ([.reserve firstRequest, .reserve secondRequest, .complete 1, .complete 0] ++ wholeCall)
        (start (create twoFrames))) (by decide +kernel)
  obtain ⟨_, hold, _, hlive⟩ := prompt_requests_returned (fun _ _ => .inr rfl) (reach_of_guardedRun hrun)
  obtain ⟨t, hreach, r, hr, hmem⟩ := hlive 1 (by omega) fun v hv hle => by
    have : v = 1 := by omega
    rwa [this]
  refine ⟨st, hrun, htaken, hold, t, hreach, ?_⟩
  rw [mem_def.mp hr] at hreq
  exact some.inj hreq ▸ hmem

/-- A request behind the cursor that has not been returned never is. -/
theorem passed_over (hs : s < st.nextSeq) (hnot : ∀ x ∈ st.taken, x.seq ≠ s)
    (h : Reach (step deserialize) anyStep st st') : ∀ x ∈ st'.taken, x.seq ≠ s := by
  refine (h.invariant (I := fun u => s < u.nextSeq ∧ ∀ x ∈ u.taken, x.seq ≠ s) ⟨hs, hnot⟩
    fun u _ v hu _ hstep => ?_).2
  have hlater := step_later hstep
  refine ⟨hu.1.trans_le hlater.next, fun x hx => ?_⟩
  rcases hlater.taken x hx with hx | hx
  · exact hu.2 x hx
  · exact hx ▸ Nat.ne_of_gt hu.1

/-- Three requests reach a ring of two slots before the server calls. The first is
overwritten, and the call puts the cursor behind all of them: the two that the
ring still holds are never returned. -/
theorem retained_requests_skipped :
    ∃ st, run (step anyPayload) [.reserve firstRequest, .complete 0, .reserve secondRequest, .complete 1,
        .reserve thirdRequest, .complete 2] (start (create twoFrames)) = some st ∧
      oldestAvailableSeq st.ring = 1 ∧ st.completed 1 = true ∧ st.completed 2 = true ∧ st.taken = [] ∧
      ∃ t, run (step anyPayload) [.call, .act true, .act true] st = some t ∧
        ∀ u, Reach (step anyPayload) anyStep t u → ∀ x ∈ u.taken, x.seq ≠ 1 ∧ x.seq ≠ 2 := by
  obtain ⟨st, hrun, hold, hone, htwo, hempty, hjump⟩ := exists_of_any (p := fun st =>
      oldestAvailableSeq st.ring = 1 ∧ st.completed 1 = true ∧ st.completed 2 = true ∧ st.taken = [] ∧
      (run (step anyPayload) [.call, .act true, .act true] st).any
        (fun t => decide (t.nextSeq = 3 ∧ t.taken = [])) = true)
    (o := run (step anyPayload) [.reserve firstRequest, .complete 0, .reserve secondRequest, .complete 1,
        .reserve thirdRequest, .complete 2] (start (create twoFrames))) (by decide +kernel)
  obtain ⟨t, hcall, hnext, htaken⟩ := exists_of_any hjump
  refine ⟨st, hrun, hold, hone, htwo, hempty, t, hcall, fun u hu x hx => ?_⟩
  exact ⟨passed_over (by omega) (by simp [htaken]) hu x hx, passed_over (by omega) (by simp [htaken]) hu x hx⟩

end RmwAxon.RequestRun
