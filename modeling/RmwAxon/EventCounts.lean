import RmwAxon.EventMonitor
import RmwAxon.Transition

namespace RmwAxon.EventCounts

open EventMonitor Transition Function List Option

inductive Entry
  | triggered (h : Nat)
  | taken (h : Nat)
  deriving DecidableEq

/-- The triggers of an event in a log whose newest entry comes first. -/
def total (h : Nat) : List Entry → Nat
  | [] => 0
  | .triggered g :: log => if g = h then total h log + 1 else total h log
  | .taken _ :: log => total h log

def since (h : Nat) : List Entry → Nat
  | [] => 0
  | .triggered g :: log => if g = h then since h log + 1 else since h log
  | .taken g :: log => if g = h then 0 else since h log

/-- The monitor with the events of the RMW layer, and the log of what has had an effect. -/
structure State where
  monitor : Monitor
  data : Nat → Option EventData
  log : List Entry

def start : State := ⟨newMonitor, fun _ => none, []⟩

inductive Action
  | init (type : EventType) (now : Nat)
  | trigger (h now : Nat)
  | changed (h now : Nat) (alive notAlive : Int)
  | counts (h : Nat) (alive notAlive : Int)
  | take (h : Nat)
  | destroy (h : Nat)
  deriving DecidableEq

def logTrigger (s : State) (h : Nat) : List Entry :=
  if (s.monitor.events h).isSome then .triggered h :: s.log else s.log

def step (s : State) : Action → Option State
  | .init type now =>
    let r := eventInit s.monitor now type
    some { s with monitor := r.2, data := update s.data r.1.handle (some r.1) }
  | .trigger h now => some { s with monitor := triggerEvent now s.monitor h, log := logTrigger s h }
  | .changed h now alive notAlive =>
    some { s with
      monitor := triggerLivelinessChanged now s.monitor h alive notAlive
      log := logTrigger s h }
  | .counts h alive notAlive => some { s with monitor := updateLivelinessCounts s.monitor h alive notAlive }
  | .take h =>
    (s.data h).map fun ev =>
      let r := rmwTakeEvent s.monitor ev
      { monitor := r.2.1
        data := update s.data h (some r.2.2)
        log := if r.1.isSome then .taken h :: s.log else s.log }
  | .destroy h => some { s with monitor := destroyEvent s.monitor h, data := update s.data h none }

section Log

variable {h : Nat} {log : List Entry}

theorem since_le_total : since h log ≤ total h log := by
  induction log with
  | nil => exact Nat.le_refl 0
  | cons e log ih =>
    cases e with
    | triggered g =>
      simp only [since, total]
      split
      · exact Nat.succ_le_succ ih
      · exact ih
    | taken g =>
      simp only [since, total]
      split
      · exact Nat.zero_le _
      · exact ih

theorem since_eq_total (ht : .taken h ∉ log) : since h log = total h log := by
  induction log with
  | nil => rfl
  | cons e log ih =>
    have ih := ih fun hm => ht (mem_cons_of_mem e hm)
    cases e with
    | triggered g => simp only [since, total, ih]
    | taken g =>
      have hne : g ≠ h := by
        rintro rfl
        exact ht mem_cons_self
      simp [since, total, hne, ih]

theorem total_eq_zero (ht : .triggered h ∉ log) : total h log = 0 := by
  induction log with
  | nil => rfl
  | cons e log ih =>
    have ih := ih fun hm => ht (mem_cons_of_mem e hm)
    cases e with
    | triggered g =>
      have hne : g ≠ h := by
        rintro rfl
        exact ht mem_cons_self
      simp [total, hne, ih]
    | taken g => exact ih

end Log

structure Counts (s : State) : Prop where
  unused : ∀ h, s.monitor.nextHandle ≤ h → s.monitor.events h = none ∧ s.data h = none ∧
    .triggered h ∉ s.log ∧ .taken h ∉ s.log
  handle : ∀ h ev, s.data h = some ev → ev.handle = h
  count : ∀ h st, s.monitor.events h = some st → st.count = wrap64 (since h s.log)
  first : ∀ h ev, s.data h = some ev → .taken h ∉ s.log → ev.lastCount = 0
  later : ∀ h, .taken h ∈ s.log → since h s.log < total h s.log

theorem counts_start : Counts start where
  unused h _ := ⟨rfl, rfl, by simp [start], by simp [start]⟩
  handle h ev hev := by simp [start] at hev
  count h st hst := by simp [start, newMonitor] at hst
  first h ev hev := by simp [start] at hev
  later h ht := by simp [start] at ht

variable {s t : State}

theorem wrap64_succ (n : Nat) : wrap64 (wrap64 n + 1) = wrap64 (n + 1 : Nat) := by
  simp only [wrap64]
  rw [Int.bmod_add_bmod]
  simp

variable {f : EventState → EventState}

structure CountsAt (s : State) (h : Nat) : Prop where
  unused : s.monitor.nextHandle ≤ h → s.monitor.events h = none ∧ s.data h = none ∧
    .triggered h ∉ s.log ∧ .taken h ∉ s.log
  handle : ∀ ev, s.data h = some ev → ev.handle = h
  count : ∀ st, s.monitor.events h = some st → st.count = wrap64 (since h s.log)
  first : ∀ ev, s.data h = some ev → .taken h ∉ s.log → ev.lastCount = 0
  later : .taken h ∈ s.log → since h s.log < total h s.log

/-- A call is about one event, and the others are as they were. -/
theorem Counts.change (hc : Counts s) {h : Nat} (hnext : s.monitor.nextHandle ≤ t.monitor.nextHandle)
    (hevents : ∀ g ≠ h, t.monitor.events g = s.monitor.events g) (hdata : ∀ g ≠ h, t.data g = s.data g)
    (hlog : t.log = s.log ∨ t.log = .triggered h :: s.log ∨ t.log = .taken h :: s.log)
    (hh : CountsAt t h) : Counts t := by
  have hall : ∀ g, CountsAt t g := by
    intro g
    by_cases hne : g = h
    · exact hne ▸ hh
    obtain ⟨hsince, htotal, htriggered, htaken⟩ : since g t.log = since g s.log ∧
        total g t.log = total g s.log ∧ (.triggered g ∈ t.log ↔ .triggered g ∈ s.log) ∧
        (.taken g ∈ t.log ↔ .taken g ∈ s.log) := by
      rcases hlog with hl | hl | hl <;> simp [hl, since, total, hne, Ne.symm hne]
    refine ⟨fun hle => ?_, ?_, ?_, ?_, ?_⟩ <;>
      simp only [hevents g hne, hdata g hne, hsince, htotal, htriggered, htaken]
    · exact hc.unused g (Nat.le_trans hnext hle)
    · exact hc.handle g
    · exact hc.count g
    · exact hc.first g
    · exact hc.later g
  exact ⟨fun g => (hall g).unused, fun g => (hall g).handle, fun g => (hall g).count,
    fun g => (hall g).first, fun g => (hall g).later⟩

theorem Counts.lt (hc : Counts s) {h : Nat} {st : EventState} (he : s.monitor.events h = some st) :
    h < s.monitor.nextHandle := by
  by_contra hn
  simp [(hc.unused h (Nat.le_of_not_lt hn)).1] at he

theorem Counts.triggered (hc : Counts s) {h : Nat}
    (hf : ∀ st, (f st).count = wrap64 (st.count + 1)) (tokens : Nat) :
    Counts { s with
      monitor := { s.monitor with
        events := update s.monitor.events h ((s.monitor.events h).map f), tokens := tokens }
      log := logTrigger s h } := by
  cases he : s.monitor.events h with
  | none =>
    have hsame : update s.monitor.events h ((none : Option EventState).map f) = s.monitor.events := by
      rw [map_none, ← he, update_eq_self]
    simp only [logTrigger, he, hsame]
    exact ⟨hc.unused, hc.handle, hc.count, hc.first, hc.later⟩
  | some st =>
    simp only [logTrigger, he, isSome_some, if_true, map_some]
    refine hc.change (Nat.le_refl _) (fun g hg => update_of_ne hg ..) (fun _ _ => rfl) (.inr (.inl rfl)) ?_
    refine ⟨fun hle => absurd (hc.lt he) (Nat.not_lt.mpr hle), hc.handle h, fun st' hg => ?_,
      fun ev hev ht => hc.first h ev hev fun hm => ht (mem_cons_of_mem _ hm), fun ht => ?_⟩
    · obtain rfl : f st = st' := by simpa using hg
      simp only [since, if_true]
      rw [hf, hc.count h st he, wrap64_succ]
    · simpa [since, total] using hc.later h (by simpa using ht)

theorem Counts.updated (hc : Counts s) {h : Nat} (hf : ∀ st, (f st).count = st.count) :
    Counts { s with monitor := { s.monitor with
      events := update s.monitor.events h ((s.monitor.events h).map f) } } := by
  refine hc.change (Nat.le_refl _) (fun g hg => update_of_ne hg ..) (fun _ _ => rfl) (.inl rfl) ?_
  refine ⟨fun hle => ?_, hc.handle h, fun st hst => ?_, hc.first h, hc.later h⟩
  · obtain ⟨h1, h2⟩ := hc.unused h hle
    exact ⟨by simp [h1], h2⟩
  · obtain ⟨st', hst', rfl⟩ : ∃ st', s.monitor.events h = some st' ∧ f st' = st := by simpa using hst
    rw [hf]
    exact hc.count h st' hst'

theorem Counts.init (hc : Counts s) (type : EventType) (now : Nat) : Counts { s with
      monitor := (eventInit s.monitor now type).2
      data := update s.data s.monitor.nextHandle (some (eventInit s.monitor now type).1) } := by
  obtain ⟨-, -, hnot, htaken⟩ := hc.unused s.monitor.nextHandle (Nat.le_refl _)
  have hzero : since s.monitor.nextHandle s.log = 0 := Nat.le_zero.mp (total_eq_zero hnot ▸ since_le_total)
  refine hc.change (Nat.le_succ _) (fun g hg => update_of_ne hg ..) (fun g hg => update_of_ne hg ..)
    (.inl rfl) ?_
  refine ⟨fun hle => absurd hle (Nat.not_succ_le_self _), fun ev hev => ?_, fun st hst => ?_,
    fun ev hev _ => ?_, hc.later _⟩
  · obtain rfl : (eventInit s.monitor now type).1 = ev := by simpa using hev
    rfl
  · obtain rfl : (⟨type.kind, 0, 0, 0, now⟩ : EventState) = st := by simpa [eventInit, createEvent] using hst
    simp only [hzero]
    rfl
  · obtain rfl : (eventInit s.monitor now type).1 = ev := by simpa using hev
    rfl

theorem Counts.destroy (hc : Counts s) (h : Nat) :
    Counts { s with monitor := destroyEvent s.monitor h, data := update s.data h none } := by
  refine hc.change (Nat.le_refl _) (fun g hg => update_of_ne hg ..) (fun g hg => update_of_ne hg ..)
    (.inl rfl) ?_
  refine ⟨fun hle => ?_, by simp, by simp [destroyEvent], by simp, hc.later h⟩
  exact ⟨update_self .., update_self .., (hc.unused h hle).2.2⟩

theorem rmwTakeEvent_cases (m : Monitor) (ev : EventData) :
    rmwTakeEvent m ev = (none, m, ev) ∨ ∃ st, m.events ev.handle = some st ∧ 0 < st.count ∧
      rmwTakeEvent m ev =
        (some (fillStatus ev.type st.count (wrap64 (st.count - ev.lastCount)) st.aliveCount st.notAliveCount
            (wrap64 (st.aliveCount - ev.lastAliveCount)) (wrap64 (st.notAliveCount - ev.lastNotAliveCount))),
          { m with
            events := update m.events ev.handle (some { st with count := 0 })
            tokens := m.tokens - 1 },
          { ev with
            lastCount := st.count
            lastAliveCount := st.aliveCount
            lastNotAliveCount := st.notAliveCount }) := by
  cases hst : m.events ev.handle with
  | none => simp [rmwTakeEvent, takeEvent, hst]
  | some st =>
    by_cases hpos : 0 < st.count
    · exact .inr ⟨st, rfl, hpos, by simp [rmwTakeEvent, takeEvent, hst, hpos]⟩
    · simp [rmwTakeEvent, takeEvent, hst, hpos]

theorem Counts.take (hc : Counts s) {h : Nat} (hs : step s (.take h) = some t) : Counts t := by
  obtain ⟨ev, hev, rfl⟩ := map_eq_some_iff.mp hs
  have hh := hc.handle h ev hev
  rcases rmwTakeEvent_cases s.monitor ev with hn | ⟨st, hst, hpos, htake⟩
  · have hsame : update s.data h (some ev) = s.data := by rw [← hev, update_eq_self]
    simp only [hn, hsame]
    exact hc
  rw [hh] at hst htake
  have hsince : 0 < since h s.log := by
    rw [hc.count h st hst] at hpos
    by_contra hz
    simp [Nat.eq_zero_of_not_pos hz, wrap64] at hpos
  simp only [htake, isSome_some, if_true]
  refine hc.change (Nat.le_refl _) (fun g hg => update_of_ne hg ..) (fun g hg => update_of_ne hg ..)
    (.inr (.inr rfl)) ?_
  refine ⟨fun hle => absurd (hc.lt hst) (Nat.not_lt.mpr hle), fun ev' hg => ?_, fun st' hg => ?_,
    fun _ _ ht => absurd mem_cons_self ht, fun _ => ?_⟩
  · obtain rfl := some.inj ((update_self h _ s.data).symm.trans hg)
    rfl
  · obtain rfl := some.inj ((update_self h _ s.monitor.events).symm.trans hg)
    simp [since, wrap64]
  · simp only [since, total, if_true]
    exact Nat.lt_of_lt_of_le hsince since_le_total

theorem Counts.step (hc : Counts s) {a : Action} (hs : step s a = some t) : Counts t := by
  cases a with
  | init type now => exact some.inj hs ▸ hc.init type now
  | trigger | changed => exact some.inj hs ▸ hc.triggered (fun _ => rfl) _
  | counts h alive notAlive => exact some.inj hs ▸ hc.updated fun _ => rfl
  | take h => exact hc.take hs
  | destroy h => exact some.inj hs ▸ hc.destroy h

def countBound : EventType → Nat
  | .messageLost => 9223372036854775808
  | _ => 2147483648

def shown (type : EventType) (n : Int) : Int := if type = .messageLost then sizeT n else wrap32 n

theorem wrap64_cases (n : Nat) : (n < 9223372036854775808 ∧ wrap64 n = n) ∨
    (9223372036854775808 ≤ n ∧ wrap64 n ≤ 0) ∨ (18446744073709551616 ≤ n ∧ 0 < wrap64 n ∧
      wrap64 n < 9223372036854775808) := by
  simp only [wrap64, Int.bmod]
  split <;> omega

theorem shown_cases (type : EventType) {c : Nat} (hlt : c < 9223372036854775808) :
    (c < countBound type ∧ shown type c = c) ∨ (countBound type ≤ c ∧ shown type c < c) := by
  by_cases ht : type = .messageLost
  · subst ht
    refine .inl ⟨hlt, ?_⟩
    rw [shown, if_pos rfl, sizeT]
    omega
  · have hb : countBound type = 2147483648 := by
      cases type with
      | messageLost => exact absurd rfl ht
      | _ => rfl
    have hs : shown type c = Int.bmod c 4294967296 := if_neg ht
    rw [hb, hs, Int.bmod]
    split <;> omega

theorem shown_wrap64_cases (type : EventType) {n : Nat} (hpos : 0 < wrap64 n) :
    (n < countBound type ∧ shown type (wrap64 n) = n) ∨
      (countBound type ≤ n ∧ shown type (wrap64 n) < n) := by
  have hbound : countBound type ≤ 9223372036854775808 := by cases type <;> decide
  rcases wrap64_cases n with ⟨hlt, heq⟩ | ⟨-, hle⟩ | ⟨hle, -, hlt⟩
  · rw [heq]
    exact shown_cases type hlt
  · omega
  obtain ⟨c, hc⟩ := Int.eq_ofNat_of_zero_le (Int.le_of_lt hpos)
  rw [hc] at hlt ⊢
  have hlt : c < 9223372036854775808 := by omega
  refine .inr ⟨by omega, ?_⟩
  rcases shown_cases type hlt with ⟨-, hs⟩ | ⟨-, hs⟩ <;> omega

/-- A take reports the right numbers exactly if it is the first one of its event and there were
not too many triggers. -/
theorem take_right_iff (hr : Reach EventCounts.step anyStep start s) {h : Nat} {ev : EventData}
    (hev : s.data h = some ev) {reported change : Int}
    (ht : (rmwTakeEvent s.monitor ev).1 = some (.counted reported change)) :
    (reported = total h s.log ∧ change = since h s.log) ↔
      .taken h ∉ s.log ∧ total h s.log < countBound ev.type := by
  have hc : Counts s := hr.invariant counts_start fun _ _ _ hi _ hs => hi.step hs
  rcases rmwTakeEvent_cases s.monitor ev with hn | ⟨st, hst, hpos, htake⟩
  · simp [hn] at ht
  rw [hc.handle h ev hev] at hst
  have hcount := hc.count h st hst
  rw [htake] at ht
  obtain ⟨rfl, rfl⟩ : reported = shown ev.type st.count ∧
      change = shown ev.type (wrap64 (st.count - ev.lastCount)) := by
    cases htype : ev.type <;> simp_all [fillStatus, shown]
  rw [hcount] at hpos ⊢
  by_cases htaken : .taken h ∈ s.log
  · -- the counter was reset by the earlier take, so the total falls short
    have hlater := hc.later h htaken
    have hle := shown_wrap64_cases ev.type hpos
    exact ⟨fun he => absurd he.1 (by omega), fun he => absurd htaken he.1⟩
  · have hback : wrap64 (wrap64 (since h s.log) - ev.lastCount) = wrap64 (since h s.log) := by
      rw [hc.first h ev hev htaken, Int.sub_zero]
      exact Int.bmod_bmod ..
    rw [hback, ← since_eq_total htaken]
    rcases shown_wrap64_cases ev.type hpos with ⟨hlt, hs⟩ | ⟨hle, hs⟩
    · simp [htaken, hlt, hs]
    · exact ⟨fun he => absurd he.1 (by omega), fun he => absurd he.2 (by omega)⟩

theorem first_take_right : ∃ s, Reach EventCounts.step anyStep start s ∧ ∃ ev, s.data 1 = some ev ∧
    total 1 s.log = 2 ∧ (rmwTakeEvent s.monitor ev).1 = some (.counted 2 2) ∧
      ((2 : Int) = total 1 s.log ∧ (2 : Int) = since 1 s.log) := by
  obtain ⟨s, hs, ⟨ev, hev, ht⟩, htotal, hnot⟩ : ∃ s, run EventCounts.step
      [.init .livelinessLost 0, .trigger 1 0, .trigger 1 0] start = some s ∧
        (∃ ev ∈ s.data 1, (rmwTakeEvent s.monitor ev).1 = some (.counted 2 2)) ∧ total 1 s.log = 2 ∧
          .taken 1 ∉ s.log := exists_of_any (by decide)
  have hr : Reach EventCounts.step anyStep start s := reach_of_run hs fun _ _ _ => trivial
  refine ⟨s, hr, ev, hev, htotal, ht, (take_right_iff hr hev ht).mpr ⟨hnot, ?_⟩⟩
  rw [htotal]
  cases ev.type <;> decide

/-- After two triggers, a take and a third trigger, the total is reported as 1 and the change as
-1. -/
theorem second_take_wrong : ∃ s, Reach EventCounts.step anyStep start s ∧ ∃ ev, s.data 1 = some ev ∧
    total 1 s.log = 3 ∧ since 1 s.log = 1 ∧ (rmwTakeEvent s.monitor ev).1 = some (.counted 1 (-1)) := by
  obtain ⟨s, hs, ⟨ev, hev, ht⟩, htotal, hsince⟩ : ∃ s, run EventCounts.step
      [.init .livelinessLost 0, .trigger 1 0, .trigger 1 0, .take 1, .trigger 1 0] start = some s ∧
        (∃ ev ∈ s.data 1, (rmwTakeEvent s.monitor ev).1 = some (.counted 1 (-1))) ∧ total 1 s.log = 3 ∧
          since 1 s.log = 1 := exists_of_any (by decide)
  exact ⟨s, reach_of_run hs fun _ _ _ => trivial, ev, hev, htotal, hsince, ht⟩

end RmwAxon.EventCounts
