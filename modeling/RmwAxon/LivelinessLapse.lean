import RmwAxon.EventMonitor
import RmwAxon.Transition

namespace RmwAxon.LivelinessLapse

open EventMonitor Transition Function List

def key (l : LivelinessMonitor) : Nat × Nat := (l.handle, l.node)

/-- The monitors whose lease a check finds exceeded. -/
def lapsed (m : Monitor) (now : Nat) : List (Nat × Nat) := (m.livelinesses.filter (·.expired now)).map key

/-- The monitor, with what its events should count: `reported` says whether a
check has found the lease exceeded since the last assertion, and `lapses` are
those of the monitors of an event since it was created. -/
structure State where
  monitor : Monitor
  reported : Nat × Nat → Bool
  lapses : Nat → Nat

def start : State := ⟨newMonitor, fun _ => false, fun _ => 0⟩

inductive Call
  | create (now : Nat) (kind : EventKind)
  | register (now handle node lease : Nat)
  | assert (now node : Nat)
  | check (now : Nat)

def step (s : State) : Call → Option State
  | .create now kind =>
    some { s with
      monitor := (createEvent s.monitor now kind).2
      lapses := update s.lapses s.monitor.nextHandle 0 }
  | .register now handle node lease =>
    some { s with
      monitor := registerLivelinessMonitor s.monitor now handle node lease
      reported := update s.reported (handle, node) false }
  | .assert now node =>
    some { s with
      monitor := assertLiveliness s.monitor now node
      reported := fun k => if k.2 = node then false else s.reported k }
  | .check now =>
    some {
      monitor := checkLiveliness s.monitor now
      reported := fun k => s.reported k || (lapsed s.monitor now).contains k
      lapses := fun h => s.lapses h + (lapsed s.monitor now).countP fun k => k.1 = h ∧ s.reported k = false }

/-- A check finds no lease exceeded that has been found exceeded already. -/
def FirstCheck (s : State) : Call → Prop
  | .check now => ∀ k ∈ lapsed s.monitor now, s.reported k = false
  | .create .. | .register .. | .assert .. => True

instance (s : State) (c : Call) : Decidable (FirstCheck s c) := by
  unfold FirstCheck
  split <;> infer_instance

/-- An event of another kind than LIVELINESS_CHANGED counts the lapses. -/
def Once (s : State) : Prop := ∀ h st, s.monitor.events h = some st → st.kind ≠ .livelinessChanged →
  st.count = wrap64 (s.lapses h)

theorem foldl_changed_events {now h : Nat} {alive notAlive : Int} (hs : List Nat) (m : Monitor) :
    ∃ f : EventState → EventState, (∀ st, (f st).kind = st.kind) ∧ (h ∉ hs → f = id) ∧
      (hs.foldl (fun m h => triggerLivelinessChanged now m h alive notAlive) m).events h =
        (m.events h).map f := by
  induction hs generalizing m with
  | nil => exact ⟨id, fun _ => rfl, fun _ => rfl, by simp⟩
  | cons g hs ih =>
    obtain ⟨f, hkind, hid, hf⟩ := ih (triggerLivelinessChanged now m g alive notAlive)
    by_cases hg : h = g
    · subst hg
      refine ⟨fun st => f { st with
        count := wrap64 (st.count + 1), aliveCount := alive, notAliveCount := notAlive
        lastTriggered := now },
        fun st => hkind _, fun hh => absurd mem_cons_self hh, ?_⟩
      rw [foldl_cons, hf]
      simp [triggerLivelinessChanged, comp_def]
    · refine ⟨f, hkind, fun hh => hid (not_mem_of_not_mem_cons hh), hf.trans ?_⟩
      simp [triggerLivelinessChanged, hg]

theorem checkLiveliness_event {m : Monitor} {now h : Nat} {st' : EventState}
    (hst : (checkLiveliness m now).events h = some st') (hkind : st'.kind ≠ .livelinessChanged) {n : Int}
    (hn : ∀ st, m.events h = some st → st.kind ≠ .livelinessChanged → st.count = wrap64 n) :
    st'.count = wrap64 (n + ((lapsed m now).map Prod.fst).count h) := by
  have hhandles : (lapsed m now).map Prod.fst = (m.livelinesses.filter (·.expired now)).map (·.handle) := by
    rw [lapsed, map_map]
    rfl
  simp only [checkLiveliness] at hst
  obtain ⟨f, hfkind, hid, hf⟩ := @foldl_changed_events now h _ _ _ _
  rw [hf, Option.map_eq_some_iff] at hst
  obtain ⟨lost, hlost, rfl⟩ := hst
  rw [hfkind] at hkind
  -- an event that the second loop triggers is of the other kind
  rw [hid fun hmem => ?_]
  · rw [foldl_triggerEvent_events, Option.map_eq_some_iff] at hlost
    obtain ⟨st, hold, rfl⟩ := hlost
    rw [bump_iterate_kind] at hkind
    exact (bump_iterate_count now _ (hn st hold hkind)).trans (by rw [hhandles])
  · have hany := (mem_filter.mp hmem).2
    rw [hlost] at hany
    exact hkind (of_decide_eq_true hany).1

theorem step_once {s s' : State} {c : Call} (h : Once s) (hc : FirstCheck s c) (hs : step s c = some s') :
    Once s' := by
  intro e st hst hkind
  cases c with
  | create now kind =>
    obtain rfl := Option.some.inj hs
    by_cases he : e = s.monitor.nextHandle
    · subst he
      obtain rfl : (⟨kind, 0, 0, 0, now⟩ : EventState) = st := by simpa [createEvent] using hst
      simp [wrap64]
    · have hold : s.monitor.events e = some st := by simpa [createEvent, he] using hst
      simpa [he] using h e st hold hkind
  | register | assert =>
    obtain rfl := Option.some.inj hs
    exact h e st hst hkind
  | check now =>
    obtain rfl := Option.some.inj hs
    have hcount : ((lapsed s.monitor now).map Prod.fst).count e =
        (lapsed s.monitor now).countP fun k => k.1 = e ∧ s.reported k = false := by
      rw [count, countP_map]
      exact countP_congr fun k hk => by simp [hc k hk]
    rw [checkLiveliness_event hst hkind (h e), hcount]
    rfl

/-- In every run in which no lapse is checked twice, the LIVELINESS_LOST events
have been triggered once per lapse of their monitors. -/
theorem lapse_triggers_once {s : State} (h : Reach step FirstCheck start s) {e : Nat} {st : EventState}
    (hst : s.monitor.events e = some st) (hkind : st.kind = .livelinessLost) :
    st.count = wrap64 (s.lapses e) := by
  have honce : Once s := h.invariant (fun _ _ hst => by cases hst) fun _ _ _ => step_once
  exact honce e st hst (by simp [hkind])

def watchedTwice : List Call :=
  [.create 0 .livelinessLost, .register 0 1 7 10, .check 5, .check 11, .assert 12 7, .check 30]

theorem two_lapses_two_triggers : ∃ s, guardedRun step FirstCheck watchedTwice start = some s ∧
    s.lapses 1 = 2 ∧ ∃ st, s.monitor.events 1 = some st ∧ st.count = wrap64 (s.lapses 1) :=
  ⟨_, rfl, rfl, _, rfl,
    @lapse_triggers_once _ (@reach_of_guardedRun _ _ step FirstCheck start _ _ watchedTwice rfl) 1 _ rfl rfl⟩

theorem lapse_triggered_twice : (run step
    [.create 0 .livelinessLost, .register 0 1 7 10, .check 11, .check 12] start).map
      (fun s => ((s.monitor.events 1).map (·.count), s.lapses 1)) = some (some 2, 1) := by
  decide

end RmwAxon.LivelinessLapse
