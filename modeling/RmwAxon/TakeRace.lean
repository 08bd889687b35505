import RmwAxon.EventMonitor
import RmwAxon.Transition
import Mathlib.Algebra.BigOperators.Group.Finset.Basic
import Mathlib.Algebra.BigOperators.Fin
import Mathlib.Tactic.Ring

namespace RmwAxon.TakeRace

open EventMonitor Transition Function Finset

/-- Where a call of trigger_event or take_event stands. -/
inductive Point
  | triggering
  | signalling
  | triggered
  | entered
  | loaded (count : Int)
  | draining (count : Int)
  | taken (count : Int)
  | nothing
  deriving DecidableEq

variable {n : Nat}

structure State (n : Nat) where
  count : Int
  tokens : Nat
  calls : Fin n → Point

def goTo (s : State n) (i : Fin n) (p : Point) : State n := { s with calls := update s.calls i p }

/-- One atomic step of a call. The read of the descriptor waits for a token. -/
def step (s : State n) (i : Fin n) : Option (State n) :=
  match s.calls i with
  | .triggering => some (goTo { s with count := wrap64 (s.count + 1) } i .signalling)
  | .signalling => some (goTo { s with tokens := s.tokens + 1 } i .triggered)
  | .entered => some (goTo s i (if 0 < s.count then .loaded s.count else .nothing))
  | .loaded c => some (goTo { s with count := 0 } i (.draining c))
  | .draining c => if s.tokens = 0 then none else some (goTo { s with tokens := s.tokens - 1 } i (.taken c))
  | .triggered | .taken _ | .nothing => none

def Point.finished : Point → Bool
  | .triggered | .taken _ | .nothing => true
  | _ => false

def Point.returned : Point → Int
  | .draining c | .taken c => c
  | _ => 0

def Point.added : Point → Int
  | .signalling | .triggered => 1
  | _ => 0

/-- Nothing has come between the load and the store of a take_event, and the
counter does not overflow. -/
def Undisturbed (s : State n) (i : Fin n) : Prop :=
  match s.calls i with
  | .triggering => wrap64 (s.count + 1) = s.count + 1
  | .loaded c => s.count = c
  | _ => True

def Balanced (s : State n) : Prop := ∑ i, (s.calls i).returned + s.count = ∑ i, (s.calls i).added

theorem sum_goTo (s : State n) (i : Fin n) (p : Point) (w : Point → Int) :
    ∑ j, w ((goTo s i p).calls j) = ∑ j, w (s.calls j) - w (s.calls i) + w p := by
  have hcomp : (fun j => w ((goTo s i p).calls j)) = update (fun j => w (s.calls j)) i (w p) := by
    funext j
    by_cases hj : j = i
    · subst hj
      simp [goTo]
    · simp [goTo, hj]
  rw [hcomp, sum_update_of_mem (mem_univ i), ← add_sum_erase univ _ (mem_univ i), sdiff_singleton_eq_erase]
  ring

theorem Balanced.goTo {s : State n} (h : Balanced s) {i : Fin n} {p : Point} {count : Int} {tokens : Nat}
    (hp : p.returned - (s.calls i).returned + (count - s.count) = p.added - (s.calls i).added) :
    Balanced (goTo ⟨count, tokens, s.calls⟩ i p) := by
  rw [Balanced, sum_goTo, sum_goTo]
  unfold Balanced at h
  dsimp only [TakeRace.goTo]
  omega

theorem step_balanced {s s' : State n} {i : Fin n} (h : Balanced s) (hu : Undisturbed s i)
    (hs : step s i = some s') : Balanced s' := by
  unfold Undisturbed at hu
  unfold step at hs
  cases hp : s.calls i with
  | triggered | taken | nothing => simp [hp] at hs
  | triggering | loaded =>
    simp only [hp] at hs hu
    cases hs
    exact h.goTo (by simp [hp, Point.returned, Point.added, hu])
  | signalling =>
    simp only [hp] at hs
    cases hs
    exact h.goTo (by simp [hp, Point.returned, Point.added])
  | entered =>
    simp only [hp] at hs
    cases hs
    refine h.goTo ?_
    split_ifs <;> simp [hp, Point.returned, Point.added]
  | draining c =>
    simp only [hp] at hs
    split_ifs at hs
    cases hs
    exact h.goTo (by simp [hp, Point.returned, Point.added])

/-- In every run in which no take_event is disturbed, the counts that have been
returned and the one that is left make up the triggers. -/
theorem triggers_conserved {s₀ s : State n} (hcount : s₀.count = 0)
    (hcalls : ∀ i, s₀.calls i = .triggering ∨ s₀.calls i = .entered) (h : Reach step Undisturbed s₀ s)
    (hend : ∀ i, (s.calls i).finished) :
    ∑ i, (s.calls i).returned + s.count = #{i | s.calls i = .triggered} := by
  have hstart : Balanced s₀ := by
    have hzero : ∀ i, (s₀.calls i).returned = 0 ∧ (s₀.calls i).added = 0 := by
      intro i
      obtain hi | hi := hcalls i <;> rw [hi] <;> exact ⟨rfl, rfl⟩
    simp [Balanced, hcount, hzero]
  have hbalanced := h.invariant hstart fun s i t => step_balanced
  have hadded : ∀ i, (s.calls i).added = if s.calls i = .triggered then 1 else 0 := by
    intro i
    have hi := hend i
    cases hp : s.calls i <;> simp_all [Point.finished, Point.added]
  rw [hbalanced, sum_congr rfl fun i _ => hadded i, natCast_card_filter]

instance (s : State n) (i : Fin n) : Decidable (Undisturbed s i) := by
  unfold Undisturbed
  split <;> infer_instance

def oneOfEach : State 2 := ⟨0, 0, ![.triggering, .entered]⟩

theorem trigger_taken : ∃ s, Reach step Undisturbed oneOfEach s ∧ s.calls 1 = .taken 1 ∧
    ∑ i, (s.calls i).returned + s.count = #{i | s.calls i = .triggered} := by
  obtain ⟨s, hs, htaken, hend⟩ : ∃ s, guardedRun step Undisturbed [0, 0, 1, 1, 1] oneOfEach = some s ∧
      s.calls 1 = .taken 1 ∧ ∀ i, (s.calls i).finished := exists_of_any (by decide)
  have hr := reach_of_guardedRun hs
  exact ⟨s, hr, htaken, triggers_conserved rfl (by decide) hr hend⟩

section Alone

variable {s : State n} {i : Fin n} {m : Monitor} {h : Nat}

/-- The event of the monitor whose counter and descriptor the calls share. -/
def Shows (m : Monitor) (h : Nat) (s : State n) : Prop :=
  m.tokens = s.tokens ∧ (m.events h).map (·.count) = some s.count

/-- A trigger_event that nobody comes between does what the monitor's does. -/
theorem trigger_alone (hs : Shows m h s) (hi : s.calls i = .triggering) (now : Nat) :
    ∃ s', run step [i, i] s = some s' ∧ Shows (triggerEvent now m h) h s' := by
  obtain ⟨st, hst, hcount⟩ := Option.map_eq_some_iff.mp hs.2
  refine ⟨_, by simp [run, step, hi, goTo]; rfl, ?_, ?_⟩
  · simp [triggerEvent, hs.1]
  · simp [triggerEvent, hst, hcount]

/-- So does a take_event, and it returns the same count. -/
theorem take_alone (hs : Shows m h s) (hi : s.calls i = .entered) (htoken : 0 < s.count → s.tokens ≠ 0) :
    ∃ as s', run step as s = some s' ∧ (s'.calls i).finished ∧ Shows (takeEvent m h).2 h s' ∧
      (s'.calls i).returned = ((takeEvent m h).1.map Prod.fst).getD 0 := by
  obtain ⟨st, hst, hcount⟩ := Option.map_eq_some_iff.mp hs.2
  by_cases hpos : 0 < s.count
  · refine ⟨[i, i, i], _, by simp [run, step, hi, hpos, goTo, htoken hpos]; rfl, ?_⟩
    simp [takeEvent, hst, hcount, hpos, Shows, hs.1, Point.finished, Point.returned]
  · refine ⟨[i], _, by simp [run, step, hi, hpos, goTo]; rfl, ?_⟩
    simp [takeEvent, hst, hcount, hpos, Shows, hs.1, Point.finished, Point.returned]

end Alone

def twoTriggers : State 3 := ⟨0, 0, ![.triggering, .triggering, .entered]⟩

/-- The second trigger comes between the load and the store. -/
theorem trigger_lost : ((run step [0, 0, 2, 1, 1, 2, 2] twoTriggers).map fun s =>
    (decide (∀ i, (s.calls i).finished), ∑ i, (s.calls i).returned + s.count,
      #{i | s.calls i = .triggered})) = some (true, 1, 2) := by
  decide

end RmwAxon.TakeRace
