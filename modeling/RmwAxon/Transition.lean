import Mathlib.Logic.Basic
import Mathlib.Tactic.SplitIfs

namespace RmwAxon.Transition

open Option

variable {σ α : Type}

/-- States reached from start when every action taken meets the guard. The
guard is read in the state before the step, so it restricts schedules and
never the step itself. -/
inductive Reach (step : σ → α → Option σ) (ok : σ → α → Prop) (start : σ) : σ → Prop
  | refl : Reach step ok start start
  | tail {s t : σ} (a : α) : Reach step ok start s → ok s a → step s a = some t →
      Reach step ok start t

def anyStep : σ → α → Prop := fun _ _ => True

def run (step : σ → α → Option σ) : List α → σ → Option σ
  | [], s => some s
  | a :: as, s => (step s a).bind (run step as)

variable {step : σ → α → Option σ} {ok : σ → α → Prop} {s t : σ}

theorem Reach.invariant {start : σ} (h : Reach step ok start s) {I : σ → Prop} (hstart : I start)
    (hstep : ∀ s a t, I s → ok s a → step s a = some t → I t) : I s := by
  induction h with
  | refl => exact hstart
  | tail a _ hok hs ih => exact hstep _ a _ ih hok hs

theorem Reach.trans {u : σ} (hst : Reach step ok s t) (htu : Reach step ok t u) : Reach step ok s u := by
  induction htu with
  | refl => exact hst
  | tail a _ hok hs ih => exact .tail a ih hok hs

/-- A schedule that meets a stronger guard in the states satisfying an
invariant meets the weaker one as well. -/
theorem Reach.weaken {ok' : σ → α → Prop} {start : σ} (h : Reach step ok start s) {I : σ → Prop}
    (hstart : I start) (hstep : ∀ s a t, I s → ok s a → step s a = some t → I t)
    (hok : ∀ s a t, I s → ok s a → step s a = some t → ok' s a) :
    Reach step ok' start s := by
  have hboth : Reach step ok' start s ∧ I s := by
    induction h with
    | refl => exact ⟨.refl, hstart⟩
    | tail a _ ha hs ih => exact ⟨.tail a ih.1 (hok _ a _ ih.2 ha hs) hs, hstep _ a _ ih.2 ha hs⟩
  exact hboth.1

/-- While a measure can be lowered, a run goes on to where nothing is left to do. -/
theorem exists_reach_of_measure (I stop : σ → Prop) (f : σ → Nat)
    (hstep : ∀ s, I s → ¬ stop s → ∃ a t, step s a = some t ∧ I t ∧ f t < f s) (hs : I s) :
    ∃ t, Reach step anyStep s t ∧ stop t := by
  induction hn : f s using Nat.strongRecOn generalizing s with
  | _ n ih =>
    by_cases hstop : stop s
    · exact ⟨s, .refl, hstop⟩
    · obtain ⟨a, t, ht, hi, hlt⟩ := hstep s hs hstop
      obtain ⟨u, hu, hstop'⟩ := ih (f t) (hn ▸ hlt) hi rfl
      exact ⟨u, Reach.trans (.tail a .refl trivial ht) hu, hstop'⟩

section Result

variable {ρ : Type} {result : σ → Option ρ}

def Ends (step : σ → α → Option σ) (result : σ → Option ρ) (s : σ) : Prop :=
  ∃ t, Reach step anyStep s t ∧ (result t).isSome

/-- Every run that comes to a result comes to this one, and some run does. -/
structure Computes (step : σ → α → Option σ) (result : σ → Option ρ) (s : σ) (r : ρ) : Prop where
  ends : Ends step result s
  eq : ∀ t r', Reach step anyStep s t → result t = some r' → r' = r

theorem Ends.next (a : α) (hs : step s a = some t) (h : Ends step result t) : Ends step result s := by
  obtain ⟨u, hu, hr⟩ := h
  exact ⟨u, Reach.trans (.tail a .refl trivial hs) hu, hr⟩

/-- No step changes what is left to compute. -/
theorem Ends.computes {rest : σ → Option ρ} {r : ρ} (h : Ends step result s)
    (hstep : ∀ {s a t}, step s a = some t → rest t = rest s)
    (hresult : ∀ {s r}, result s = some r → rest s = some r) (hs : rest s = some r) :
    Computes step result s r where
  ends := h
  eq _ _ ht hr := by
    have hrest := ht.invariant (I := fun u => rest u = some r) hs fun _ _ _ hi _ ha => (hstep ha).trans hi
    exact Option.some.inj ((hresult hr).symm.trans hrest)

end Result

theorem reach_of_run {as : List α} (h : run step as s = some t) (hok : ∀ a ∈ as, ∀ s, ok s a) :
    Reach step ok s t := by
  induction as generalizing s with
  | nil =>
    rw [run, some.injEq] at h
    subst h
    exact .refl
  | cons a as ih =>
    obtain ⟨u, hu, hrun⟩ := bind_eq_some_iff.mp h
    exact Reach.trans (.tail a .refl (hok a (by simp) s) hu) (ih hrun fun b hb => hok b (by simp [hb]))

def guardedRun (step : σ → α → Option σ) (ok : σ → α → Prop) [∀ s a, Decidable (ok s a)] :
    List α → σ → Option σ
  | [], s => some s
  | a :: as, s => if ok s a then (step s a).bind (guardedRun step ok as) else none

theorem reach_of_guardedRun [∀ s a, Decidable (ok s a)] {as : List α} (h : guardedRun step ok as s = some t) :
    Reach step ok s t := by
  induction as generalizing s with
  | nil =>
    rw [guardedRun, some.injEq] at h
    subst h
    exact .refl
  | cons a as ih =>
    rw [guardedRun] at h
    split_ifs at h with hok
    obtain ⟨u, hu, hrun⟩ := bind_eq_some_iff.mp h
    exact Reach.trans (.tail a .refl hok hu) (ih hrun)

theorem exists_of_any {o : Option σ} {p : σ → Prop} [DecidablePred p]
    (h : o.any (fun s => decide (p s)) = true) : ∃ s, o = some s ∧ p s := by
  cases o with
  | none => cases h
  | some s => exact ⟨s, rfl, of_decide_eq_true h⟩

theorem run_append (step : σ → α → Option σ) (as bs : List α) (s : σ) :
    run step (as ++ bs) s = (run step as s).bind (run step bs) := by
  induction as generalizing s with
  | nil => rfl
  | cons a as ih =>
    simp only [List.cons_append, run]
    cases step s a with
    | none => rfl
    | some t => exact ih t

end RmwAxon.Transition
