import Mathlib.Data.List.FinRange
import Mathlib.Logic.Function.Basic

namespace RmwAxon.SharedMemory

open Function

variable {C V α : Type}

/-- A computation that loads one cell at a time and may give up. Between two
loads the memory can change. -/
inductive Loads (C V α : Type)
  | done (result : Option α)
  | load (cell : C) (next : V → Loads C V α)

namespace Loads

def eval (mem : C → V) : Loads C V α → Option α
  | done result => result
  | load cell next => (next (mem cell)).eval mem

def running : Loads C V α → Bool
  | done _ => false
  | load _ _ => true

def advance (mem : C → V) : Nat → Loads C V α → Loads C V α
  | 0, p => p
  | _, done result => done result
  | n + 1, load cell next => (next (mem cell)).advance mem n

def loadAll : List C → (List V → Loads C V α) → Loads C V α
  | [], k => k []
  | c :: cs, k => load c fun v => loadAll cs fun vs => k (v :: vs)

theorem eval_loadAll (mem : C → V) (cs : List C) (k : List V → Loads C V α) :
    (loadAll cs k).eval mem = (k (cs.map mem)).eval mem := by
  induction cs generalizing k with
  | nil => rfl
  | cons c cs ih => exact ih fun vs => k (mem c :: vs)

/-- The last load is of the flag, and the computation gives up when the flag
is down. -/
inductive Guarded (flag : C) (down : V) : Loads C V α → Prop
  | fail : Guarded flag down (done none)
  | check {next : V → Loads C V α} : next down = done none → (∀ v, ∃ r, next v = done r) →
      Guarded flag down (load flag next)
  | load {cell : C} {next : V → Loads C V α} : (∀ v, Guarded flag down (next v)) →
      Guarded flag down (load cell next)

theorem guarded_loadAll {flag : C} {down : V} {cs : List C} {k : List V → Loads C V α}
    (h : ∀ vs, Guarded flag down (k vs)) : Guarded flag down (loadAll cs k) := by
  induction cs generalizing k with
  | nil => exact h []
  | cons c cs ih => exact .load fun v => ih fun vs => h (v :: vs)

/-- A load goes on under guard or was the last one; while the flag is down
nothing comes out. -/
theorem Guarded.next {flag cell : C} {down : V} {next : V → Loads C V α}
    (h : Guarded flag down (Loads.load cell next)) (mem : C → V) :
    (Guarded flag down (next (mem cell)) ∨ ∃ r, next (mem cell) = done r) ∧
      (mem flag = down → ∀ a, next (mem cell) ≠ done (some a)) := by
  cases h with
  | check hdown hdone =>
    refine ⟨.inr (hdone _), fun hm a ha => ?_⟩
    rw [hm, hdown] at ha
    cases ha
  | load hall =>
    refine ⟨.inl (hall _), fun _ a ha => ?_⟩
    have hg := hall (mem cell)
    rw [ha] at hg
    cases hg

end Loads

def applyStores [DecidableEq C] (mem : C → V) (ws : List (C × V)) : C → V :=
  ws.foldl (fun mem w => update mem w.1 w.2) mem

variable [DecidableEq C]

theorem applyStores_map (mem f : C → V) (cs : List C) (c : C) :
    applyStores mem (cs.map fun c => (c, f c)) c = if c ∈ cs then f c else mem c := by
  induction cs generalizing mem with
  | nil => rfl
  | cons d cs ih =>
    refine (ih (update mem d (f d))).trans ?_
    by_cases hd : c = d
    · subst hd
      simp
    · simp [hd]

end RmwAxon.SharedMemory
