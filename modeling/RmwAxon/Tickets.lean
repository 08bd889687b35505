import Mathlib.Logic.Function.Basic
import Mathlib.Tactic.SplitIfs

namespace RmwAxon.Tickets

open Function

variable {ι : Type} [DecidableEq ι]

structure Dispensed (next : Nat) (held : ι → Option Nat) : Prop where
  below : ∀ c v, held c = some v → v < next
  unique : ∀ c c' v, held c = some v → held c' = some v → c = c'

omit [DecidableEq ι] in
theorem empty (next : Nat) : Dispensed next (fun _ : ι => none) := ⟨by simp, by simp⟩

variable {held : ι → Option Nat} {next : Nat}

theorem issue (h : Dispensed next held) (c : ι) : Dispensed (next + 1) (update held c (some next)) := by
  have hcases : ∀ d v, update held c (some next) d = some v → (d = c ∧ v = next) ∨ held d = some v := by
    intro d v hd
    rw [update_apply] at hd
    split_ifs at hd with hdc
    · exact .inl ⟨hdc, (Option.some.inj hd).symm⟩
    · exact .inr hd
  refine ⟨?_, ?_⟩
  · intro d v hd
    rcases hcases d v hd with ⟨_, rfl⟩ | hd
    · exact Nat.lt_succ_self _
    · exact Nat.lt_succ_of_lt (h.below d v hd)
  · intro d d' v hd hd'
    rcases hcases d v hd with ⟨rfl, rfl⟩ | hx <;> rcases hcases d' _ hd' with ⟨rfl, hv⟩ | hy
    · rfl
    · exact absurd (h.below _ _ hy) (Nat.lt_irrefl _)
    · subst hv; exact absurd (h.below _ _ hx) (Nat.lt_irrefl _)
    · exact h.unique _ _ _ hx hy

theorem discard (h : Dispensed next held) (c : ι) : Dispensed next (update held c none) := by
  have hold : ∀ d v, update held c none d = some v → held d = some v := by
    intro d v hd
    rw [update_apply] at hd
    split_ifs at hd
    exact hd
  exact ⟨fun d v hd => h.below d v (hold d v hd),
    fun d d' v hd hd' => h.unique d d' v (hold d v hd) (hold d' v hd')⟩

omit [DecidableEq ι] in
theorem rewind (h : Dispensed next held)
    (hfree : ∀ c v, held c = some v → v + 1 ≠ next) : Dispensed (next - 1) held := by
  refine ⟨fun c v hc => ?_, h.unique⟩
  have hb := h.below c v hc
  have hf := hfree c v hc
  omega

end RmwAxon.Tickets
