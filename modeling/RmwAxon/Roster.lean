import Mathlib.Data.Finset.Card

namespace RmwAxon.Roster

open Function Option Finset

variable {α : Type}

def members (roster : Nat → Option α) (n : Nat) (kind : α → Bool) : Finset Nat :=
  (Finset.range n).filter fun e => (roster e).any kind

/-- A count as a table keeps it: there is no entry for zero. -/
def tally (n : Nat) : Option Nat := if n = 0 then none else some n

theorem tally_succ (n : Nat) : tally (n + 1) = some ((tally n).getD 0 + 1) := by
  cases n <;> rfl

theorem tally_none {n : Nat} : tally n = none ↔ n = 0 := by
  unfold tally
  split_ifs <;> simp_all

theorem tally_some {n m : Nat} : tally n = some m ↔ n = m ∧ m ≠ 0 := by
  unfold tally
  split_ifs with h
  · simp only [false_iff, not_and, not_not]
    rintro rfl
    exact h
  simp only [some.injEq]
  constructor
  · rintro rfl
    exact ⟨rfl, h⟩
  · exact And.left

theorem tally_getD (n : Nat) : (tally n).getD 0 = n := by
  cases n <;> rfl

theorem tally_pred {count : Nat} (h : 1 < count) : some (count - 1) = tally (count - 1) := by
  rw [eq_comm, tally_some]
  omega

theorem tally_last {count : Nat} (h : ¬ 1 < count) : none = tally (count - 1) := by
  rw [eq_comm, tally_none]
  omega

variable {roster : Nat → Option α} {n e : Nat} {p : α} {kind : α → Bool}

theorem mem_members : e ∈ members roster n kind ↔ e < n ∧ ∃ p, roster e = some p ∧ kind p = true := by
  simp [members, any_eq_true]

theorem card_members_add : (members (update roster n (some p)) (n + 1) kind).card =
    (members roster n kind).card + if kind p then 1 else 0 := by
  have hold : (range n).filter (fun e => (update roster n (some p) e).any kind) = members roster n kind := by
    refine filter_congr fun e he => ?_
    rw [update_of_ne (Nat.ne_of_lt (mem_range.mp he))]
  have hnew : n ∉ members roster n kind := by simp [members]
  rw [members, range_add_one, filter_insert, hold, update_self, any_some]
  split_ifs with hk
  · exact card_insert_of_notMem hnew
  · rfl

theorem card_members_remove (he : e < n) (hp : roster e = some p) : (members roster n kind).card =
      (members (update roster e none) n kind).card + if kind p then 1 else 0 := by
  have herase : members (update roster e none) n kind = (members roster n kind).erase e := by
    ext k
    simp only [members, mem_filter, mem_erase, update_apply]
    by_cases hk : k = e <;> simp [hk]
  rw [herase]
  split_ifs with hk
  · have hmem : e ∈ members roster n kind := by simp [members, he, hp, hk]
    exact (card_erase_add_one hmem).symm
  · have hmem : e ∉ members roster n kind := by simp [members, hp, hk]
    rw [erase_eq_of_notMem hmem]
    rfl

theorem members_filter (keep : α → Bool) : members (fun e => (roster e).filter keep) n kind =
      members roster n fun p => kind p && keep p := by
  ext e
  simp only [mem_members, filter_eq_some_iff, Bool.and_eq_true]
  constructor
  · rintro ⟨he, p, ⟨hp, hkeep⟩, hk⟩
    exact ⟨he, p, hp, hk, hkeep⟩
  · rintro ⟨he, p, hp, hk, hkeep⟩
    exact ⟨he, p, ⟨hp, hkeep⟩, hk⟩

end RmwAxon.Roster
