import Mathlib.Data.List.Nodup
import Mathlib.Order.Nat

namespace RmwAxon.NumberedList

open Function List

variable {β γ : Type}

def Consecutive (lo : Nat) (xs : List (Nat × β)) : Prop :=
  xs.map Prod.fst = List.range' lo xs.length

theorem Consecutive.empty (lo : Nat) : Consecutive lo ([] : List (Nat × β)) := rfl

variable {lo s a : Nat} {xs : List (Nat × β)} {b : β} {ks : List Nat}

theorem Consecutive.drop (h : Consecutive lo xs) (k : Nat) : Consecutive (lo + k) (xs.drop k) := by
  unfold Consecutive at h ⊢
  rw [map_drop, h, drop_range', length_drop]
  simp

theorem Consecutive.concat (h : Consecutive lo xs) (b : β) :
    Consecutive lo (xs ++ [(lo + xs.length, b)]) := by
  unfold Consecutive at h ⊢
  rw [map_append, h, length_append]
  simp [range'_concat]

theorem Consecutive.number {i : Nat} (h : Consecutive lo xs) (hi : xs[i]? = some (s, b)) : s = lo + i := by
  have hk := congrArg (fun l => l[i]?) h
  obtain ⟨hlt, _⟩ := List.getElem?_eq_some_iff.mp hi
  simp only [getElem?_map, hi, getElem?_range' hlt, Option.map_some, Option.some.injEq] at hk
  omega

theorem Consecutive.head (h : Consecutive lo xs) (hs : xs.head? = some (s, b)) : s = lo := by
  rw [head?_eq_getElem?] at hs
  simpa using h.number hs

theorem Consecutive.last (h : Consecutive lo xs) (hs : xs.getLast? = some (s, b)) :
    s + 1 = lo + xs.length := by
  rw [getLast?_eq_getElem?] at hs
  obtain ⟨hlt, _⟩ := List.getElem?_eq_some_iff.mp hs
  have := h.number hs
  omega

theorem Consecutive.mem_iff (h : Consecutive lo xs) : (s, b) ∈ xs ↔ lo ≤ s ∧ xs[s - lo]? = some (s, b) := by
  constructor
  · intro hs
    obtain ⟨i, hi⟩ := mem_iff_getElem?.mp hs
    obtain rfl := h.number hi
    exact ⟨Nat.le_add_right lo i, by rwa [Nat.add_sub_cancel_left]⟩
  · rintro ⟨_, hs⟩
    exact mem_of_getElem? hs

section

variable (ho : ks.Pairwise (· < ·))
include ho

theorem mem_drop_iff {i : Nat} (hi : ks[i]? = some a) (s : Nat) : s ∈ ks.drop (i + 1) ↔ s ∈ ks ∧ a < s := by
  induction ks generalizing i with
  | nil => simp at hi
  | cons k ks ih =>
    obtain ⟨hk, ho⟩ := pairwise_cons.mp ho
    cases i with
    | zero =>
      obtain rfl : k = a := by simpa using hi
      have hgt : s ∈ ks → k < s := hk s
      have hne : k < s → s ≠ k := fun h => h.ne'
      simp only [Nat.zero_add, drop_succ_cons, drop_zero, mem_cons]
      tauto
    | succ i =>
      have ha : k < a := hk a (mem_of_getElem? hi)
      have hlt : a < s → s ≠ k := fun h => (ha.trans h).ne'
      rw [drop_succ_cons, ih ho hi, mem_cons]
      tauto

theorem head_le (ha : ks.head? = some a) (hs : s ∈ ks) : a ≤ s := by
  cases ks with
  | nil => simp at ha
  | cons k ks =>
    obtain rfl : k = a := by simpa using ha
    rcases mem_cons.mp hs with rfl | hs
    · exact le_rfl
    · exact ((pairwise_cons.mp ho).1 s hs).le

theorem span_le {b : Nat} (ha : ks.head? = some a) (hb : ks.getLast? = some b) : a + ks.length ≤ b + 1 := by
  induction ks generalizing a with
  | nil => simp at ha
  | cons k ks ih =>
    obtain rfl : k = a := by simpa using ha
    obtain ⟨hk, ho⟩ := pairwise_cons.mp ho
    cases ks with
    | nil =>
      obtain rfl : k = b := by simpa using hb
      simp
    | cons j js =>
      have hj : k < j := hk j (by simp)
      have := ih ho (a := j) rfl (by simpa using hb)
      simp only [length_cons] at this ⊢
      omega

theorem mem_drop_of_head_le {k : Nat} (ha : (ks.drop k).head? = some a)
    (has : a ≤ s) (hs : s ∈ ks) : s ∈ ks.drop k := by
  rw [← take_append_drop k ks] at ho hs
  rcases mem_append.mp hs with hs | hs
  · have hlt := (pairwise_append.mp ho).2.2 s hs a (mem_of_head? ha)
    exact absurd has (Nat.not_le.mpr hlt)
  · exact hs

end

def Keyed (t : Nat → Option γ) (ks : List Nat) : Prop := ∀ s, (t s).isSome ↔ s ∈ ks

variable {t : Nat → Option γ}

theorem Keyed.insert (h : Keyed t ks) (s : Nat) (c : γ) : Keyed (update t s (some c)) (ks ++ [s]) := by
  intro v
  by_cases hv : v = s
  · simp [hv]
  · simpa [update_of_ne hv, hv] using h v

theorem Keyed.remove (h : Keyed t (s :: ks)) (hs : s ∉ ks) : Keyed (update t s none) ks := by
  intro v
  by_cases hv : v = s
  · simpa [hv] using hs
  · simpa [update_of_ne hv, hv] using h v

end RmwAxon.NumberedList
