import Mathlib.Data.List.Basic
import Mathlib.Data.Nat.ModEq

namespace RmwAxon.Cells

open Function List

variable {α : Type}

def copyIn (xs : List α) (mem : Nat → α) : Nat → α := fun i => xs.getD i (mem i)

def slice (mem : Nat → α) (n : Nat) : List α := (List.range n).map mem

def copyOut (xs out : List α) : List α := xs ++ out.drop xs.length

theorem slice_length (mem : Nat → α) (n : Nat) : (slice mem n).length = n := by
  simp [slice]

theorem slice_eq_iff (mem : Nat → α) (xs : List α) :
    slice mem xs.length = xs ↔ ∀ i, (h : i < xs.length) → mem i = xs.get ⟨i, h⟩ := by
  constructor
  · intro h i hi
    have hg := getElem_of_eq h (by simpa [slice_length] using hi)
    simpa [slice] using hg
  intro h
  apply ext_getElem (slice_length mem xs.length)
  intro i _ hi
  simpa [slice] using h i hi

theorem slice_copyIn (xs : List α) (mem : Nat → α) : slice (copyIn xs mem) xs.length = xs := by
  rw [slice_eq_iff]
  intro i hi
  simp [copyIn, hi]

def copyRest (xs : List α) (d : α) (todo : List Nat) (mem : Nat → α) : Nat → α :=
  fun i => if i ∈ todo then xs.getD i d else mem i

theorem copyRest_range (xs : List α) (d : α) (mem : Nat → α) :
    copyRest xs d (List.range xs.length) mem = copyIn xs mem := by
  funext i
  by_cases hi : i < xs.length <;> simp [copyRest, copyIn, hi]

theorem copyRest_nil (xs : List α) (d : α) (mem : Nat → α) : copyRest xs d [] mem = mem := by
  funext i
  simp [copyRest]

variable {k n s t : Nat} {out xs : List α}

theorem copyRest_erase {d : α} {todo : List Nat} (hk : k ∈ todo) (mem : Nat → α) :
    copyRest xs d (todo.erase k) (update mem k (xs.getD k d)) = copyRest xs d todo mem := by
  funext i
  by_cases hi : i = k
  · subst hi
    simp [copyRest, hk]
  · simp [copyRest, update_of_ne hi, mem_erase_of_ne hi]

def copyOutRest (mem : Nat → α) (todo : List Nat) (out : List α) : List α :=
  out.mapIdx fun i b => if i ∈ todo then mem i else b

theorem copyOutRest_nil (mem : Nat → α) (out : List α) : copyOutRest mem [] out = out := by
  apply ext_getElem?
  intro i
  simp [copyOutRest]

theorem copyOutRest_range {mem : Nat → α} (h : n ≤ out.length) :
    copyOutRest mem (List.range n) out = copyOut (slice mem n) out := by
  apply ext_getElem?
  intro i
  simp only [copyOutRest, copyOut, getElem?_mapIdx, mem_range, slice_length]
  by_cases hi : i < n
  · rw [getElem?_append_left (by simpa [slice_length] using hi)]
    simp [hi, slice, hi.trans_le h]
  · rw [getElem?_append_right (by simpa [slice_length] using hi)]
    simp [hi, slice_length, Nat.add_sub_cancel' (Nat.not_lt.mp hi)]

theorem copyOutRest_erase {mem : Nat → α} {todo : List Nat} (hk : k ∈ todo) (out : List α) :
    copyOutRest mem (todo.erase k) (out.set k (mem k)) = copyOutRest mem todo out := by
  apply ext_getElem?
  intro i
  simp only [copyOutRest, getElem?_mapIdx, getElem?_set]
  by_cases hi : k = i
  · subst hi
    by_cases hlen : k < out.length
    · simp [hk, hlen]
    · simp [hlen]
  · simp [hi, mem_erase_of_ne (Ne.symm hi)]

theorem take_copyOut (xs out : List α) : (copyOut xs out).take xs.length = xs := by
  simp [copyOut]

theorem length_copyOut (h : xs.length ≤ out.length) : (copyOut xs out).length = out.length := by
  simp only [copyOut, length_append, length_drop]
  omega

theorem eq_of_mod_eq {w : Nat} (h : s % n = t % n) (hs : s < w) (ht : t < w)
    (hsw : w ≤ s + n) (htw : w ≤ t + n) : s = t := by
  rcases Nat.le_total s t with hle | hle
  · have hd : n ∣ t - s := (Nat.modEq_iff_dvd' hle).mp h
    have hz : t - s = 0 := Nat.eq_zero_of_dvd_of_lt hd (by omega)
    omega
  · have hd : n ∣ s - t := (Nat.modEq_iff_dvd' hle).mp h.symm
    have hz : s - t = 0 := Nat.eq_zero_of_dvd_of_lt hd (by omega)
    omega

theorem add_le_of_mod_eq (h : s % n = t % n) (hlt : s < t) : s + n ≤ t := by
  have hd : n ∣ t - s := (Nat.modEq_iff_dvd' hlt.le).mp h
  have hle := Nat.le_of_dvd (by omega) hd
  omega

end RmwAxon.Cells
