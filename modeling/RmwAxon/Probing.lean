import Mathlib.Algebra.GroupWithZero.Nat
import Mathlib.Data.Fin.Basic

namespace RmwAxon.Probing

variable {n : Nat}

def distance (start : Nat) (i : Fin n) : Nat := (i.val + (n - start % n)) % n

def Before (start : Nat) (j i : Fin n) : Prop := distance start j < distance start i

instance (start : Nat) (j i : Fin n) : Decidable (Before start j i) := Nat.decLt ..

def Unbroken (vacant : Fin n → Prop) (start : Nat) (i : Fin n) : Prop := ∀ j, Before start j i → ¬ vacant j

theorem Before.ne {start : Nat} {j i : Fin n} (h : Before start j i) : j ≠ i := by
  rintro rfl
  exact Nat.lt_irrefl _ h

theorem Unbroken.mono {vacant vacant' : Fin n → Prop} {start : Nat} {i : Fin n}
    (h : Unbroken vacant start i) (hsub : ∀ j, Before start j i → vacant' j → vacant j) :
    Unbroken vacant' start i := fun j hj hv => h j hj (hsub j hj hv)

variable [NeZero n] {start offset : Nat} {vacant : Fin n → Prop}

def probe (start offset : Nat) : Fin n := Fin.ofNat n (start + offset)

theorem distance_lt (start : Nat) (i : Fin n) : distance start i < n :=
  Nat.mod_lt _ (Nat.pos_of_ne_zero (NeZero.ne n))

theorem probe_distance (start : Nat) (i : Fin n) : probe start (distance start i) = i := by
  have hstart : start % n < n := Nat.mod_lt _ (Nat.pos_of_ne_zero (NeZero.ne n))
  refine Fin.ext ?_
  rw [probe, Fin.val_ofNat, distance, Nat.add_mod_mod, ← Nat.mod_add_mod,
    show start % n + (i.val + (n - start % n)) = i.val + n by omega, Nat.add_mod_right,
    Nat.mod_eq_of_lt i.isLt]

theorem distance_probe (h : offset < n) : distance start (probe start offset : Fin n) = offset := by
  have hstart : start % n < n := Nat.mod_lt _ (Nat.pos_of_ne_zero (NeZero.ne n))
  rw [probe, distance, Fin.val_ofNat, Nat.mod_add_mod, Nat.add_assoc, ← Nat.mod_add_mod,
    show start % n + (offset + (n - start % n)) = offset + n by omega, Nat.add_mod_right,
    Nat.mod_eq_of_lt h]

theorem Unbroken.distance_le {i : Fin n} (h : Unbroken vacant start i) (hoffset : offset < n)
    (hv : vacant (probe start offset)) : distance start i ≤ offset := by
  by_contra hlt
  refine h _ ?_ hv
  rw [Before, distance_probe hoffset]
  omega

theorem unbroken_probe (h : ∀ a < offset, ¬ vacant (probe start a)) (hoffset : offset < n) :
    Unbroken vacant start (probe start offset) := by
  intro j hj
  rw [Before, distance_probe hoffset] at hj
  rw [← probe_distance start j]
  exact h _ hj

end RmwAxon.Probing
