import Mathlib.Tactic.Ring

namespace RmwAxon.Endian

open List

/-- The low bytes of a number, the most significant first. -/
def toBe : Nat → Nat → List UInt8
  | 0, _ => []
  | width + 1, n => UInt8.ofNat (n / 256 ^ width) :: toBe width n

def fromBe (bs : List UInt8) : Nat := bs.foldl (fun acc b => acc * 256 + b.toNat) 0

def toLe (width n : Nat) : List UInt8 := (toBe width n).reverse

def fromLe (bs : List UInt8) : Nat := fromBe bs.reverse

theorem toBe_length (width n : Nat) : (toBe width n).length = width := by
  induction width with
  | zero => rfl
  | succ width ih => rw [toBe, length_cons, ih]

theorem foldl_toBe (width n acc : Nat) : (toBe width n).foldl (fun acc b => acc * 256 + b.toNat) acc =
      acc * 256 ^ width + n % 256 ^ width := by
  induction width generalizing acc with
  | zero => simp [toBe, Nat.mod_one]
  | succ width ih =>
    have hdigit : n % 256 ^ (width + 1) = n % 256 ^ width + 256 ^ width * (n / 256 ^ width % 256) := by
      rw [pow_succ, Nat.mod_mul]
    rw [toBe, foldl_cons, ih, hdigit]
    simp only [UInt8.toNat_ofNat']
    ring

variable {n width : Nat}

theorem fromBe_toBe (h : n < 256 ^ width) : fromBe (toBe width n) = n := by
  rw [fromBe, foldl_toBe, Nat.zero_mul, Nat.zero_add, Nat.mod_eq_of_lt h]

theorem exists_ne_zero_toBe (h : n < 256 ^ width) (hn : n ≠ 0) : ∃ b ∈ toBe width n, b ≠ 0 := by
  by_contra hall
  push Not at hall
  have hz : ∀ bs : List UInt8, (∀ b ∈ bs, b = 0) → fromBe bs = 0 := by
    intro bs
    unfold fromBe
    induction bs with
    | nil => exact fun _ => rfl
    | cons b bs ih =>
      intro hb
      rw [foldl_cons, hb b (by simp)]
      exact ih fun c hc => hb c (by simp [hc])
  exact hn ((fromBe_toBe h).symm.trans (hz _ hall))

theorem foldl_bytes_lt (bs : List UInt8) (acc : Nat) :
    bs.foldl (fun acc b => acc * 256 + b.toNat) acc < (acc + 1) * 256 ^ bs.length := by
  induction bs generalizing acc with
  | nil => simp
  | cons b bs ih =>
    have hb : b.toNat < 256 := b.toNat_lt
    calc bs.foldl (fun acc b => acc * 256 + b.toNat) (acc * 256 + b.toNat)
        < (acc * 256 + b.toNat + 1) * 256 ^ bs.length := ih _
      _ ≤ ((acc + 1) * 256) * 256 ^ bs.length := Nat.mul_le_mul_right _ (by omega)
      _ = (acc + 1) * 256 ^ (b :: bs).length := by rw [length_cons, pow_succ]; ring

theorem fromBe_lt (bs : List UInt8) : fromBe bs < 256 ^ bs.length := by
  simpa [fromBe] using foldl_bytes_lt bs 0

theorem fromBe_cons (b : UInt8) (bs : List UInt8) :
    fromBe (b :: bs) = b.toNat * 256 ^ bs.length + fromBe bs := by
  have hacc : ∀ acc, bs.foldl (fun acc b => acc * 256 + b.toNat) acc = acc * 256 ^ bs.length + fromBe bs := by
    unfold fromBe
    induction bs with
    | nil => simp
    | cons c cs ih =>
      intro acc
      rw [foldl_cons, foldl_cons, ih, ih (0 * 256 + c.toNat), length_cons, pow_succ]
      ring
  rw [fromBe, foldl_cons, hacc, Nat.zero_mul, Nat.zero_add]

theorem toBe_add_mul (width k n : Nat) : toBe width (k * 256 ^ width + n) = toBe width n := by
  induction width generalizing k with
  | zero => rfl
  | succ width ih =>
    have hsplit : k * 256 ^ (width + 1) + n = (k * 256) * 256 ^ width + n := by ring
    have hpos : 0 < 256 ^ width := Nat.pow_pos (by decide)
    rw [toBe, toBe, hsplit, ih]
    congr 1
    rw [Nat.add_comm, Nat.add_mul_div_right _ _ hpos]
    apply UInt8.toNat_inj.mp
    simp [UInt8.toNat_ofNat']

theorem toBe_fromBe (bs : List UInt8) : toBe bs.length (fromBe bs) = bs := by
  induction bs with
  | nil => rfl
  | cons b bs ih =>
    have hpos : 0 < 256 ^ bs.length := Nat.pow_pos (by decide)
    rw [length_cons, toBe, fromBe_cons, toBe_add_mul, ih, Nat.add_comm,
      Nat.add_mul_div_right _ _ hpos, Nat.div_eq_of_lt (fromBe_lt bs), Nat.zero_add]
    simp

theorem toLe_length (width n : Nat) : (toLe width n).length = width := by
  rw [toLe, length_reverse, toBe_length]

theorem fromLe_toLe (h : n < 256 ^ width) : fromLe (toLe width n) = n := by
  rw [fromLe, toLe, reverse_reverse, fromBe_toBe h]

theorem toLe_fromLe (bs : List UInt8) : toLe bs.length (fromLe bs) = bs := by
  rw [toLe, fromLe, ← length_reverse, toBe_fromBe, reverse_reverse]

theorem fromLe_lt (bs : List UInt8) : fromLe bs < 256 ^ bs.length := by
  simpa [fromLe] using fromBe_lt bs.reverse

theorem toLe_one (n : Nat) : toLe 1 n = [UInt8.ofNat n] := by
  simp [toLe, toBe]

theorem toLe_inj {m : Nat} (hm : m < 256 ^ width) (hn : n < 256 ^ width)
    (h : toLe width m = toLe width n) : m = n := by
  rw [← fromLe_toLe hm, h, fromLe_toLe hn]

end RmwAxon.Endian
