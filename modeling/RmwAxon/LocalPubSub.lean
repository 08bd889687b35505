import RmwAxon.RingBuffer

namespace RmwAxon.LocalPubSub

open RingBuffer Function

/-- The loan table of one handle, keyed by the offset of the lent buffer
from the start of the data region. -/
abbrev Loans := Nat → Option Nat

def dataPtr (m : Ring) (s : Nat) : Nat := slotIndex m s * m.geometry.slotSize + slotDataOffset

def slotOfPtr (m : Ring) (ptr : Nat) : Nat := (ptr - slotDataOffset) / m.geometry.slotSize

/-- Release arithmetic: the unchecked subtraction of borrow_buffer wraps when
a reader is past the reserved number, and the ring then counts as full. -/
def full (m : Ring) (writeIdx readIdx : Nat) : Bool :=
  decide (slotCount m ≤ (writeIdx + 2 ^ 64 - readIdx) % 2 ^ 64)

def unreserve (m : Ring) : Ring := { m with writeIndex := m.writeIndex - 1 }

def borrowBuffer (m : Ring) (loans : Loans) (maxSize : Nat) : Option (Nat × Nat) × Ring × Loans :=
  if payloadCapacity m < maxSize then (none, m, loans)
  else
    let writeIdx := m.writeIndex
    let m := reserve m
    if full m writeIdx m.readIndex then (none, unreserve m, loans)
    else
      let ptr := dataPtr m writeIdx
      let m := storeLen (storeSeq m writeIdx none) writeIdx 0
      (some (ptr, maxSize), m, update loans ptr (some writeIdx))

def commitBuffer (m : Ring) (loans : Loans) (ptr size : Nat) : Bool × Ring × Loans :=
  if ptr % m.geometry.slotSize ≠ slotDataOffset ∨ payloadCapacity m < size then (false, m, loans)
  else
    match loans ptr with
    | none => (false, m, loans)
    | some sequence =>
      let slot := slotOfPtr m ptr
      (true, storeSeq (storeLen m slot (asU32 size)) slot (some sequence),
        update loans ptr none)

def storeLoan (m : Ring) (ptr : Nat) (data : Bytes) : Ring := storeBytes m (slotOfPtr m ptr) data

theorem slotOfPtr_dataPtr (m : Ring) (s : Nat) : slotOfPtr m (dataPtr m s) = slotIndex m s := by
  have hpos : 0 < m.geometry.slotSize :=
    lt_of_lt_of_le (by decide) m.geometry.slotDataOffset_le
  rw [slotOfPtr, dataPtr, Nat.add_sub_cancel, Nat.mul_div_cancel _ hpos]

theorem slotIndex_slotIndex (m : Ring) (s : Nat) :
    slotIndex m (slotIndex m s) = slotIndex m s := Nat.mod_mod _ _

end RmwAxon.LocalPubSub
