import RmwAxon.Cells

namespace RmwAxon.RingBuffer

open Cells Function

abbrev Bytes := List UInt8

def slotDataOffset : Nat := 16

def payloadCapacityFromStride (slotStride : Nat) : Nat := slotStride - slotDataOffset

/-- The two words of the header that never change after creation. Every
handle copies them when it opens the segment, so all handles agree on them. -/
structure Geometry where
  slotCount : Nat
  slotSize : Nat
  slotCount_pos : 0 < slotCount
  slotCount_lt : slotCount < 2 ^ 32
  slotDataOffset_le : slotDataOffset ≤ slotSize
  slotSize_lt : slotSize < 2 ^ 32

/-- The stamp none is u64::MAX, which a producer stores while it rewrites the
slot and which is no sequence number. -/
structure Slot where
  seq : Option Nat
  len : Nat
  data : Nat → UInt8

structure Ring where
  geometry : Geometry
  writeIndex : Nat
  readIndex : Nat
  epoch : Nat
  slots : Nat → Slot

inductive RingError
  | dataExceedsSlotSize
  | noData
  | slotOverwritten
  | slotNotYetWritten
  | bufferTooSmall
  deriving DecidableEq, Repr

def slotCount (m : Ring) : Nat := m.geometry.slotCount

def payloadCapacity (m : Ring) : Nat := payloadCapacityFromStride m.geometry.slotSize

def create (g : Geometry) : Ring := ⟨g, 0, 0, 0, fun _ => ⟨some 0, 0, fun _ => 0⟩⟩

def asU32 (n : Nat) : Nat := n % 2 ^ 32

def slotIndex (m : Ring) (s : Nat) : Nat := s % slotCount m

def slotAt (m : Ring) (s : Nat) : Slot := m.slots (slotIndex m s)

def updateSlot (m : Ring) (s : Nat) (f : Slot → Slot) : Ring :=
  { m with slots := update m.slots (slotIndex m s) (f (slotAt m s)) }

def storeSeq (m : Ring) (s : Nat) (stamp : Option Nat) : Ring :=
  updateSlot m s fun c => { c with seq := stamp }

def storeLen (m : Ring) (s n : Nat) : Ring := updateSlot m s fun c => { c with len := n }

def storeByte (m : Ring) (s i : Nat) (b : UInt8) : Ring :=
  updateSlot m s fun c => { c with data := update c.data i b }

def storeBytes (m : Ring) (s : Nat) (data : Bytes) : Ring :=
  updateSlot m s fun c => { c with data := copyIn data c.data }

def reserve (m : Ring) : Ring := { m with writeIndex := m.writeIndex + 1 }

/-- The overwrite test of a writer: checked_sub skips it when a reader is
already past the reserved number. -/
def lagging (m : Ring) (writeIdx readIdx : Nat) : Bool :=
  decide (readIdx ≤ writeIdx ∧ slotCount m ≤ writeIdx - readIdx)

def compareExchangeRead (m : Ring) (old new : Nat) : Ring :=
  if m.readIndex = old then { m with readIndex := new } else m

def retainedFrom (m : Ring) (writeIdx : Nat) : Nat := writeIdx - (slotCount m - 1)

def fillSlot (m : Ring) (s : Nat) (data : Bytes) : Ring :=
  storeSeq (storeLen (storeBytes (storeLen (storeSeq m s none) s 0) s data) s (asU32 data.length))
    s (some s)

def write (m : Ring) (data : Bytes) : Except RingError Nat × Ring :=
  if payloadCapacity m < data.length then (.error .dataExceedsSlotSize, m)
  else
    let writeIdx := m.writeIndex
    let m := reserve m
    let readIdx := m.readIndex
    let m :=
      if lagging m writeIdx readIdx then compareExchangeRead m readIdx (retainedFrom m writeIdx)
      else m
    (.ok writeIdx, fillSlot m writeIdx data)

def readSlot (m : Ring) (s : Nat) (out : Bytes) : Except RingError Nat × Bytes :=
  let writeIdx := m.writeIndex
  if writeIdx ≤ s then (.error .noData, out)
  else if slotCount m < writeIdx - s then (.error .slotOverwritten, out)
  else if (slotAt m s).seq ≠ some s then (.error .slotNotYetWritten, out)
  else
    let n := (slotAt m s).len
    if n = 0 then (.error .slotNotYetWritten, out)
    else if out.length < n then (.error .bufferTooSmall, out)
    else
      let out := copyOut (slice (slotAt m s).data n) out
      if (slotAt m s).seq ≠ some s then (.error .slotOverwritten, out)
      else (.ok n, out)

/-- A successful read raises the shared watermark but never lowers it. -/
def read (m : Ring) (s : Nat) (out : Bytes) : Except RingError Nat × Bytes × Ring :=
  match readSlot m s out with
  | (.ok n, out) => (.ok n, out, if m.readIndex ≤ s then { m with readIndex := s + 1 } else m)
  | (.error e, out) => (.error e, out, m)

def readWithoutConsuming (m : Ring) (s : Nat) (out : Bytes) : Except RingError Nat × Bytes :=
  readSlot m s out

def slotDataSize (m : Ring) (s : Nat) : Except RingError Nat :=
  let writeIdx := m.writeIndex
  if writeIdx ≤ s then .error .noData
  else if slotCount m < writeIdx - s then .error .slotOverwritten
  else if (slotAt m s).seq ≠ some s then .error .slotNotYetWritten
  else if (slotAt m s).len = 0 then .error .slotNotYetWritten
  else .ok (slotAt m s).len

def currentSeq (m : Ring) : Nat := m.writeIndex

def oldestAvailableSeq (m : Ring) : Nat := currentSeq m - slotCount m

def markGeneration (m : Ring) : Ring := { m with epoch := m.writeIndex }

def generationStart (m : Ring) : Nat := m.epoch

def skipAllPending (m : Ring) : Ring := { m with readIndex := m.writeIndex }

def dataAvailableFrom (m : Ring) (s : Nat) : Bool :=
  match slotDataSize m s with
  | .ok n => decide (0 < n)
  | .error .slotNotYetWritten => decide (s < m.writeIndex)
  | .error _ => decide (s < m.writeIndex ∧ m.readIndex < m.writeIndex)

section Fields

variable (m : Ring) (s t n i : Nat) (stamp : Option Nat) (b : UInt8) (data : Bytes)
  (f : Slot → Slot)

theorem slotAt_updateSlot : slotAt (updateSlot m s f) t =
      if slotIndex m t = slotIndex m s then f (slotAt m s) else slotAt m t := by
  change update m.slots (slotIndex m s) (f (slotAt m s)) (slotIndex m t) = _
  rw [update_apply]
  rfl

@[simp] theorem updateSlot_geometry : (updateSlot m s f).geometry = m.geometry := rfl
@[simp] theorem updateSlot_writeIndex : (updateSlot m s f).writeIndex = m.writeIndex := rfl
@[simp] theorem updateSlot_payloadCapacity :
    payloadCapacity (updateSlot m s f) = payloadCapacity m := rfl

@[simp] theorem slotAt_updateSlot_self : slotAt (updateSlot m s f) s = f (slotAt m s) := by
  simp [slotAt_updateSlot]

variable {m s t} in
theorem slotAt_updateSlot_of_ne (h : slotIndex m t ≠ slotIndex m s) :
    slotAt (updateSlot m s f) t = slotAt m t := by
  simp [slotAt_updateSlot, h]

theorem updateSlot_updateSlot (g : Slot → Slot) :
    updateSlot (updateSlot m s f) s g = updateSlot m s (fun c => g (f c)) := by
  simp only [updateSlot, slotIndex, slotAt, slotCount, update_self, update_idem]

theorem fillSlot_eq : fillSlot m s data = updateSlot m s fun c =>
      ⟨some s, asU32 data.length, copyIn data c.data⟩ := by
  simp only [fillSlot, storeSeq, storeLen, storeBytes, updateSlot_updateSlot]

@[simp] theorem fillSlot_geometry : (fillSlot m s data).geometry = m.geometry := by
  rw [fillSlot_eq]; rfl
@[simp] theorem fillSlot_writeIndex : (fillSlot m s data).writeIndex = m.writeIndex := by
  rw [fillSlot_eq]; rfl

end Fields

theorem asU32_of_le {m : Ring} {n : Nat} (h : n ≤ payloadCapacity m) : asU32 n = n := by
  have hs := m.geometry.slotSize_lt
  apply Nat.mod_eq_of_lt
  simp only [payloadCapacity, payloadCapacityFromStride] at h
  omega

def oneSlot : Geometry := ⟨1, 40, by decide, by decide, by decide, by decide⟩

end RmwAxon.RingBuffer
