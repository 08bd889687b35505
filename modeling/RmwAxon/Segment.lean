import RmwAxon.RingBuffer
import Mathlib.Data.Nat.Log

namespace RmwAxon.Segment

open RingBuffer Function

def headerSize : Nat := 32

def maxRingSlots : Nat := 4096

/-- The distance between two slots: a multiple of eight that leaves room for
the two words in front of the payload. -/
structure Stride where
  size : Nat
  slotDataOffset_le : slotDataOffset ≤ size
  size_lt : size < 2 ^ 32

def alignedStride (payloadSize : Nat) : Nat := (payloadSize + slotDataOffset + 7) / 8 * 8

theorem add_le_alignedStride (n : Nat) : n + slotDataOffset ≤ alignedStride n := by
  unfold alignedStride
  omega

def slotStrideForPayload (payloadSize : Nat) : Except String Stride :=
  if h : alignedStride payloadSize < 2 ^ 32 then
    .ok ⟨alignedStride payloadSize,
      (Nat.le_add_left _ _).trans (add_le_alignedStride payloadSize), h⟩
  else .error "slot size overflow"

inductive Allocation
  | done
  | noSpace
  | failed (errno : String)

def Allocation.error : Allocation → Option String
  | .done => none
  | .noSpace => some "ENOSPC: No space left on device"
  | .failed errno => some errno

/-- What the environment and the system answer within one call. -/
structure Os where
  maxRingDataBytes : Nat
  availableShmBytes : Option Nat
  fallocate : Nat → Allocation
  mmap : Nat → Option String

def clampedSlots (os : Os) (slotCount stride : Nat) : Nat :=
  let maxSlots := min (max (os.maxRingDataBytes / stride) 1) maxRingSlots
  let sc := min slotCount maxSlots
  let sc := match os.availableShmBytes with
    | some avail => if 0 < avail / stride ∧ avail / stride < sc then avail / stride else sc
    | none => sc
  max sc 1

def totalSize (slots stride : Nat) : Nat := headerSize + slots * stride

def insufficient (size : Nat) (e : String) : String :=
  "insufficient shared memory for " ++ toString size ++ " byte ring buffer: " ++ e

/-- The backoff loop: the slots are halved until they can be allocated. The
first argument bounds the rounds; the number of calls of fallocate is returned
with the result. -/
def allocateSlots (os : Os) (stride : Nat) : Nat → Nat → Except String Nat × Nat
  | 0, sc => (.error (insufficient (totalSize sc stride) ""), 0)
  | rounds + 1, sc =>
    match os.fallocate (totalSize sc stride) with
    | .done => (.ok sc, 1)
    | .noSpace =>
      if 1 < sc then
        let r := allocateSlots os stride rounds (max sc 2 / 2)
        (r.1, r.2 + 1)
      else (.error (insufficient (totalSize sc stride) "ENOSPC: No space left on device"), 1)
    | .failed errno => (.error (insufficient (totalSize sc stride) errno), 1)

theorem clampedSlots_pos (os : Os) (slotCount stride : Nat) : 0 < clampedSlots os slotCount stride :=
  Nat.lt_of_lt_of_le Nat.one_pos (Nat.le_max_right _ _)

theorem clampedSlots_le (os : Os) (slotCount stride : Nat) :
    clampedSlots os slotCount stride ≤ maxRingSlots := by
  unfold clampedSlots
  simp only
  cases os.availableShmBytes with
  | none => simp only [maxRingSlots]; omega
  | some avail =>
    simp only
    split_ifs <;> simp only [maxRingSlots] at * <;> omega

variable {n rounds sc : Nat}

theorem allocateSlots_pos {os : Os} {stride : Nat} (hsc : 0 < sc)
    (h : (allocateSlots os stride rounds sc).1 = .ok n) : 0 < n ∧ n ≤ sc := by
  induction rounds generalizing sc with
  | zero => cases h
  | succ rounds ih =>
    simp only [allocateSlots] at h
    split at h
    · cases h
      exact ⟨hsc, le_rfl⟩
    · split_ifs at h with hlt
      have := ih (by omega) h
      omega
    · cases h

/-- The slots are halved, so that this many rounds are enough. -/
theorem allocateSlots_rounds (os : Os) (stride : Nat) (hr : Nat.log 2 sc < rounds) :
    allocateSlots os stride (rounds + 1) sc = allocateSlots os stride rounds sc := by
  induction rounds generalizing sc with
  | zero => omega
  | succ rounds ih =>
    conv_lhs => rw [allocateSlots]
    conv_rhs => rw [allocateSlots]
    by_cases hlt : 1 < sc
    · have hpos : 0 < Nat.log 2 sc := Nat.log_pos Nat.one_lt_two hlt
      rw [ih (by rw [Nat.max_eq_left hlt, Nat.log_div_base]; omega)]
    · simp only [hlt, if_false]

theorem allocateSlots_calls (os : Os) (stride : Nat) : (allocateSlots os stride rounds sc).2 ≤ rounds := by
  induction rounds generalizing sc with
  | zero => exact le_rfl
  | succ rounds ih =>
    simp only [allocateSlots]
    split
    · exact Nat.succ_pos rounds
    · split_ifs
      · exact Nat.succ_le_succ ih
      · exact Nat.succ_pos rounds
    · exact Nat.succ_pos rounds

theorem allocateSlots_reserved {os : Os} {stride : Nat}
    (h : (allocateSlots os stride rounds sc).1 = .ok n) : os.fallocate (totalSize n stride) = .done := by
  induction rounds generalizing sc with
  | zero => cases h
  | succ rounds ih =>
    simp only [allocateSlots] at h
    split at h
    · rename_i hdone
      cases h
      exact hdone
    · split_ifs at h
      exact ih h
    · cases h

def createWithFd (os : Os) (slotCount : Nat) (stride : Stride) : Except String Geometry :=
  let sc := clampedSlots os slotCount stride.size
  match h : (allocateSlots os stride.size sc sc).1 with
  | .error e => .error e
  | .ok n =>
    match os.mmap (totalSize n stride.size) with
    | some e => .error e
    | none => .ok
        { slotCount := min sc ((totalSize n stride.size - headerSize) / stride.size)
          slotSize := stride.size
          slotCount_pos := by
            have hn := (allocateSlots_pos (clampedSlots_pos os slotCount stride.size) h).1
            have hs : 0 < stride.size := Nat.lt_of_lt_of_le (by decide) stride.slotDataOffset_le
            rw [totalSize, Nat.add_sub_cancel_left, Nat.mul_div_cancel _ hs]
            exact Nat.lt_min.mpr ⟨clampedSlots_pos os slotCount stride.size, hn⟩
          slotCount_lt := by
            have hle := clampedSlots_le os slotCount stride.size
            simp only [maxRingSlots] at hle
            omega
          slotDataOffset_le := stride.slotDataOffset_le
          slotSize_lt := stride.size_lt }

theorem createWithFd_ok {os : Os} {slotCount : Nat} {stride : Stride} {g : Geometry}
    (h : createWithFd os slotCount stride = .ok g) : g.slotSize = stride.size ∧
      ∃ reserved, os.fallocate reserved = .done ∧ totalSize g.slotCount stride.size ≤ reserved := by
  unfold createWithFd at h
  dsimp only at h
  split at h
  · cases h
  rename_i n hn
  split at h
  · cases h
  cases h
  refine ⟨rfl, _, allocateSlots_reserved hn, ?_⟩
  have hle := Nat.div_mul_le_self (n * stride.size) stride.size
  simp only [totalSize, Nat.add_sub_cancel_left]
  exact Nat.add_le_add_left (le_trans (Nat.mul_le_mul_right _ (Nat.min_le_right ..)) hle) _

def openError (os : Os) (g : Geometry) : Option String :=
  match (os.fallocate headerSize).error with
  | some e => some ("stale shared memory header cannot be allocated (" ++ toString headerSize ++
      " bytes): " ++ e)
  | none =>
    let total := totalSize g.slotCount g.slotSize
    match (os.fallocate total).error with
    | some e => some ("stale shared memory segment cannot be allocated (" ++ toString total ++
        " bytes): " ++ e)
    | none => os.mmap total

def isCompatibleWithRequest (g : Geometry) (stride : Stride) : Bool :=
  decide (0 < g.slotCount ∧ stride.size ≤ g.slotSize)

/-- The shared memory of a host. A segment outlives its name and its mappings;
the channel of a segment is the one it was created for. -/
structure Shm where
  rings : Nat → Ring
  linked : Nat → Option Nat
  created : Nat
  channel : Nat → Nat
  linked_lt : ∀ t seg, linked t = some seg → seg < created
  channel_linked : ∀ t seg, linked t = some seg → channel seg = t

def unlink (s : Shm) (t : Nat) : Shm :=
  { s with
    linked := update s.linked t none
    linked_lt := fun u seg h => by
      rw [update_apply] at h
      split_ifs at h
      exact s.linked_lt u seg h
    channel_linked := fun u seg h => by
      rw [update_apply] at h
      split_ifs at h
      exact s.channel_linked u seg h }

def link (s : Shm) (t : Nat) (g : Geometry) : Shm where
  rings := update s.rings s.created (create g)
  linked := update s.linked t (some s.created)
  created := s.created + 1
  channel := update s.channel s.created t
  linked_lt := fun u seg h => by
    rw [update_apply] at h
    split_ifs at h
    · cases h
      exact Nat.lt_succ_self _
    · exact Nat.lt_succ_of_lt (s.linked_lt u seg h)
  channel_linked := fun u seg h => by
    rw [update_apply] at h
    split_ifs at h with hu
    · cases h
      rw [update_self, hu]
    · rw [update_of_ne (Nat.ne_of_lt (s.linked_lt u seg h))]
      exact s.channel_linked u seg h

/-- Creation under a free name; a failed one leaves the name free. -/
def createExclusive (os : Os) (s : Shm) (t slotCount : Nat) (stride : Stride) :
    Except String Nat × Shm :=
  match createWithFd os slotCount stride with
  | .ok g => (.ok s.created, link s t g)
  | .error e => (.error e, unlink s t)

/-- A segment with too small slots is unlinked and replaced, also when it is
in use. The system may answer the creation otherwise than the opening before it. -/
def createOrOpenThen (probe os : Os) (s : Shm) (t slotCount slotSize : Nat) : Except String Nat × Shm :=
  match slotStrideForPayload slotSize with
  | .error e => (.error e, s)
  | .ok stride =>
    match s.linked t with
    | none => createExclusive os s t slotCount stride
    | some seg =>
      match openError probe (s.rings seg).geometry with
      | some e => (.error e, s)
      | none =>
        if isCompatibleWithRequest (s.rings seg).geometry stride then (.ok seg, s)
        else createExclusive os (unlink s t) t slotCount stride

def createOrOpen (os : Os) (s : Shm) (t slotCount slotSize : Nat) : Except String Nat × Shm :=
  createOrOpenThen os os s t slotCount slotSize

theorem createExclusive_cases (os : Os) (s : Shm) (t slotCount : Nat) (stride : Stride) :
    (∃ e, createExclusive os s t slotCount stride = (.error e, unlink s t)) ∨
    ∃ g, g.slotSize = stride.size ∧
      createExclusive os s t slotCount stride = (.ok s.created, link s t g) := by
  unfold createExclusive
  cases h : createWithFd os slotCount stride with
  | error e => exact .inl ⟨e, rfl⟩
  | ok g => exact .inr ⟨g, (createWithFd_ok h).1, rfl⟩

/-- What an opening can give, and the memory it leaves behind. -/
inductive Opens (s : Shm) (t slotSize : Nat) : Except String Nat × Shm → Prop
  | failed (e : String) : Opens s t slotSize (.error e, s)
  | removed (e : String) : Opens s t slotSize (.error e, unlink s t)
  | found {seg : Nat} : s.linked t = some seg → alignedStride slotSize ≤ (s.rings seg).geometry.slotSize →
      Opens s t slotSize (.ok seg, s)
  | made {g : Geometry} : g.slotSize = alignedStride slotSize →
      (∀ seg, s.linked t = some seg → (s.rings seg).geometry.slotSize < alignedStride slotSize) →
      Opens s t slotSize (.ok s.created, link s t g)

theorem createOrOpen_cases (os : Os) (s : Shm) (t slotCount slotSize : Nat) :
    Opens s t slotSize (createOrOpen os s t slotCount slotSize) := by
  unfold createOrOpen createOrOpenThen slotStrideForPayload
  split_ifs with hstride
  · simp only
    cases hl : s.linked t with
    | none =>
      rcases createExclusive_cases os s t slotCount ⟨_, _, hstride⟩ with ⟨e, he⟩ | ⟨g, hg, he⟩
      · exact he ▸ .removed e
      · exact he ▸ .made hg (by simp [hl])
    | some seg =>
      cases ho : openError os (s.rings seg).geometry with
      | some e =>
        simp only [ho]
        exact .failed e
      | none =>
        simp only [ho]
        split_ifs with hc
        · exact .found hl (of_decide_eq_true hc).2
        rcases createExclusive_cases os (unlink s t) t slotCount ⟨_, _, hstride⟩ with
          ⟨e, he⟩ | ⟨g, hg, he⟩
        · simp only [unlink, update_idem] at he
          exact he ▸ .removed e
        simp only [unlink, link, update_idem] at he
        refine he ▸ .made hg fun seg' hs => ?_
        rw [hl] at hs
        cases hs
        refine Nat.lt_of_not_le fun hle => hc (decide_eq_true ⟨?_, hle⟩)
        exact (s.rings seg).geometry.slotCount_pos
  · exact .failed _

section Sizes

/-- The segment was made by a creation with some request. -/
def Created (g : Geometry) : Prop :=
  ∃ os slotCount payloadSize stride, slotStrideForPayload payloadSize = .ok stride ∧
    createWithFd os slotCount stride = .ok g

structure Sound (probe os : Os) (slotSize : Nat) (g : Geometry) : Prop where
  slots : 1 ≤ g.slotCount
  aligned : 8 ∣ g.slotSize
  capacity : slotSize ≤ payloadCapacityFromStride g.slotSize
  reserved : ∃ reserved, (probe.fallocate reserved = .done ∨ os.fallocate reserved = .done) ∧
    totalSize g.slotCount g.slotSize ≤ reserved

variable {probe os : Os} {s shm : Shm} {t slotCount slotSize seg : Nat} {stride : Stride} {g : Geometry}

theorem slotStrideForPayload_ok (h : slotStrideForPayload slotSize = .ok stride) :
    8 ∣ stride.size ∧ slotSize + slotDataOffset ≤ stride.size := by
  unfold slotStrideForPayload at h
  split_ifs at h
  cases h
  exact ⟨⟨_, Nat.mul_comm ..⟩, add_le_alignedStride slotSize⟩

theorem createExclusive_sound (hs : slotStrideForPayload slotSize = .ok stride)
    (h : createExclusive os s t slotCount stride = (.ok seg, shm)) :
    Sound probe os slotSize (shm.rings seg).geometry := by
  unfold createExclusive at h
  split at h
  · rename_i g hg
    cases h
    obtain ⟨hsize, reserved, hdone, hle⟩ := createWithFd_ok hg
    obtain ⟨haligned, hroom⟩ := slotStrideForPayload_ok hs
    rw [show (link s t g).rings s.created = create g from update_self ..]
    exact ⟨g.slotCount_pos, hsize ▸ haligned, hsize ▸ Nat.le_sub_of_add_le hroom, reserved, .inr hdone,
      hsize ▸ hle⟩
  · cases h

theorem openError_none (h : openError os g = none) :
    os.fallocate (totalSize g.slotCount g.slotSize) = .done := by
  unfold openError at h
  split at h
  · cases h
  simp only at h
  split at h
  · cases h
  rename_i hnone
  cases hf : os.fallocate (totalSize g.slotCount g.slotSize) with
  | done => rfl
  | noSpace | failed => simp [hf, Allocation.error] at hnone

/-- A ring that is handed out has at least one slot, aligned ones that hold the
payload asked for, and no more memory than was reserved. The backoff loop calls
fallocate at most once more than the slots can be halved, however many rounds it
is given. -/
theorem handed_ring_sound (probe os : Os) (s : Shm) (t slotCount slotSize : Nat)
    (hold : ∀ seg, s.linked t = some seg → Created (s.rings seg).geometry) :
    (∀ seg shm, createOrOpenThen probe os s t slotCount slotSize = (.ok seg, shm) →
      Sound probe os slotSize (shm.rings seg).geometry) ∧
    ∀ stride rounds, Nat.log 2 (clampedSlots os slotCount stride) < rounds →
      allocateSlots os stride rounds (clampedSlots os slotCount stride) = allocateSlots os stride
        (Nat.log 2 (clampedSlots os slotCount stride) + 1) (clampedSlots os slotCount stride) ∧
      (allocateSlots os stride rounds (clampedSlots os slotCount stride)).2 ≤
        Nat.log 2 (clampedSlots os slotCount stride) + 1 := by
  refine ⟨fun seg shm h => ?_, fun stride rounds hr => ?_⟩
  · unfold createOrOpenThen at h
    split at h
    · cases h
    rename_i stride hs
    split at h
    · exact createExclusive_sound hs h
    rename_i seg' hlinked
    split at h
    · cases h
    rename_i hopen
    split_ifs at h with hfits
    · cases h
      obtain ⟨_, _, _, stride', hs', hg⟩ := hold seg hlinked
      have hsize := (createWithFd_ok hg).1
      exact ⟨(s.rings seg).geometry.slotCount_pos, hsize ▸ (slotStrideForPayload_ok hs').1,
        Nat.le_sub_of_add_le ((slotStrideForPayload_ok hs).2.trans (of_decide_eq_true hfits).2),
        _, .inl (openError_none hopen), le_rfl⟩
    · exact createExclusive_sound hs h
  · induction rounds, hr using Nat.le_induction with
    | base => exact ⟨rfl, allocateSlots_calls os stride⟩
    | succ rounds hr ih =>
      rw [allocateSlots_rounds os stride hr]
      exact ih

def noMemory : Shm where
  rings := fun _ => create oneSlot
  linked := fun _ => none
  created := 0
  channel := fun _ => 0
  linked_lt := by simp
  channel_linked := by simp

/-- There is room for two slots of the size below, not for four. -/
def tightOs : Os := ⟨4096, none, fun size => if size < 300 then .done else .noSpace, fun _ => none⟩

theorem first_ring_sound :
    ∃ seg shm, createOrOpenThen tightOs tightOs noMemory 7 4 100 = (.ok seg, shm) ∧
      Sound tightOs tightOs 100 (shm.rings seg).geometry ∧ (allocateSlots tightOs 112 4 4).2 = 2 ∧
      (allocateSlots tightOs 112 4 4).2 ≤ Nat.log 2 4 + 1 :=
  have h := handed_ring_sound tightOs tightOs noMemory 7 4 100 (by simp [noMemory])
  ⟨0, _, rfl, h.1 0 _ rfl, rfl, (h.2 112 4 (by decide)).2⟩

end Sizes

end RmwAxon.Segment
