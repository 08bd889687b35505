import RmwAxon.RingBuffer

namespace RmwAxon.RingHistory

open Cells RingBuffer Function List

abbrev History := Nat → Option Bytes

structure Holds (c : Slot) (s : Nat) (data : Bytes) : Prop where
  stamped : c.seq = some s
  sized : c.len = data.length
  bytes : slice c.data data.length = data

/-- The slots of the last turn of the ring hold the published messages of
that turn. Nothing is said of a slot whose number was never published. -/
structure Tracks (m : Ring) (published : History) : Prop where
  below : ∀ s data, published s = some data → s < m.writeIndex
  fits : ∀ s data, published s = some data → data.length ≤ payloadCapacity m
  held : ∀ s data, published s = some data → m.writeIndex ≤ s + slotCount m →
    Holds (slotAt m s) s data

def readMessage (data out : Bytes) : Except RingError Nat × Bytes :=
  if data = [] then (.error .slotNotYetWritten, out)
  else if out.length < data.length then (.error .bufferTooSmall, out)
  else (.ok data.length, copyOut data out)

variable {data out : Bytes} {m : Ring} {s n : Nat} {published : History} {log : List Bytes}

theorem readMessage_ok (hne : data ≠ []) (hfit : data.length ≤ out.length) :
    readMessage data out = (.ok data.length, copyOut data out) := by
  simp [readMessage, hne, Nat.not_lt.mpr hfit]

theorem readSlot_of_holds (h : Holds (slotAt m s) s data) (hs : s < m.writeIndex)
    (hw : m.writeIndex ≤ s + slotCount m) (out : Bytes) :
    readSlot m s out = readMessage data out := by
  have hgap : ¬ slotCount m < m.writeIndex - s := by omega
  simp only [readSlot, Nat.not_le.mpr hs, hgap, if_false, h.stamped, ne_eq, not_true_eq_false,
    h.sized, h.bytes, readMessage, length_eq_zero_iff]

theorem slotDataSize_of_holds (h : Holds (slotAt m s) s data) (hs : s < m.writeIndex)
    (hw : m.writeIndex ≤ s + slotCount m) :
    slotDataSize m s = if data = [] then .error .slotNotYetWritten else .ok data.length := by
  have hgap : ¬ slotCount m < m.writeIndex - s := by omega
  simp only [slotDataSize, Nat.not_le.mpr hs, hgap, if_false, h.stamped, ne_eq,
    not_true_eq_false, h.sized, length_eq_zero_iff]

theorem readSlot_whole (h : Holds (slotAt m s) s data) (hs : s < m.writeIndex)
    (hw : m.writeIndex ≤ s + slotCount m) (hne : data ≠ []) :
    readSlot m s (List.replicate data.length 0) = (.ok data.length, data) := by
  rw [readSlot_of_holds h hs hw, readMessage_ok hne (by simp)]
  simp [copyOut]

theorem slotDataSize_incomplete (hs : s < m.writeIndex) (hw : m.writeIndex ≤ s + slotCount m)
    (h : (slotAt m s).seq ≠ some s ∨ (slotAt m s).len = 0) :
    slotDataSize m s = .error .slotNotYetWritten := by
  have hgap : ¬ slotCount m < m.writeIndex - s := by omega
  simp only [slotDataSize, Nat.not_le.mpr hs, hgap, if_false]
  split_ifs with hseq hlen
  · rfl
  · rfl
  · exact absurd (h.resolve_left hseq) hlen

theorem readSlot_future (h : m.writeIndex ≤ s) (out : Bytes) : readSlot m s out = (.error .noData, out) := by
  simp [readSlot, h]

theorem readSlot_overwritten (h : s + slotCount m < m.writeIndex) (out : Bytes) :
    readSlot m s out = (.error .slotOverwritten, out) := by
  have hs : ¬ m.writeIndex ≤ s := by omega
  have hgap : slotCount m < m.writeIndex - s := by omega
  simp [readSlot, hs, hgap]

theorem readSlot_window (h : (readSlot m s out).1 = .ok n) :
    s < m.writeIndex ∧ m.writeIndex ≤ s + slotCount m := by
  rcases Nat.lt_or_ge s m.writeIndex with hs | hs
  · rcases Nat.lt_or_ge (s + slotCount m) m.writeIndex with hw | hw
    · rw [readSlot_overwritten hw] at h
      cases h
    · exact ⟨hs, hw⟩
  · rw [readSlot_future hs] at h
    cases h

theorem readSlot_published (h : Tracks m published) (hd : published s = some data)
    (hn : (readSlot m s out).1 = .ok n) :
    n = data.length ∧ (readSlot m s out).2.take n = data := by
  obtain ⟨hs, hw⟩ := readSlot_window hn
  rw [readSlot_of_holds (h.held s data hd hw) hs hw] at hn ⊢
  unfold readMessage at hn ⊢
  split_ifs at hn ⊢
  cases hn
  exact ⟨rfl, take_copyOut _ _⟩

theorem slotDataSize_future (h : m.writeIndex ≤ s) : slotDataSize m s = .error .noData := by
  simp [slotDataSize, h]

theorem slotDataSize_overwritten (h : s + slotCount m < m.writeIndex) :
    slotDataSize m s = .error .slotOverwritten := by
  have hs : ¬ m.writeIndex ≤ s := by omega
  have hgap : slotCount m < m.writeIndex - s := by omega
  simp [slotDataSize, hs, hgap]

theorem holds_of_fill (c : Slot) (s : Nat) (hfit : data.length ≤ payloadCapacity m) :
    Holds ⟨some s, asU32 data.length, copyIn data c.data⟩ s data :=
  ⟨rfl, asU32_of_le hfit, slice_copyIn data c.data⟩

theorem write_refused (h : payloadCapacity m < data.length) :
    write m data = (.error .dataExceedsSlotSize, m) := by
  simp [write, h]

theorem write_accepted (h : data.length ≤ payloadCapacity m) : ∃ r, write m data = (.ok m.writeIndex,
      fillSlot { m with writeIndex := m.writeIndex + 1, readIndex := r } m.writeIndex data) := by
  simp only [write, Nat.not_lt.mpr h, if_false, reserve, compareExchangeRead]
  split
  · exact ⟨_, rfl⟩
  · exact ⟨m.readIndex, rfl⟩

theorem write_ok {m' : Ring} (h : write m data = (.ok s, m')) :
    s = m.writeIndex ∧ data.length ≤ payloadCapacity m ∧
      ∃ r, m' = fillSlot { m with writeIndex := m.writeIndex + 1, readIndex := r } m.writeIndex data := by
  rcases Nat.lt_or_ge (payloadCapacity m) data.length with hbig | hfit
  · rw [write_refused hbig] at h
    cases h
  · obtain ⟨r, hr⟩ := write_accepted hfit
    cases hr.symm.trans h
    exact ⟨rfl, hfit, r, rfl⟩

theorem publish_cases {v : Nat} {d : Bytes} (h : update published s (some data) v = some d) :
    (v = s ∧ d = data) ∨ (v ≠ s ∧ published v = some d) := by
  rw [update_apply] at h
  split_ifs at h with hv
  · exact .inl ⟨hv, (Option.some.inj h).symm⟩
  · exact .inr ⟨hv, h⟩

theorem publish_tracks (h : Tracks m published) (hfit : data.length ≤ payloadCapacity m) (r : Nat) :
    Tracks (fillSlot { m with writeIndex := m.writeIndex + 1, readIndex := r } m.writeIndex data)
      (update published m.writeIndex (some data)) := by
  refine ⟨?_, ?_, ?_⟩
  · intro s d hd
    simp only [fillSlot_writeIndex]
    rcases publish_cases hd with ⟨rfl, _⟩ | ⟨_, hd⟩
    · exact Nat.lt_succ_self _
    · exact Nat.lt_succ_of_lt (h.below s d hd)
  · intro s d hd
    simp only [payloadCapacity, fillSlot_geometry]
    rcases publish_cases hd with ⟨_, rfl⟩ | ⟨_, hd⟩
    · exact hfit
    · exact h.fits s d hd
  · intro s d hd hw
    simp only [fillSlot_writeIndex, slotCount, fillSlot_geometry] at hw
    rw [fillSlot_eq]
    rcases publish_cases hd with ⟨rfl, rfl⟩ | ⟨_, hd⟩
    · rw [slotAt_updateSlot_self]
      exact holds_of_fill _ _ hfit
    have hb := h.below s d hd
    rw [slotAt_updateSlot_of_ne]
    · exact h.held s d hd (by simp only [slotCount]; omega)
    intro he
    have := add_le_of_mod_eq he hb
    simp only [slotCount] at this
    omega

structure SameSlots (n m : Ring) : Prop where
  geometry : n.geometry = m.geometry
  writeIndex : n.writeIndex = m.writeIndex
  slots : n.slots = m.slots

theorem SameSlots.refl (m : Ring) : SameSlots m m := ⟨rfl, rfl, rfl⟩

theorem SameSlots.trans {k n : Ring} (h : SameSlots k n) (h' : SameSlots n m) : SameSlots k m :=
  ⟨h.geometry.trans h'.geometry, h.writeIndex.trans h'.writeIndex, h.slots.trans h'.slots⟩

theorem tracks_of_slots {n : Ring} (h : Tracks m published) (hn : SameSlots n m) : Tracks n published := by
  obtain ⟨hg, hw, hs⟩ := hn
  cases m; cases n
  simp only at hg hw hs
  subst hg hw hs
  exact ⟨h.below, h.fits, h.held⟩

theorem read_frame (m : Ring) (s : Nat) (out : Bytes) : SameSlots (read m s out).2.2 m := by
  unfold RingBuffer.read
  split
  · split <;> exact ⟨rfl, rfl, rfl⟩
  · exact ⟨rfl, rfl, rfl⟩

inductive Op
  | write (data : Bytes)
  | read (s : Nat) (out : Bytes)
  | readWithoutConsuming (s : Nat) (out : Bytes)
  | skipAllPending
  | markGeneration

def apply (m : Ring) : Op → Ring
  | .write data => (write m data).2
  | .read s out => (read m s out).2.2
  | .readWithoutConsuming _ _ => m
  | .skipAllPending => skipAllPending m
  | .markGeneration => markGeneration m

def applyAll (m : Ring) (ops : List Op) : Ring := ops.foldl apply m

def writeReplies (m : Ring) : List Op → List (Except RingError Nat)
  | [] => []
  | .write data :: ops => (write m data).1 :: writeReplies (apply m (.write data)) ops
  | op :: ops => writeReplies (apply m op) ops

def written : List Op → List Bytes
  | [] => []
  | .write data :: ops => data :: written ops
  | _ :: ops => written ops

def Accepted (g : Geometry) (ops : List Op) : Prop :=
  ∀ data, Op.write data ∈ ops → data.length ≤ payloadCapacityFromStride g.slotSize

/-- The ring of a run of whole operations: the log lists the payloads in the
order of their sequence numbers. -/
structure Represents (m : Ring) (log : List Bytes) : Prop where
  length : m.writeIndex = log.length
  tracks : Tracks m (fun s => log[s]?)

theorem create_represents (g : Geometry) : Represents (create g) [] :=
  ⟨rfl, ⟨by simp, by simp, by simp⟩⟩

section

variable (h : Represents m log)
include h

theorem write_represents (hfit : data.length ≤ payloadCapacity m) :
    (write m data).1 = .ok log.length ∧ (write m data).2.geometry = m.geometry ∧
      Represents (write m data).2 (log ++ [data]) := by
  obtain ⟨r, hr⟩ := write_accepted hfit
  rw [hr, h.length]
  have ht := publish_tracks h.tracks hfit r
  have he : update (fun s => log[s]?) m.writeIndex (some data) = fun s => (log ++ [data])[s]? := by
    funext s
    rw [h.length, update_apply]
    split_ifs with hs
    · simp [hs]
    · rcases Nat.lt_or_gt_of_ne hs with hlt | hgt
      · rw [getElem?_append_left hlt]
      · rw [getElem?_eq_none hgt.le, getElem?_eq_none (by simp; omega)]
  rw [he, h.length] at ht
  exact ⟨rfl, by simp, by simp, ht⟩

theorem apply_represents (op : Op) (hop : Accepted m.geometry [op]) :
    (apply m op).geometry = m.geometry ∧ Represents (apply m op) (log ++ written [op]) := by
  cases op with
  | write data => exact (write_represents h (hop data (by simp))).2
  | read s out =>
    have hf := read_frame m s out
    refine ⟨hf.geometry, hf.writeIndex.trans ?_, tracks_of_slots ?_ hf⟩
    · simpa [written] using h.length
    · simpa [written] using h.tracks
  | readWithoutConsuming s out => exact ⟨rfl, by simpa [written, apply] using h⟩
  | skipAllPending | markGeneration =>
    refine ⟨rfl, ?_, tracks_of_slots (m := m) ?_ ⟨rfl, rfl, rfl⟩⟩
    · simpa [written, apply, skipAllPending, markGeneration] using h.length
    · simpa [written] using h.tracks

theorem applyAll_represents (ops : List Op) (hops : Accepted m.geometry ops) :
    (applyAll m ops).geometry = m.geometry ∧ Represents (applyAll m ops) (log ++ written ops) ∧
      writeReplies m ops = (List.range' log.length (written ops).length).map .ok := by
  induction ops generalizing m log with
  | nil => exact ⟨rfl, by simpa [applyAll, written] using h, rfl⟩
  | cons op ops ih =>
    have hop : Accepted m.geometry [op] := fun data hd => hops data (by simp_all)
    obtain ⟨hg, hr⟩ := apply_represents h op hop
    have hrest : Accepted (apply m op).geometry ops :=
      fun data hd => hg ▸ hops data (mem_cons_of_mem _ hd)
    obtain ⟨hg', hr', hw⟩ := ih hr hrest
    refine ⟨hg'.trans hg, ?_, ?_⟩
    · cases op <;> simpa [applyAll, written] using hr'
    cases op with
    | write data =>
      have hok := (write_represents h (hop data (by simp))).1
      simpa [writeReplies, written, hok, range'_succ] using hw
    | read | readWithoutConsuming | skipAllPending | markGeneration => simpa [writeReplies, written] using hw

theorem readSlot_represented (hw : log.length ≤ s + slotCount m) (hd : log[s]? = some data) (out : Bytes) :
    readSlot m s out = readMessage data out := by
  have hw' : m.writeIndex ≤ s + slotCount m := h.length ▸ hw
  exact readSlot_of_holds (h.tracks.held s data hd hw') (h.tracks.below s data hd) hw' out

/-- A reader that copies messages of the last turn sees the log, and nothing
else: outside that window every read is refused. -/
theorem readSlot_succeeds_iff (hne : ∀ data ∈ log, data ≠ [])
    (hout : ∀ data, log[s]? = some data → data.length ≤ out.length) :
    (∃ n, (readSlot m s out).1 = .ok n) ↔ m.writeIndex - slotCount m ≤ s ∧ s < m.writeIndex := by
  constructor
  · rintro ⟨n, hn⟩
    by_contra hc
    rcases Nat.lt_or_ge s m.writeIndex with hs | hs
    · rw [readSlot_overwritten (by omega)] at hn
      cases hn
    · rw [readSlot_future hs] at hn
      cases hn
  · rintro ⟨hlo, hhi⟩
    have hs : s < log.length := h.length ▸ hhi
    have hd : log[s]? = some log[s] := getElem?_eq_getElem hs
    rw [readSlot_represented h (by have := h.length; omega) hd,
      readMessage_ok (hne _ (getElem_mem hs)) (hout _ hd)]
    exact ⟨_, rfl⟩

theorem readSlot_bytes (hn : (readSlot m s out).1 = .ok n) :
    ∃ data, log[s]? = some data ∧ n = data.length ∧ (readSlot m s out).2.take n = data := by
  have hl : s < log.length := by
    rw [← h.length]
    exact (readSlot_window hn).1
  have hd : log[s]? = some log[s] := getElem?_eq_getElem hl
  exact ⟨_, hd, readSlot_published h.tracks hd hn⟩

end

theorem mem_written {ops : List Op} : data ∈ written ops ↔ Op.write data ∈ ops := by
  induction ops with
  | nil => simp [written]
  | cons op ops ih => cases op <;> simp [written, ih]

theorem whole_operations_history (g : Geometry) (ops : List Op)
    (hops : ∀ data, Op.write data ∈ ops →
      data ≠ [] ∧ data.length ≤ payloadCapacityFromStride g.slotSize) :
    writeReplies (create g) ops = (List.range (written ops).length).map .ok ∧
    (applyAll (create g) ops).writeIndex = (written ops).length ∧
    ∀ s out, (∀ data, (written ops)[s]? = some data → data.length ≤ out.length) →
      ((∃ n, (readWithoutConsuming (applyAll (create g) ops) s out).1 = .ok n) ↔
        (written ops).length - g.slotCount ≤ s ∧ s < (written ops).length) ∧
      ∀ n, (readWithoutConsuming (applyAll (create g) ops) s out).1 = .ok n →
        ∃ data, (written ops)[s]? = some data ∧ n = data.length ∧
          (readWithoutConsuming (applyAll (create g) ops) s out).2.take n = data := by
  obtain ⟨hg, hr, hw⟩ := applyAll_represents (create_represents g) ops fun d hd => (hops d hd).2
  rw [nil_append] at hr
  have hcount : slotCount (applyAll (create g) ops) = g.slotCount := by
    simp only [slotCount, hg]
    rfl
  refine ⟨by simpa [range_eq_range'] using hw, hr.length, ?_⟩
  intro s out hout
  refine ⟨?_, fun n hn => readSlot_bytes hr hn⟩
  have hne : ∀ data ∈ written ops, data ≠ [] := fun d hd => (hops d (mem_written.mp hd)).1
  have h := readSlot_succeeds_iff hr hne hout
  rwa [hr.length, hcount] at h

def twoSlots : Geometry := ⟨2, 24, by decide, by decide, by decide, by decide⟩

/-- Three writes into two slots: the middle one is still there. -/
theorem whole_operations_two_slots :
    ∃ n, (readWithoutConsuming (applyAll (create twoSlots)
      [.write [1], .write [2, 3], .markGeneration, .write [4]]) 1 [0, 0]).1 = .ok n := by
  have h := whole_operations_history twoSlots
    [.write [1], .write [2, 3], .markGeneration, .write [4]] (by simp [twoSlots]; decide)
  exact (h.2.2 1 [0, 0] (by simp [written])).1.mpr (by simp [written, twoSlots])

end RmwAxon.RingHistory
