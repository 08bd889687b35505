import RmwAxon.Segment
import RmwAxon.SlotOrder

namespace RmwAxon.RingCreation

open RingBuffer RingAtomic SlotOrder Transition Segment Function

inductive Cell
  | seq (i : Nat)
  | len (i : Nat)
  | byte (i j : Nat)
  deriving DecidableEq

def cells (g : Geometry) : List Cell :=
  (List.range g.slotCount).flatMap fun i =>
    .seq i :: .len i :: (List.range (payloadCapacityFromStride g.slotSize)).map (.byte i)

def zero (m : Ring) : Cell → Ring
  | .seq i => storeSeq m i (some 0)
  | .len i => storeLen m i 0
  | .byte i j => storeByte m i j 0

/-- What create_with_fd does next, once shm_open has made the name. The bytes
of the slots may be cleared in any order. -/
inductive Creation
  | allocate
  | storeCapacity
  | storeSlotSize
  | storeWriteIndex
  | storeReadIndex
  | storeEpoch
  | clear (todo : List Cell)
  | finished
  | abandoned
  deriving DecidableEq

/-- What a process that found the name taken does next, with the rounds that
wait_open_compatible has left. One that is elsewhere has removed the name and
goes on with a segment of its own. -/
inductive Opening
  | outside
  | probe (rounds : Nat)
  | stat (rounds : Nat)
  | loadCapacity (rounds : Nat)
  | loadSlotSize (rounds cap : Nat)
  | attach (rounds cap ssz : Nat)
  | handed (cap ssz : Nat)
  | elsewhere
  | failed
  deriving DecidableEq

/-- A new segment, the process that creates it and those that open it. The
pages that fallocate reserves are zero, so the memory is that of a ring which
nobody has written to; the size and the two words an opener looks at are apart. -/
structure State where
  memory : RingAtomic.State
  linked : Bool
  size : Nat
  capacity : Nat
  slotSize : Nat
  creation : Creation
  request : Nat → Nat
  opening : Nat → Opening

def start (g : Geometry) (request : Nat → Nat) : State :=
  ⟨initial g, true, 0, 0, 0, .allocate, request, fun _ => .outside⟩

def State.store (s : State) (m : Ring) (c : Creation) : State :=
  { s with memory := { s.memory with ring := m }, creation := c }

def createStep (s : State) : Option State :=
  let m := s.memory.ring
  match s.creation with
  | .allocate => some
      { s with size := totalSize m.geometry.slotCount m.geometry.slotSize, creation := .storeCapacity }
  | .storeCapacity => some { s with capacity := m.geometry.slotCount, creation := .storeSlotSize }
  | .storeSlotSize => some { s with slotSize := m.geometry.slotSize, creation := .storeWriteIndex }
  | .storeWriteIndex => some (s.store { m with writeIndex := 0 } .storeReadIndex)
  | .storeReadIndex => some (s.store { m with readIndex := 0 } .storeEpoch)
  | .storeEpoch => some (s.store { m with epoch := 0 } (.clear (cells m.geometry)))
  | .clear todo => if todo = [] then some { s with creation := .finished } else none
  | .finished | .abandoned => none

def clearStep (s : State) (x : Cell) : Option State :=
  match s.creation with
  | .clear todo => if x ∈ todo then some (s.store (zero s.memory.ring x) (.clear (todo.erase x))) else none
  | _ => none

/-- fallocate or mmap fails before the header is touched. -/
def abandonStep (s : State) : Option State :=
  match s.creation with
  | .allocate | .storeCapacity => some { s with linked := false, creation := .abandoned }
  | _ => none

def shmCreateRaceRetries : Nat := 100

def State.put (s : State) (p : Nat) (o : Opening) : State :=
  { s with opening := update s.opening p o }

def State.unlink (s : State) (p : Nat) : State := { s.put p .elsewhere with linked := false }

/-- A segment that is too small, or whose header is still zero, is tried again. -/
def openStep (s : State) (p : Nat) : Option State :=
  match s.opening p with
  | .probe 0 => some (s.unlink p)
  | .probe (n + 1) => some (if s.linked then s.put p (.stat n) else s.unlink p)
  | .stat n => some (s.put p (if s.size < headerSize then .probe n else .loadCapacity n))
  | .loadCapacity n => some (s.put p (.loadSlotSize n s.capacity))
  | .loadSlotSize n cap => some (s.put p (.attach n cap s.slotSize))
  | .attach n cap ssz => some
      (if cap = 0 ∨ ssz = 0 then s.put p (.probe n)
      else if 0 < cap ∧ s.request p ≤ ssz then s.put p (.handed cap ssz)
      else s.unlink p)
  | .outside | .handed _ _ | .elsewhere | .failed => none

def Opening.busy : Opening → Bool
  | .stat _ | .loadCapacity _ | .loadSlotSize _ _ | .attach _ _ _ => true
  | _ => false

def holds (s : State) : Option Nat → Bool
  | none => decide (s.creation = .finished)
  | some p => match s.opening p with
    | .handed _ _ => true
    | _ => false

inductive Action
  | create
  | clear (x : Cell)
  | abandon
  | call (p : Nat)
  | openNext (p : Nat)
  | fail (p : Nat)
  | use (who : Option Nat) (a : RingAtomic.Action)
  | consume (who : Option Nat) (readIdx : Nat)

/-- A reader that consumes loads the watermark and stores it; which value it
stores is left open. -/
def step (s : State) : Action → Option State
  | .create => createStep s
  | .clear x => clearStep s x
  | .abandon => abandonStep s
  | .call p => if s.opening p = .outside then some (s.put p (.probe shmCreateRaceRetries)) else none
  | .openNext p => openStep s p
  | .fail p => if (s.opening p).busy then some (s.put p .failed) else none
  | .use who a =>
    if holds s who then (RingAtomic.step s.memory a).map fun m => { s with memory := m } else none
  | .consume who r =>
    if holds s who then some (s.store { s.memory.ring with readIndex := r } s.creation) else none

structure Zeroed (m m' : Ring) : Prop where
  geometry : m'.geometry = m.geometry
  writeIndex : m'.writeIndex = m.writeIndex ∨ m'.writeIndex = 0
  seq : ∀ i, (m'.slots i).seq = (m.slots i).seq ∨ (m'.slots i).seq = some 0
  len : ∀ i, (m'.slots i).len = (m.slots i).len ∨ (m'.slots i).len = 0

theorem Zeroed.of_slots {m m' : Ring} (hg : m'.geometry = m.geometry)
    (hw : m'.writeIndex = m.writeIndex ∨ m'.writeIndex = 0) (hs : m'.slots = m.slots) :
    Zeroed m m' :=
  ⟨hg, hw, fun i => .inl (by rw [hs]), fun i => .inl (by rw [hs])⟩

theorem Zeroed.updateSlot (m : Ring) (s : Nat) {f : Slot → Slot}
    (hseq : ∀ c, (f c).seq = c.seq ∨ (f c).seq = some 0)
    (hlen : ∀ c, (f c).len = c.len ∨ (f c).len = 0) : Zeroed m (updateSlot m s f) := by
  refine ⟨rfl, .inl rfl, fun i => ?_, fun i => ?_⟩ <;>
    simp only [RingBuffer.updateSlot, update_apply] <;> split_ifs with hi
  · subst hi
    exact hseq _
  · exact .inl rfl
  · subst hi
    exact hlen _
  · exact .inl rfl

theorem zero_zeroed (m : Ring) (x : Cell) : Zeroed m (zero m x) := by
  cases x with
  | seq i =>
    exact .updateSlot m i (f := fun c => { c with seq := some 0 }) (fun _ => .inr rfl) fun _ => .inl rfl
  | len i => exact .updateSlot m i (f := fun c => { c with len := 0 }) (fun _ => .inl rfl) fun _ => .inr rfl
  | byte i j =>
    exact .updateSlot m i (f := fun c => { c with data := update c.data j 0 })
      (fun _ => .inl rfl) fun _ => .inl rfl

inductive Moves (s t : State) : Action → Prop
  | use (who : Option Nat) (a : RingAtomic.Action) (hs : RingAtomic.step s.memory a = some t.memory)
      (hc : t.creation = s.creation) : Moves s t (.use who a)
  | consume (who : Option Nat) (r : Nat)
      (hm : t.memory = { s.memory with ring := { s.memory.ring with readIndex := r } })
      (hc : t.creation = s.creation) : Moves s t (.consume who r)
  | zero (a : Action) (hf : s.creation ≠ .finished) (hz : Zeroed s.memory.ring t.memory.ring)
      (hw : t.memory.writes = s.memory.writes) : Moves s t a
  | other (a : Action) (hm : t.memory = s.memory) (hc : t.creation = s.creation) : Moves s t a

variable {s t : State} {p : Nat} {g : Geometry}

theorem moves_of_createStep (h : createStep s = some t) : Moves s t .create := by
  unfold createStep at h
  cases hc : s.creation with
  | allocate | storeCapacity | storeSlotSize | storeReadIndex | storeEpoch =>
    simp only [hc] at h
    cases h
    exact .zero _ (by simp [hc]) (.of_slots rfl (.inl rfl) rfl) rfl
  | storeWriteIndex =>
    simp only [hc] at h
    cases h
    exact .zero _ (by simp [hc]) (.of_slots rfl (.inr rfl) rfl) rfl
  | clear todo =>
    simp only [hc] at h
    split_ifs at h
    cases h
    exact .zero _ (by simp [hc]) (.of_slots rfl (.inl rfl) rfl) rfl
  | finished | abandoned => simp [hc] at h

theorem openStep_memory (h : openStep s p = some t) : t.memory = s.memory ∧ t.creation = s.creation := by
  unfold openStep at h
  split at h <;> cases h
  case h_2 => split <;> exact ⟨rfl, rfl⟩
  case h_6 => split_ifs <;> exact ⟨rfl, rfl⟩
  all_goals exact ⟨rfl, rfl⟩

theorem moves_of_step {a : Action} (h : step s a = some t) : Moves s t a := by
  cases a with
  | create => exact moves_of_createStep h
  | clear x =>
    simp only [step, clearStep] at h
    split at h
    next todo hc =>
      split_ifs at h
      cases h
      exact .zero _ (by simp [hc]) (zero_zeroed _ x) rfl
    next => cases h
  | abandon =>
    simp only [step, abandonStep] at h
    split at h
    next hc =>
      cases h
      exact .zero _ (by simp [hc]) (.of_slots rfl (.inl rfl) rfl) rfl
    next hc =>
      cases h
      exact .zero _ (by simp [hc]) (.of_slots rfl (.inl rfl) rfl) rfl
    next => cases h
  | call | fail =>
    simp only [step] at h
    split_ifs at h
    cases h
    exact .other _ rfl rfl
  | openNext p =>
    obtain ⟨hm, hc⟩ := openStep_memory h
    exact .other _ hm hc
  | use who a =>
    simp only [step] at h
    split_ifs at h
    obtain ⟨m, hm, rfl⟩ := Option.map_eq_some_iff.mp h
    exact .use who a hm rfl
  | consume who r =>
    simp only [step] at h
    split_ifs at h
    cases h
    exact .consume who r rfl rfl

def Agrees (g : Geometry) : Opening → Prop
  | .loadSlotSize _ cap => cap = 0 ∨ cap = g.slotCount
  | .attach _ cap ssz => (cap = 0 ∨ cap = g.slotCount) ∧ (ssz = 0 ∨ ssz = g.slotSize)
  | .handed cap ssz => cap = g.slotCount ∧ ssz = g.slotSize
  | _ => True

structure Header (g : Geometry) (s : State) : Prop where
  geometry : s.memory.ring.geometry = g
  capacity : s.capacity = 0 ∨ s.capacity = g.slotCount
  slotSize : s.slotSize = 0 ∨ s.slotSize = g.slotSize
  opening : ∀ p, Agrees g (s.opening p)

section

variable (h : Header g s)
include h

theorem Header.put (p : Nat) {o : Opening} (ho : Agrees g o) : Header g (s.put p o) := by
  refine ⟨h.geometry, h.capacity, h.slotSize, fun q => ?_⟩
  simp only [State.put, update_apply]
  split_ifs
  · exact ho
  · exact h.opening q

theorem Header.unlink (p : Nat) : Header g (s.unlink p) :=
  have hp : Header g (s.put p .elsewhere) := h.put p trivial
  ⟨hp.geometry, hp.capacity, hp.slotSize, hp.opening⟩

theorem Header.store {m : Ring} (c : Creation) (hm : m.geometry = g) : Header g (s.store m c) :=
  ⟨hm, h.capacity, h.slotSize, h.opening⟩

theorem openStep_header (hs : openStep s p = some t) : Header g t := by
  have hp := h.opening p
  unfold openStep at hs
  split at hs <;> rename_i ho <;> rw [ho] at hp <;> cases hs
  case h_1 => exact h.unlink p
  case h_2 =>
    split_ifs
    · exact h.put p trivial
    · exact h.unlink p
  case h_3 => split_ifs <;> exact h.put p trivial
  case h_4 => exact h.put p h.capacity
  case h_5 => exact h.put p ⟨hp, h.slotSize⟩
  case h_6 =>
    split_ifs with hz
    · exact h.put p trivial
    · obtain ⟨hcap, hssz⟩ := not_or.mp hz
      exact h.put p ⟨hp.1.resolve_left hcap, hp.2.resolve_left hssz⟩
    · exact h.unlink p

theorem createStep_header (hs : createStep s = some t) : Header g t := by
  unfold createStep at hs
  split at hs <;> try cases hs
  case h_2 => exact ⟨h.geometry, .inr (by rw [← h.geometry]), h.slotSize, h.opening⟩
  case h_3 => exact ⟨h.geometry, h.capacity, .inr (by rw [← h.geometry]), h.opening⟩
  case h_7 =>
    split_ifs at hs
    cases hs
    exact ⟨h.geometry, h.capacity, h.slotSize, h.opening⟩
  all_goals exact ⟨h.geometry, h.capacity, h.slotSize, h.opening⟩

end

theorem step_header {a : Action} (h : Header g s) (hs : step s a = some t) : Header g t := by
  cases a with
  | create => exact createStep_header h hs
  | clear x =>
    simp only [step, clearStep] at hs
    split at hs
    next =>
      split_ifs at hs
      cases hs
      exact h.store _ ((zero_zeroed _ x).geometry.trans h.geometry)
    next => cases hs
  | abandon =>
    simp only [step, abandonStep] at hs
    split at hs <;> cases hs <;> exact ⟨h.geometry, h.capacity, h.slotSize, h.opening⟩
  | openNext p => exact openStep_header h hs
  | call p | fail p =>
    simp only [step] at hs
    split_ifs at hs
    cases hs
    exact h.put p trivial
  | use who a =>
    simp only [step] at hs
    split_ifs at hs
    obtain ⟨m, hm, rfl⟩ := Option.map_eq_some_iff.mp hs
    exact ⟨(step_advances hm).geometry.trans h.geometry, h.capacity, h.slotSize, h.opening⟩
  | consume who r =>
    simp only [step] at hs
    split_ifs at hs
    cases hs
    exact h.store _ h.geometry

/-- Whenever a process is handed the ring, the slots it counts on are the creator's. -/
theorem handed_geometry {request : Nat → Nat} (h : Reach step anyStep (start g request) s)
    {cap ssz : Nat} (hp : s.opening p = .handed cap ssz) : cap = g.slotCount ∧ ssz = g.slotSize := by
  have hh : Header g s := h.invariant ⟨rfl, .inl rfl, .inl rfl, fun _ => trivial⟩
    fun _ _ _ hi _ hs => step_header hi hs
  have ha := hh.opening p
  rw [hp] at ha
  exact ha

/-- The ring may be handed out while it is being created. -/
theorem early_opener_handed : ∃ s : State, s.creation = .storeWriteIndex ∧ s.opening 0 = .handed 2 24 ∧
    2 = RingHistory.twoSlots.slotCount ∧ 24 = RingHistory.twoSlots.slotSize := by
  obtain ⟨s, hs, hc, hp⟩ := exists_of_any (show (run step (.replicate 3 .create ++ .call 0 ::
    .replicate 5 (.openNext 0)) (start RingHistory.twoSlots fun _ => 24)).any
      (fun s => decide (s.creation = .storeWriteIndex ∧ s.opening 0 = .handed 2 24)) = true by decide +kernel)
  exact ⟨s, hc, hp, handed_geometry (reach_of_run hs fun _ _ _ => trivial) hp⟩

end RmwAxon.RingCreation
