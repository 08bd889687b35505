import RmwAxon.LocalPubSub
import RmwAxon.RingHistory
import RmwAxon.Transition

namespace RmwAxon.Loan

open Cells RingBuffer RingHistory LocalPubSub Transition Function Option

/-- A ring with the loan table of each handle. The map of published payloads
records, for each number whose write or commit succeeded, the bytes it published. -/
structure State where
  ring : Ring
  loans : Nat → Loans
  published : History

def start (g : Geometry) : State := ⟨create g, fun _ _ => none, fun _ => none⟩

inductive Op
  | write (data : Bytes)
  | borrow (handle maxSize : Nat)
  | store (handle ptr : Nat) (data : Bytes)
  | commit (handle ptr size : Nat)
  | read (s : Nat) (out : Bytes)
  | readWithoutConsuming (s : Nat) (out : Bytes)

def publishWrite (st : State) (data : Bytes) : History :=
  match (write st.ring data).1 with
  | .ok s => update st.published s (some data)
  | .error _ => st.published

def publishCommit (st : State) (handle ptr size : Nat) : History :=
  match (commitBuffer st.ring (st.loans handle) ptr size).1, st.loans handle ptr with
  | true, some s => update st.published s
      (some (slice (slotAt st.ring (slotOfPtr st.ring ptr)).data size))
  | _, _ => st.published

def apply (st : State) : Op → State
  | .write data => ⟨(write st.ring data).2, st.loans, publishWrite st data⟩
  | .borrow handle n =>
    let r := borrowBuffer st.ring (st.loans handle) n
    ⟨r.2.1, update st.loans handle r.2.2, st.published⟩
  | .store _ ptr data => { st with ring := storeLoan st.ring ptr data }
  | .commit handle ptr size =>
    let r := commitBuffer st.ring (st.loans handle) ptr size
    ⟨r.2.1, update st.loans handle r.2.2, publishCommit st handle ptr size⟩
  | .read s out => { st with ring := (read st.ring s out).2.2 }
  | .readWithoutConsuming _ _ => st

def step (st : State) (op : Op) : Option State := some (apply st op)

def Intact (st : State) : Prop :=
  ∀ s data, st.published s = some data → st.ring.writeIndex ≤ s + slotCount st.ring →
    ∀ out : Bytes, data.length ≤ out.length →
      readSlot st.ring s out = (.ok data.length, copyOut data out)

/-- What a caller owes the ring: payloads are not empty, and the bytes stored
through a lent pointer fit its slot while the loan is outstanding. -/
def proper (st : State) : Op → Prop
  | .write data => data ≠ []
  | .store handle ptr data => data.length ≤ payloadCapacity st.ring ∧ st.loans handle ptr ≠ none
  | .commit _ _ size => 0 < size
  | _ => True

/-- A loan is written through and committed only while its number belongs to
the last turn of the ring. -/
def timely (st : State) : Op → Prop
  | .store handle ptr _ | .commit handle ptr _ => ∀ s, st.loans handle ptr = some s →
      st.ring.writeIndex ≤ s + slotCount st.ring
  | _ => True

def lent (st : State) : Op → Prop
  | .store handle ptr _ => st.loans handle ptr ≠ none
  | _ => True

def Stamped (m : Ring) (published : History) : Prop :=
  ∀ i v, (m.slots i).seq = some v → (m.slots i).len ≠ 0 → published v ≠ none

structure Inv (st : State) : Prop where
  tracks : Tracks st.ring st.published
  stamped : Stamped st.ring st.published
  pending : ∀ handle ptr s, st.loans handle ptr = some s →
    s < st.ring.writeIndex ∧ st.published s = none ∧ ptr = dataPtr st.ring s
  unique : ∀ handle handle' ptr ptr' s, st.loans handle ptr = some s →
    st.loans handle' ptr' = some s → handle = handle' ∧ ptr = ptr'

theorem borrowBuffer_cases (m : Ring) (loans : Loans) (n : Nat) : borrowBuffer m loans n = (none, m, loans) ∨
    borrowBuffer m loans n = (some (dataPtr m m.writeIndex, n),
      updateSlot (reserve m) m.writeIndex (fun c => { c with seq := none, len := 0 }),
      update loans (dataPtr m m.writeIndex) (some m.writeIndex)) := by
  unfold borrowBuffer
  split_ifs with hn
  · exact .inl rfl
  simp only
  split_ifs with hfull
  · exact .inl rfl
  · right
    simp only [storeLen, storeSeq, updateSlot_updateSlot]
    rfl

theorem commitBuffer_cases (m : Ring) (loans : Loans) (ptr size : Nat) :
    commitBuffer m loans ptr size = (false, m, loans) ∨
    ∃ s, loans ptr = some s ∧ size ≤ payloadCapacity m ∧ commitBuffer m loans ptr size = (true,
        updateSlot m (slotOfPtr m ptr) (fun c => { c with seq := some s, len := asU32 size }),
        update loans ptr none) := by
  unfold commitBuffer
  split_ifs with hbad
  · exact .inl rfl
  push Not at hbad
  cases hl : loans ptr with
  | none => exact .inl rfl
  | some s =>
    refine .inr ⟨s, rfl, hbad.2, ?_⟩
    simp only [storeLen, storeSeq, updateSlot_updateSlot]

variable {m : Ring} {published : History} {s handle ptr : Nat} {st : State} {op : Op}

theorem tracks_updateSlot (h : Tracks m published) {t : Nat} (hnew : published s = none)
    (hs : s < m.writeIndex) (hw : m.writeIndex ≤ s + slotCount m)
    (ht : slotIndex m t = slotIndex m s) (f : Slot → Slot) : Tracks (updateSlot m t f) published := by
  refine ⟨h.below, h.fits, fun v data hv hvw => ?_⟩
  rw [slotAt_updateSlot_of_ne]
  · exact h.held v data hv hvw
  intro he
  have hvs : v = s := eq_of_mod_eq (he.trans ht) (h.below v data hv) hs hvw hw
  subst hvs
  rw [hnew] at hv
  cases hv

theorem stamped_updateSlot {published' : History} (h : Stamped m published) (s : Nat) (f : Slot → Slot)
    (hnew : ∀ v, (f (slotAt m s)).seq = some v → (f (slotAt m s)).len ≠ 0 → published' v ≠ none)
    (hkeep : ∀ v, published v ≠ none → published' v ≠ none) :
    Stamped (updateSlot m s f) published' := by
  intro i v hseq hlen
  simp only [updateSlot, update_apply] at hseq hlen
  split_ifs at hseq hlen with hi
  · exact hnew v hseq hlen
  · exact hkeep v (h i v hseq hlen)

theorem stamped_publish (h : Stamped m published) (s v : Nat) (data : Bytes) {f : Slot → Slot}
    (hf : (f (slotAt m s)).seq = some v) :
    Stamped (updateSlot m s f) (update published v (some data)) := by
  refine stamped_updateSlot h s f ?_ ?_
  · intro u hu _
    rw [hf] at hu
    cases hu
    simp
  · intro u hu
    rw [update_apply]
    split_ifs
    · simp
    · exact hu

theorem update_loans {loans : Nat → Loans} {h p : Nat} {v : Option Nat}
    (hl : update loans handle (update (loans handle) ptr v) h p = some s) :
    (h = handle ∧ p = ptr ∧ v = some s) ∨ ((h ≠ handle ∨ p ≠ ptr) ∧ loans h p = some s) := by
  by_cases hh : h = handle
  · subst hh
    rw [update_self] at hl
    by_cases hp : p = ptr
    · subst hp
      rw [update_self] at hl
      exact .inl ⟨rfl, rfl, hl⟩
    · rw [update_of_ne hp] at hl
      exact .inr ⟨.inr hp, hl⟩
  · rw [update_of_ne hh] at hl
    exact .inr ⟨.inl hh, hl⟩

theorem write_inv (h : Inv st) (data : Bytes) : Inv (apply st (.write data)) := by
  rcases Nat.lt_or_ge (payloadCapacity st.ring) data.length with hbig | hfit
  · simpa [apply, publishWrite, write_refused hbig] using h
  obtain ⟨r, hr⟩ := write_accepted hfit
  simp only [apply, publishWrite, hr]
  refine ⟨publish_tracks h.tracks hfit r, ?_, ?_, h.unique⟩
  · have hst := stamped_publish (m := { st.ring with
        writeIndex := st.ring.writeIndex + 1, readIndex := r }) h.stamped st.ring.writeIndex
      st.ring.writeIndex data
      (f := fun c => ⟨some st.ring.writeIndex, asU32 data.length, copyIn data c.data⟩) rfl
    rw [fillSlot_eq]
    exact hst
  · intro handle ptr s hl
    obtain ⟨hs, hp, hptr⟩ := h.pending handle ptr s hl
    refine ⟨by simp only [fillSlot_writeIndex]; omega, ?_, ?_⟩
    · exact (update_of_ne hs.ne ..).trans hp
    · simpa only [dataPtr, slotIndex, slotCount, fillSlot_geometry] using hptr

theorem borrow_inv (h : Inv st) (handle n : Nat) : Inv (apply st (.borrow handle n)) := by
  rcases borrowBuffer_cases st.ring (st.loans handle) n with he | he
  · simpa [apply, he] using h
  simp only [apply, he]
  refine ⟨⟨?_, h.tracks.fits, ?_⟩, ?_, ?_, ?_⟩
  · intro s data hs
    exact Nat.lt_succ_of_lt (h.tracks.below s data hs)
  · intro s data hs hw
    have hb := h.tracks.below s data hs
    have hw' : st.ring.writeIndex + 1 ≤ s + slotCount st.ring := hw
    rw [slotAt_updateSlot_of_ne]
    · exact h.tracks.held s data hs (by omega)
    intro hi
    have := add_le_of_mod_eq hi hb
    simp only [slotCount, reserve] at this hw'
    omega
  · have hst := stamped_updateSlot (m := reserve st.ring) h.stamped st.ring.writeIndex
      (fun c => { c with seq := none, len := 0 }) (by simp) fun _ hv => hv
    exact hst
  · intro k p s hl
    rcases update_loans hl with ⟨_, rfl, hs⟩ | ⟨_, hl⟩
    · cases hs
      refine ⟨Nat.lt_succ_self _, ?_, rfl⟩
      by_contra hne
      obtain ⟨data, hd⟩ := ne_none_iff_exists'.mp hne
      exact absurd (h.tracks.below _ _ hd) (lt_irrefl _)
    · obtain ⟨hs, hp, hptr⟩ := h.pending k p s hl
      exact ⟨Nat.lt_succ_of_lt hs, hp, hptr⟩
  · intro k k' p p' s hl hl'
    rcases update_loans hl with ⟨rfl, rfl, hs⟩ | ⟨_, hx⟩ <;>
      rcases update_loans hl' with ⟨rfl, rfl, hs'⟩ | ⟨_, hy⟩
    · exact ⟨rfl, rfl⟩
    · cases hs
      exact absurd (h.pending _ _ _ hy).1 (lt_irrefl _)
    · cases hs'
      exact absurd (h.pending _ _ _ hx).1 (lt_irrefl _)
    · exact h.unique _ _ _ _ _ hx hy

theorem index_of_loan (h : Inv st) (hl : st.loans handle ptr = some s) :
    slotIndex st.ring (slotOfPtr st.ring ptr) = slotIndex st.ring s := by
  rw [(h.pending handle ptr s hl).2.2, slotOfPtr_dataPtr, slotIndex_slotIndex]

theorem store_inv (h : Inv st) (data : Bytes) (hl : st.loans handle ptr = some s)
    (hw : st.ring.writeIndex ≤ s + slotCount st.ring) :
    Inv (apply st (.store handle ptr data)) := by
  obtain ⟨hs, hp, _⟩ := h.pending handle ptr s hl
  have hi := index_of_loan h hl
  have ht := tracks_updateSlot h.tracks hp hs hw hi fun c => { c with data := copyIn data c.data }
  have hst := stamped_updateSlot h.stamped (slotOfPtr st.ring ptr)
    (fun c => { c with data := copyIn data c.data }) (h.stamped _) fun _ hv => hv
  exact ⟨ht, hst, h.pending, h.unique⟩

theorem commit_inv (h : Inv st) {size : Nat}
    (hok : ∀ s, st.loans handle ptr = some s → st.ring.writeIndex ≤ s + slotCount st.ring) :
    Inv (apply st (.commit handle ptr size)) := by
  rcases commitBuffer_cases st.ring (st.loans handle) ptr size with he | ⟨s, hl, hfit, he⟩
  · simpa [apply, publishCommit, he] using h
  have hw := hok s hl
  obtain ⟨hs, hp, _⟩ := h.pending handle ptr s hl
  have hi := index_of_loan h hl
  have ht := tracks_updateSlot h.tracks hp hs hw hi (fun c => { c with seq := some s, len := asU32 size })
  simp only [apply, publishCommit, he, hl]
  refine ⟨⟨?_, ?_, ?_⟩, ?_, ?_, ?_⟩
  · intro v data hv
    rcases publish_cases hv with ⟨rfl, _⟩ | ⟨_, hv⟩
    · exact hs
    · exact ht.below v data hv
  · intro v data hv
    rcases publish_cases hv with ⟨_, rfl⟩ | ⟨_, hv⟩
    · simpa [slice_length] using hfit
    · exact ht.fits v data hv
  · intro v data hv hvw
    rcases publish_cases hv with ⟨rfl, rfl⟩ | ⟨_, hv⟩
    · simp only [slotAt_updateSlot, hi, if_true]
      exact ⟨rfl, by simpa [slice_length] using asU32_of_le hfit, by rw [slice_length]⟩
    · exact ht.held v data hv hvw
  · have hst := stamped_publish h.stamped (slotOfPtr st.ring ptr) s
      (slice (slotAt st.ring (slotOfPtr st.ring ptr)).data size)
      (f := fun c => { c with seq := some s, len := asU32 size }) rfl
    exact hst
  · intro k p v hv
    rcases update_loans hv with ⟨_, _, hn⟩ | ⟨hne, hx⟩
    · cases hn
    obtain ⟨hvs, hvp, hvptr⟩ := h.pending k p v hx
    have hvne : v ≠ s := by
      rintro rfl
      obtain ⟨hk, hpp⟩ := h.unique _ _ _ _ _ hx hl
      rcases hne with hne | hne
      · exact hne hk
      · exact hne hpp
    exact ⟨hvs, (update_of_ne hvne ..).trans hvp, hvptr⟩
  · intro k k' p p' v hv hv'
    rcases update_loans hv with ⟨_, _, hn⟩ | ⟨_, hx⟩
    · cases hn
    · rcases update_loans hv' with ⟨_, _, hn⟩ | ⟨_, hy⟩
      · cases hn
      · exact h.unique _ _ _ _ _ hx hy

theorem inv_of_slots (h : Inv st) (hm : SameSlots m st.ring) : Inv { st with ring := m } := by
  refine ⟨tracks_of_slots h.tracks hm, ?_, ?_, h.unique⟩
  · simpa only [Stamped, hm.slots] using h.stamped
  · simpa only [hm.writeIndex, dataPtr, slotIndex, slotCount, hm.geometry] using h.pending

theorem apply_inv (h : Inv st) (hlent : lent st op) (htime : timely st op) : Inv (apply st op) := by
  cases op with
  | write data => exact write_inv h data
  | borrow handle n => exact borrow_inv h handle n
  | store handle ptr data =>
    obtain ⟨s, hl⟩ := ne_none_iff_exists'.mp hlent
    exact store_inv h data hl (htime s hl)
  | commit handle ptr size => exact commit_inv h htime
  | read s out => exact inv_of_slots h (read_frame st.ring s out)
  | readWithoutConsuming s out => exact h

theorem start_inv (g : Geometry) : Inv (start g) := by
  refine ⟨⟨?_, ?_, ?_⟩, ?_, ?_, ?_⟩ <;> simp [start, Stamped, create]

/-- What a read returns for a number is what was published under it. -/
theorem inv_shows (h : Inv st) {n : Nat} {out : Bytes} (hn : (readSlot st.ring s out).1 = .ok n) :
    ∃ data, st.published s = some data ∧ n = data.length ∧ (readSlot st.ring s out).2.take n = data := by
  have hread := hn
  simp only [readSlot] at hread
  split_ifs at hread with _ _ hseq hlen
  obtain ⟨data, hd⟩ := ne_none_iff_exists'.mp (h.stamped _ s (not_not.mp hseq) hlen)
  exact ⟨data, hd, readSlot_published h.tracks hd hn⟩

def Filled (st : State) : Prop := ∀ s, st.published s ≠ some []

theorem apply_filled (h : Filled st) (hop : proper st op) : Filled (apply st op) := by
  cases op with
  | write data =>
    rcases Nat.lt_or_ge (payloadCapacity st.ring) data.length with hbig | hfit
    · simpa [apply, publishWrite, write_refused hbig] using h
    obtain ⟨r, hr⟩ := write_accepted hfit
    intro s hs
    simp only [apply, publishWrite, hr] at hs
    rcases publish_cases hs with ⟨_, he⟩ | ⟨_, hs⟩
    · exact hop he.symm
    · exact h s hs
  | commit handle ptr size =>
    rcases commitBuffer_cases st.ring (st.loans handle) ptr size with he | ⟨v, hl, _, he⟩
    · simpa [apply, publishCommit, he] using h
    intro s hs
    simp only [apply, publishCommit, he, hl] at hs
    rcases publish_cases hs with ⟨_, hnil⟩ | ⟨_, hs⟩
    · have hlen := congrArg List.length hnil
      rw [slice_length] at hlen
      exact hop.ne hlen
    · exact h s hs
  | borrow | store | read | readWithoutConsuming => exact h

theorem inv_intact (h : Inv st) (hf : Filled st) : Intact st := by
  intro s data hs hw out hout
  have hne : data ≠ [] := by
    rintro rfl
    exact hf s hs
  rw [readSlot_of_holds (h.tracks.held s data hs hw) (h.tracks.below s data hs) hw, readMessage_ok hne hout]

/-- In every run whose loans are written and committed in time, what was
published within the last turn stays readable as it was published. -/
theorem timely_intact (g : Geometry) {st : State}
    (h : Reach step (fun s op => proper s op ∧ timely s op) (start g) st) : Intact st := by
  have hinv : Inv st ∧ Filled st := by
    refine h.invariant (I := fun st => Inv st ∧ Filled st) ⟨start_inv g, by simp [Filled, start]⟩ ?_
    intro s op t hi hop hs
    cases hs
    exact ⟨apply_inv hi.1 (by cases op <;> first | exact hop.1.2 | trivial) hop.2, apply_filled hi.2 hop.1⟩
  exact inv_intact hinv.1 hinv.2

/-- Number 0 is lent and held while numbers 1 and 2 are written; its commit
then stamps the slot that number 2 occupies. -/
def lateCommit : List Op :=
  [.borrow 0 1, .write [11], .write [12], .commit 0 slotDataOffset 1]

theorem late_commit_hides_newest :
    ¬ ∀ g st, Reach step proper (start g) st → Intact st := by
  intro hall
  have hrun : (run step lateCommit (start twoSlots)).map
      (fun st => (st.ring.writeIndex, slotCount st.ring, st.published 2, (readSlot st.ring 2 [0]).1)) =
      some (3, 2, some [12], .error .slotNotYetWritten) := by decide +kernel
  obtain ⟨st, hst, hobs⟩ := map_eq_some_iff.mp hrun
  simp only [Prod.mk.injEq] at hobs
  obtain ⟨hw, hn, hpub, hread⟩ := hobs
  have hreach : Reach step proper (start twoSlots) st :=
    reach_of_run hst (by simp [lateCommit, proper])
  rw [hall twoSlots st hreach 2 [12] hpub (by omega) [0] le_rfl] at hread
  cases hread

/-- Number 0 is lent and committed, then number 1 is written. -/
theorem timely_commit_kept :
    ∃ st, st.published 0 = some [0] ∧ st.published 1 = some [11] ∧ st.ring.writeIndex = 2 ∧
      Intact st := by
  have hborrow : Reach step (fun s op => proper s op ∧ timely s op) (start twoSlots)
      (apply (start twoSlots) (.borrow 0 1)) := .tail (.borrow 0 1) .refl ⟨trivial, trivial⟩ rfl
  have hcommit : Reach step (fun s op => proper s op ∧ timely s op) (start twoSlots)
      (apply (apply (start twoSlots) (.borrow 0 1)) (.commit 0 slotDataOffset 1)) := by
    refine .tail (.commit 0 slotDataOffset 1) hborrow ⟨Nat.one_pos, fun s _ => ?_⟩ rfl
    exact (by decide : 1 ≤ 2).trans (Nat.le_add_left 2 s)
  exact ⟨_, by decide +kernel, by decide +kernel, by decide +kernel,
    timely_intact twoSlots (.tail (.write [11]) hcommit ⟨by simp [proper], trivial⟩ rfl)⟩

end RmwAxon.Loan
