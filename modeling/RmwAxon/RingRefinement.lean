import RmwAxon.Reservation

namespace RmwAxon.RingRefinement

open Cells RingBuffer LocalPubSub RingAtomic Transition Function Option
open Reservation (BorrowCall stepBorrow)

def soloWrite (x : Ring × WriteCall) (k : Nat) : Option (Ring × WriteCall) := stepWrite x.1 k x.2

def pointRest (m : Ring) (data : Bytes) (w : Nat) : WritePoint → Ring
  | .loadRead => fillSlot (if lagging m w m.readIndex then
      compareExchangeRead m m.readIndex (retainedFrom m w) else m) w data
  | .exchangeRead r => fillSlot (compareExchangeRead m r (retainedFrom m w)) w data
  | .invalidate => fillSlot m w data
  | .clearLen => updateSlot m w fun c => ⟨some w, asU32 data.length, copyIn data c.data⟩
  | .copy todo => updateSlot m w fun c => ⟨some w, asU32 data.length, copyRest data 0 todo c.data⟩
  | .setLen => updateSlot m w fun c => ⟨some w, asU32 data.length, c.data⟩
  | .stamp => storeSeq m w (some w)
  | .returned => m

def writeRest (x : Ring × WriteCall) : Option (Except RingError Nat × Ring) :=
  match x.2 with
  | .idle => none
  | .entered data => some (write x.1 data)
  | .refused _ => some (.error .dataExceedsSlotSize, x.1)
  | .reserved data w p => some (.ok w, pointRest x.1 data w p)

variable {m : Ring} {k : Nat}
variable {data out : Bytes}

theorem movePoint_rest {m' : Ring} {w : Nat} {p p' : WritePoint}
    (h : movePoint m k data w p = some (m', p')) : pointRest m' data w p' = pointRest m data w p := by
  cases p with
  | loadRead =>
    cases h
    simp only [pointRest]
    split_ifs <;> rfl
  | exchangeRead | stamp =>
    cases h
    rfl
  | invalidate =>
    cases h
    simp only [pointRest, storeSeq, updateSlot_updateSlot, fillSlot_eq]
  | clearLen =>
    cases h
    simp only [pointRest, storeLen, updateSlot_updateSlot, copyRest_range]
  | copy todo =>
    simp only [movePoint] at h
    split_ifs at h with hnil hk
    · cases h
      simp only [pointRest, hnil, copyRest_nil]
    · cases h
      simp only [pointRest, storeByte, updateSlot_updateSlot, copyRest_erase hk]
  | setLen =>
    cases h
    simp only [pointRest, storeLen, storeSeq, updateSlot_updateSlot]
  | returned => cases h

theorem soloWrite_rest {x y : Ring × WriteCall} (h : soloWrite x k = some y) : writeRest y = writeRest x := by
  obtain ⟨m, call⟩ := x
  cases call with
  | idle | refused => cases h
  | entered data =>
    simp only [soloWrite, stepWrite] at h
    split_ifs at h with hbig
    · cases h
      simp only [writeRest, RingHistory.write_refused hbig]
    · cases h
      simp only [writeRest, write, hbig, if_false]
      rfl
  | reserved data w p =>
    obtain ⟨⟨m', p'⟩, hm, rfl⟩ := map_eq_some_iff.mp h
    simp only [writeRest, movePoint_rest hm]

def writeResult (x : Ring × WriteCall) : Option (Except RingError Nat × Ring) :=
  match x.2 with
  | .refused _ => some (.error .dataExceedsSlotSize, x.1)
  | .reserved _ w .returned => some (.ok w, x.1)
  | _ => none

theorem writeResult_rest {x : Ring × WriteCall} {r : Except RingError Nat × Ring}
    (h : writeResult x = some r) : writeRest x = some r := by
  unfold writeResult at h
  split at h <;> simp_all [writeRest, pointRest]

theorem soloWrite_ends (m : Ring) (data : Bytes) : Ends soloWrite writeResult (m, .entered data) := by
  by_cases hbig : payloadCapacity m < data.length
  · exact .next 0 (if_pos hbig) ⟨_, .refl, rfl⟩
  have hcopy (m : Ring) (w : Nat) (todo : List Nat) :
      Ends soloWrite writeResult (m, .reserved data w (.copy todo)) := by
    induction todo generalizing m with
    | nil => exact .next 0 rfl (.next 0 rfl (.next 0 rfl ⟨_, .refl, rfl⟩))
    | cons i is ih => exact .next i (by simp [soloWrite, stepWrite, movePoint]; rfl) (ih _)
  refine .next 0 (if_neg hbig) (.next 0 rfl ?_)
  split_ifs
  · exact .next 0 rfl (.next 0 rfl (.next 0 rfl (hcopy ..)))
  · exact .next 0 rfl (.next 0 rfl (hcopy ..))

/-- The steps of an uninterrupted write compute the whole operation, in
whatever order the bytes are moved. -/
theorem solo_write_computes (m : Ring) (data : Bytes) :
    Computes soloWrite writeResult (m, .entered data) (write m data) :=
  (soloWrite_ends m data).computes soloWrite_rest writeResult_rest rfl

def afterCopy (m : Ring) (s n : Nat) (out : Bytes) : Except RingError Nat × Bytes :=
  if (slotAt m s).seq ≠ some s then (.error .slotOverwritten, out) else (.ok n, out)

def afterSeq (m : Ring) (s : Nat) (out : Bytes) : Except RingError Nat × Bytes :=
  let n := (slotAt m s).len
  if n = 0 then (.error .slotNotYetWritten, out)
  else if out.length < n then (.error .bufferTooSmall, out)
  else afterCopy m s n (copyOut (slice (slotAt m s).data n) out)

def readRest (m : Ring) : ReadCall → Option (Except RingError Nat × Bytes)
  | .idle => none
  | .running s out .loadWrite => some (readSlot m s out)
  | .running s out .loadSeq =>
    some (if (slotAt m s).seq ≠ some s then (.error .slotNotYetWritten, out)
      else afterSeq m s out)
  | .running s out .loadLen => some (afterSeq m s out)
  | .running s out (.copy n todo) => some (afterCopy m s n (copyOutRest (slotAt m s).data todo out))
  | .running s out (.recheck n) => some (afterCopy m s n out)
  | .returned _ out r => some (r, out)

theorem stepRead_rest {call call' : ReadCall} (h : stepRead m k call = some call') :
    readRest m call' = readRest m call := by
  cases call with
  | idle | returned => cases h
  | running s out p =>
    cases p with
    | loadWrite =>
      cases h
      simp only [readRest, readSlot]
      split_ifs <;> simp_all [afterSeq, afterCopy]
    | loadSeq =>
      cases h
      simp only [readRest]
      split_ifs <;> rfl
    | loadLen =>
      cases h
      simp only [readRest, afterSeq]
      split_ifs with hzero hsmall
      · rfl
      · rfl
      · simp only [copyOutRest_range (Nat.not_lt.mp hsmall)]
    | copy n todo =>
      simp only [stepRead] at h
      split_ifs at h with hnil hk
      · cases h
        simp only [readRest, hnil, copyOutRest_nil]
      · cases h
        simp only [readRest, copyOutRest_erase hk]
    | recheck n =>
      cases h
      simp only [readRest, afterCopy]
      split_ifs <;> rfl

def soloRead (m : Ring) (call : ReadCall) (k : Nat) : Option ReadCall := stepRead m k call

def readResult : ReadCall → Option (Except RingError Nat × Bytes)
  | .returned _ out r => some (r, out)
  | _ => none

theorem readResult_rest {call : ReadCall} {r : Except RingError Nat × Bytes}
    (h : readResult call = some r) : readRest m call = some r := by
  unfold readResult at h
  split at h
  · exact h
  · cases h

theorem soloRead_ends (m : Ring) (s : Nat) (out : Bytes) :
    Ends (soloRead m) readResult (.running s out .loadWrite) := by
  have hcopy (n : Nat) (out : Bytes) (todo : List Nat) :
      Ends (soloRead m) readResult (.running s out (.copy n todo)) := by
    induction todo generalizing out with
    | nil =>
      refine .next 0 rfl (.next 0 rfl ?_)
      split_ifs <;> exact ⟨_, .refl, rfl⟩
    | cons i is ih => exact .next i (by simp [soloRead, stepRead]; rfl) (ih _)
  refine .next 0 rfl ?_
  split_ifs <;> try exact ⟨_, .refl, rfl⟩
  refine .next 0 rfl ?_
  split_ifs <;> try exact ⟨_, .refl, rfl⟩
  refine .next 0 rfl ?_
  split_ifs <;> try exact ⟨_, .refl, rfl⟩
  exact hcopy ..

/-- A read that no write interrupts returns what the whole operation returns. -/
theorem solo_read_computes (m : Ring) (s : Nat) (out : Bytes) :
    Computes (soloRead m) readResult (.running s out .loadWrite) (readSlot m s out) :=
  (soloRead_ends m s out).computes stepRead_rest readResult_rest rfl

def soloBorrow (x : Ring × Loans × BorrowCall) (_ : Unit) : Option (Ring × Loans × BorrowCall) :=
  stepBorrow x.1 x.2.1 x.2.2

def borrowRest (x : Ring × Loans × BorrowCall) : Option (Nat × Nat) × Ring × Loans :=
  let (m, loans, call) := x
  match call with
  | .entered n => borrowBuffer m loans n
  | .refused | .rolledBack => (none, m, loans)
  | .reserved n w p =>
    match p with
    | .loadRead => if full m w m.readIndex then (none, unreserve m, loans)
        else (some (dataPtr m w, n), storeLen (storeSeq m w none) w 0,
          update loans (dataPtr m w) (some w))
    | .rollBack => (none, unreserve m, loans)
    | .invalidate => (some (dataPtr m w, n), storeLen (storeSeq m w none) w 0,
        update loans (dataPtr m w) (some w))
    | .clearLen => (some (dataPtr m w, n), storeLen m w 0,
        update loans (dataPtr m w) (some w))
    | .register => (some (dataPtr m w, n), m, update loans (dataPtr m w) (some w))
    | .returned => (some (dataPtr m w, n), m, loans)

theorem soloBorrow_rest {x y : Ring × Loans × BorrowCall} {u : Unit} (h : soloBorrow x u = some y) :
    borrowRest y = borrowRest x := by
  obtain ⟨m, loans, call⟩ := x
  cases call with
  | refused | rolledBack => cases h
  | entered n =>
    simp only [soloBorrow, stepBorrow] at h
    split_ifs at h with hbig
    · cases h
      simp [borrowRest, borrowBuffer, hbig]
    · cases h
      simp only [borrowRest, borrowBuffer, hbig, if_false]
  | reserved n w p =>
    cases p with
    | loadRead =>
      cases h
      simp only [borrowRest]
      split_ifs <;> rfl
    | rollBack | invalidate | clearLen | register =>
      cases h
      rfl
    | returned => cases h

def borrowResult (x : Ring × Loans × BorrowCall) : Option (Option (Nat × Nat) × Ring × Loans) :=
  match x.2.2 with
  | .refused | .rolledBack => some (none, x.1, x.2.1)
  | .reserved n w .returned => some (some (dataPtr x.1 w, n), x.1, x.2.1)
  | _ => none

theorem borrowResult_rest {x : Ring × Loans × BorrowCall} {r : Option (Nat × Nat) × Ring × Loans}
    (h : borrowResult x = some r) : some (borrowRest x) = some r := by
  unfold borrowResult at h
  split at h <;> simp_all [borrowRest]

/-- The steps of an uninterrupted borrow_buffer compute the whole operation. -/
theorem solo_borrow_computes (m : Ring) (loans : Loans) (n : Nat) :
    Computes soloBorrow borrowResult (m, loans, .entered n) (borrowBuffer m loans n) := by
  have hends : Ends soloBorrow borrowResult (m, loans, .entered n) := by
    by_cases hbig : payloadCapacity m < n
    · exact .next () (if_pos hbig) ⟨_, .refl, rfl⟩
    refine .next () (if_neg hbig) (.next () rfl ?_)
    split_ifs
    · exact .next () rfl ⟨_, .refl, rfl⟩
    · exact .next () rfl (.next () rfl (.next () rfl ⟨_, .refl, rfl⟩))
  exact hends.computes (congrArg some <| soloBorrow_rest ·) borrowResult_rest rfl

end RmwAxon.RingRefinement
