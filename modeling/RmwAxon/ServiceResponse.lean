import RmwAxon.ServiceEnvelope
import RmwAxon.WriterRace
import Mathlib.Order.Bounds.Basic

namespace RmwAxon.ServiceResponse

open Cells RingBuffer RingHistory ServiceEnvelope Function List
open AclSession (Gid encodeServiceEnvelope responseData)

inductive ServiceResponseTake
  | taken (size nextSeq : Nat) (requestSequence : Int)
  | bufferTooSmall (required : Nat)
  | noMatch (nextSeq : Nat)
  deriving DecidableEq, Repr

/-- A client without an identifier takes what is not in an envelope. -/
def legacyClient (gid : Gid) : Bool := gid.toList.all (· = 0)

def offer (gid : Gid) (s : Nat) (data out : Bytes) : Option (ServiceResponseTake × Bytes) :=
  match decodeServiceEnvelope data with
  | some (header, payload) =>
    if header.kind = 2 ∧ header.clientGid = gid then
      if out.length < payload.length then some (.bufferTooSmall payload.length, out)
      else some (.taken payload.length (s + 1) header.requestSequence, copyOut payload out)
    else none
  | none =>
    if legacyClient gid then
      if out.length < data.length then some (.bufferTooSmall data.length, out)
      else some (.taken data.length (s + 1) (asI64 s), copyOut data out)
    else none

def scan (m : Ring) (gid : Gid) (out : Bytes) : Nat → Nat → ServiceResponseTake × Bytes
  | 0, _ => (.noMatch (currentSeq m), out)
  | left + 1, s =>
    match slotDataSize m s with
    | .error .slotNotYetWritten => (.noMatch s, out)
    | .error _ => scan m gid out left (s + 1)
    | .ok size =>
      if size = 0 then scan m gid out left (s + 1)
      else
        match readWithoutConsuming m s (List.replicate size 0) with
        | (.error .slotNotYetWritten, _) => (.noMatch s, out)
        | (.error _, _) => scan m gid out left (s + 1)
        | (.ok n, buf) => (offer gid s (buf.take n) out).getD (scan m gid out left (s + 1))

def takeResponseForClient (sub : Option Ring) (seq : Nat) (gid : Gid) (out : Bytes) :
    Except String (ServiceResponseTake × Bytes × Ring) :=
  match sub with
  | none => .error "service response sub not available"
  | some m =>
    let start := max seq (oldestAvailableSeq m)
    let r := scan m gid out (currentSeq m - start) start
    .ok (r.1, r.2, m)

structure Response where
  clientGid : Gid
  requestSequence : Int
  payload : Bytes
  known : clientGid.toList.any (· ≠ 0) = true
  lower : -2 ^ 63 ≤ requestSequence
  upper : requestSequence < 2 ^ 63

def Response.frame (r : Response) : Bytes := responseData r.clientGid r.requestSequence r.payload

def Retained (m : Ring) (s : Nat) : Prop := s < m.writeIndex ∧ m.writeIndex ≤ s + slotCount m

structure ResponseRing (m : Ring) (responses : Nat → Option Response) : Prop where
  held : ∀ s r, responses s = some r → Retained m s → Holds (slotAt m s) s r.frame
  incomplete : ∀ s, responses s = none → Retained m s →
    (slotAt m s).seq ≠ some s ∨ (slotAt m s).len = 0

theorem Response.frame_eq (r : Response) :
    r.frame = encodeServiceEnvelope 2 r.clientGid r.requestSequence r.payload := by
  rw [frame, responseData, if_pos r.known]

theorem Response.decode_frame (r : Response) :
    decodeServiceEnvelope r.frame = some (⟨2, r.clientGid, r.requestSequence⟩, r.payload) := by
  rw [r.frame_eq, decode_encode 2 r.clientGid r.lower r.upper]

theorem Response.frame_ne_nil (r : Response) : r.frame ≠ [] := by
  rw [r.frame_eq]
  exact encode_ne_nil 2 r.clientGid r.requestSequence r.payload

def answer (s : Nat) (r : Response) (out : Bytes) : ServiceResponseTake × Bytes :=
  if r.payload.length ≤ out.length then
    (.taken r.payload.length (s + 1) r.requestSequence, copyOut r.payload out)
  else (.bufferTooSmall r.payload.length, out)

theorem offer_frame (r : Response) (gid : Gid) (s : Nat) (out : Bytes) :
    offer gid s r.frame out = if r.clientGid = gid then some (answer s r out) else none := by
  rw [offer, r.decode_frame]
  by_cases hgid : r.clientGid = gid
  · by_cases hfit : r.payload.length ≤ out.length
    · simp [hgid, answer, hfit, Nat.not_lt.mpr hfit]
    · simp [hgid, answer, hfit, Nat.not_le.mp hfit]
  · simp [hgid]

section Scan

variable {m : Ring} {responses : Nat → Option Response} {gid : Gid} {s left : Nat} {out : Bytes}

theorem scan_held (hw : Retained m s) {r : Response} (h : Holds (slotAt m s) s r.frame) :
    scan m gid out (left + 1) s =
      if r.clientGid = gid then answer s r out else scan m gid out left (s + 1) := by
  have hsize : slotDataSize m s = .ok r.frame.length := by
    rw [slotDataSize_of_holds h hw.1 hw.2, if_neg r.frame_ne_nil]
  have hread : readWithoutConsuming m s (replicate r.frame.length 0) = (.ok r.frame.length, r.frame) := by
    rw [readWithoutConsuming, readSlot_whole h hw.1 hw.2 r.frame_ne_nil]
  rw [scan, hsize]
  simp only [hread, take_length, offer_frame, length_eq_zero_iff, r.frame_ne_nil, if_false]
  split_ifs <;> rfl

/-- The scan comes to the first number that has not been completed or whose
response is to the client. -/
theorem scan_spec (h : ResponseRing m responses) (hleft : s + left = m.writeIndex)
    (hold : m.writeIndex ≤ s + slotCount m) :
    (∃ t, IsLeast {t | s ≤ t ∧ t < m.writeIndex ∧ ∀ r ∈ responses t, r.clientGid = gid} t ∧
        scan m gid out left s = (responses t).elim (.noMatch t, out) fun r => answer t r out) ∨
      (∀ t, s ≤ t → t < m.writeIndex → ∃ r ∈ responses t, r.clientGid ≠ gid) ∧
        scan m gid out left s = (.noMatch m.writeIndex, out) := by
  induction left generalizing s with
  | zero =>
    refine .inr ⟨fun t hs ht => ?_, rfl⟩
    omega
  | succ left ih =>
    have hw : Retained m s := ⟨by omega, hold⟩
    cases hr : responses s with
    | none =>
      refine .inl ⟨s, ⟨⟨Nat.le_refl s, hw.1, by simp [hr]⟩, fun t ht => ht.1⟩, ?_⟩
      rw [scan, slotDataSize_incomplete hw.1 hw.2 (h.incomplete s hr hw), hr]
      rfl
    | some r =>
      have hheld : scan m gid out (left + 1) s = _ := scan_held hw (h.held s r hr hw)
      by_cases hgid : r.clientGid = gid
      · refine .inl ⟨s, ⟨⟨Nat.le_refl s, hw.1, by simp [hr, hgid]⟩, fun t ht => ht.1⟩, ?_⟩
        rw [hheld, if_pos hgid, hr]
        rfl
      rw [hheld, if_neg hgid]
      have hpassed : ∀ t, s ≤ t → (∀ r ∈ responses t, r.clientGid = gid) → s + 1 ≤ t := by
        intro t hst hall
        rcases Nat.eq_or_lt_of_le hst with rfl | hlt
        · exact absurd (hall r hr) hgid
        · exact hlt
      rcases ih (s := s + 1) (by omega) (by omega) with
        ⟨t, ⟨⟨hst, htw, hall⟩, hleast⟩, heq⟩ | ⟨hall, heq⟩
      · exact .inl ⟨t, ⟨⟨by omega, htw, hall⟩, fun u hu =>
          hleast ⟨hpassed u hu.1 hu.2.2, hu.2⟩⟩, heq⟩
      refine .inr ⟨fun t hst htw => ?_, heq⟩
      rcases Nat.eq_or_lt_of_le hst with rfl | hlt
      · exact ⟨r, hr, hgid⟩
      · exact hall t hlt htw

end Scan

/-- A call answers at the smallest number from its cursor and the oldest one on
that has not been completed or is addressed to the client, and all numbers before
it are addressed to others. The ring is left as it is. -/
theorem take_response_exact {m : Ring} {responses : Nat → Option Response} (h : ResponseRing m responses)
    (c : Nat) (gid : Gid) (out : Bytes) :
    (∃ t, IsLeast {t | max c (oldestAvailableSeq m) ≤ t ∧ t < m.writeIndex ∧
          ∀ r ∈ responses t, r.clientGid = gid} t ∧
        takeResponseForClient (some m) c gid out =
          .ok ((responses t).elim (.noMatch t, out, m) fun r =>
            if r.payload.length ≤ out.length then
              (.taken r.payload.length (t + 1) r.requestSequence, copyOut r.payload out, m)
            else (.bufferTooSmall r.payload.length, out, m))) ∨
      (∀ t, max c (oldestAvailableSeq m) ≤ t → t < m.writeIndex → ∃ r ∈ responses t, r.clientGid ≠ gid) ∧
        takeResponseForClient (some m) c gid out = .ok (.noMatch m.writeIndex, out, m) := by
  simp only [takeResponseForClient, currentSeq]
  generalize hs : max c (oldestAvailableSeq m) = s
  rcases Nat.lt_or_ge s m.writeIndex with hlt | hge
  · have hold : m.writeIndex ≤ s + slotCount m := by
      have hle := Nat.le_max_right c (oldestAvailableSeq m)
      rw [hs, oldestAvailableSeq, currentSeq] at hle
      omega
    have hleft : s + (m.writeIndex - s) = m.writeIndex := by omega
    rcases @scan_spec m responses gid s (m.writeIndex - s) out h hleft hold with
      ⟨t, hleast, heq⟩ | ⟨hall, heq⟩
    · refine .inl ⟨t, hleast, ?_⟩
      rw [heq]
      cases responses t with
      | none => rfl
      | some r =>
        simp only [Option.elim_some, answer]
        split_ifs <;> rfl
    · exact .inr ⟨hall, by rw [heq]⟩
  · refine .inr ⟨fun t ht htw => absurd htw (by omega), ?_⟩
    rw [Nat.sub_eq_zero_of_le hge, scan, currentSeq]

def toFirst : Response := ⟨firstClient, 30, [9, 8], by decide, by decide, by decide⟩

def oneAnswered : Ring := reserve (write (create twoFrames) toFirst.frame).2

theorem oneAnswered_slot : Holds (slotAt oneAnswered 0) 0 toFirst.frame := by
  have hfit : toFirst.frame.length ≤ payloadCapacity (create twoFrames) := by decide
  obtain ⟨i, hwrite⟩ := write_accepted hfit
  have hreserve : ∀ m s, slotAt (reserve m) s = slotAt m s := fun _ _ => rfl
  rw [oneAnswered, hwrite, hreserve, fillSlot_eq]
  exact (slotAt_updateSlot_self ..).symm ▸ holds_of_fill _ 0 hfit

theorem oneAnswered_ring : ResponseRing oneAnswered fun s => if s = 0 then some toFirst else none := by
  refine ⟨fun s r hr _ => ?_, fun s hr hw => ?_⟩
  · split_ifs at hr with hs
    cases hr
    subst hs
    exact oneAnswered_slot
  · split_ifs at hr with hs
    have hlt : s < 2 := hw.1
    have hone : s = 1 := by omega
    subst hone
    exact .inl (by decide)

theorem first_client_served :
    takeResponseForClient (some oneAnswered) 0 firstClient [0, 0, 0] =
      .ok (.taken 2 1 30, [9, 8, 0], oneAnswered) := by
  rcases take_response_exact oneAnswered_ring 0 firstClient [0, 0, 0] with
    ⟨t, ⟨_, hleast⟩, heq⟩ | ⟨hall, _⟩
  · have hzero : t = 0 := Nat.le_zero.mp (hleast ⟨by decide, by decide, by simp [toFirst]⟩)
    subst hzero
    exact heq
  · obtain ⟨r, hr, hne⟩ := hall 0 (by decide) (by decide)
    cases hr
    exact absurd rfl hne

section Run

open RingAtomic SlotOrder Transition WriterRace

variable {st st' : State}

def responsesOnly (_ : State) : Action → Prop
  | .beginWrite _ data => ∃ r : Response, r.frame = data
  | _ => True

def payloadOf : WriteCall → Option Bytes
  | .entered data | .reserved data _ _ => some data
  | .idle | .refused _ => none

def Responding (st : State) : Prop := ∀ c, ∀ data ∈ payloadOf (st.writes c), ∃ r : Response, r.frame = data

theorem step_responding {a : Action} (h : Responding st) (ha : responsesOnly st a)
    (hs : step st a = some st') : Responding st' := by
  intro d data hd
  by_cases hw : writer a = some d
  · cases a with
    | beginRead | read => cases hw
    | beginWrite c data' =>
      cases hw
      obtain ⟨_, rfl⟩ := step_beginWrite hs
      simp only [update_self] at hd
      cases hd
      exact ha
    | write c k =>
      cases hw
      rcases step_write_cases hs with ⟨data', hc, _, rfl⟩ | ⟨data', hc, _, rfl⟩ |
        ⟨data', w, p, m, p', hc, _, rfl⟩ <;> simp only [update_self] at hd <;> cases hd
      all_goals exact h d data (by rw [hc]; rfl)
  · rw [step_other_writer hs hw] at hd
    exact h d data hd

theorem not_overtaken (hi : Inv st) {s : Nat} (hw : Retained st.ring s) : ¬ Overtaken st s := by
  rintro ⟨d, e, v, q, hd, _, hlt, hslot⟩
  have hb := hi.below _ _ _ _ hd
  have hle := add_le_of_mod_eq hslot.symm hlt
  have := hw.2
  simp only [slotCount] at this hle
  omega

open Classical in
/-- As long as no server is overtaken in a slot, the numbers of the ring are
those of returned calls with their responses, and those not completed. -/
theorem orderly_response_ring {g : Geometry}
    (h : Reach step (fun s a => responsesOnly s a ∧ orderly s a) (initial g) st) :
    ∃ responses, ResponseRing st.ring responses ∧
      ∀ s r, responses s = some r → ∃ c, st.writes c = .reserved r.frame s .returned := by
  have hboth := h.invariant (I := fun st => Inv st ∧ Responding st) ⟨initial_inv g, fun _ _ hd => by cases hd⟩
    fun _ _ _ hi ha hs => ⟨step_inv hi.1 ha.2 hs, step_responding hi.2 ha.1 hs⟩
  obtain ⟨hi, hresp⟩ := hboth
  let responses (s : Nat) : Option Response :=
    if h : ∃ r : Response, ∃ c, st.writes c = .reserved r.frame s .returned then some h.choose else none
  have hsome : ∀ s r, responses s = some r → ∃ c, st.writes c = .reserved r.frame s .returned := by
    intro s r hr
    obtain ⟨hex, he⟩ := Option.dite_none_right_eq_some.mp hr
    cases he
    exact hex.choose_spec
  refine ⟨responses, ⟨fun s r hr hw => ?_, fun s hr hw => ?_⟩, hsome⟩
  · obtain ⟨c, hc⟩ := hsome s r hr
    exact hi.content c _ s _ hc (by simp [rank]) (not_overtaken hi hw)
  by_contra hdone
  push Not at hdone
  obtain ⟨hseq, hlen⟩ := hdone
  rcases Seqlock.stamped_cases hi hseq with ⟨rfl, hpristine⟩ | ⟨c, data, hc, _⟩
  · exact hlen (hi.pristine 0 hpristine).2
  · obtain ⟨r, rfl⟩ := hresp c data (by rw [hc]; rfl)
    have hex : ∃ r : Response, ∃ c, st.writes c = .reserved r.frame s .returned := ⟨r, c, hc⟩
    simp [responses, hex] at hr

def toSecond : Response := ⟨Vector.replicate 16 2, 31, [7], by decide, by decide, by decide⟩

/-- A whole call: the bytes are copied after four steps. -/
def sent (c : Nat) (data : Bytes) : List Action :=
  .beginWrite c data :: ([0, 0, 0, 0] ++ range data.length ++ [0, 0, 0]).map (.write c)

/-- Two servers have sent a response each. -/
theorem two_responses_ring : ∃ st : State, st.writes 0 = .reserved toFirst.frame 0 .returned ∧
    st.writes 1 = .reserved toSecond.frame 1 .returned ∧ ∃ responses, ResponseRing st.ring responses := by
  obtain ⟨st, hst, h0, h1⟩ : ∃ st, guardedRun step
      (takeTurns fun data => data = toFirst.frame ∨ data = toSecond.frame)
      (sent 0 toFirst.frame ++ sent 1 toSecond.frame) (initial twoFrames) = some st ∧
        st.writes 0 = .reserved toFirst.frame 0 .returned ∧
        st.writes 1 = .reserved toSecond.frame 1 .returned := exists_of_any (by decide +kernel)
  have hreach : Reach step (fun s a => responsesOnly s a ∧ orderly s a) (initial twoFrames) st :=
      (turns_orderly (reach_of_guardedRun hst) fun s a ha => by
    cases a with
    | beginWrite c data =>
      rcases of_decide_eq_true ha.1 with rfl | rfl
      · exact ⟨toFirst, rfl⟩
      · exact ⟨toSecond, rfl⟩
    | write | beginRead | read => trivial).1
  exact ⟨st, h0, h1, (orderly_response_ring hreach).imp fun _ h => h.1⟩

end Run

end RmwAxon.ServiceResponse
