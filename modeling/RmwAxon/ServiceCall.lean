import RmwAxon.RingBuffer
import Mathlib.Data.List.Infix

namespace RmwAxon.ServiceCall

open List
open RingBuffer (Bytes)

inductive Io
  | done
  | timeout
  | failed (e : String)
  deriving DecidableEq, Repr

inductive Dial
  | misconfigured (e : String)
  | connectFailed (e : String)
  | handshakeFailed (e : String)
  | handshakeTimeout
  | openBiFailed (e : String)
  | openBiTimeout
  | opened
  deriving DecidableEq, Repr

/-- One call as the network lets it happen: the candidate addresses with what
comes of each, whether a stream is found when there are none, and what comes of
each stage after that. -/
structure Attempt where
  candidates : List (String × Dial)
  found : Bool
  writeTopicHash : Io
  sealForDaemon : Except String Bytes
  writeReqLen : Io
  writeReqData : Io
  finish : Option String
  readRespLen : Io
  readRespData : Io
  openWire : Except String Bytes

/-- The candidates are tried in turn, and the error of the last one is kept. -/
def dial (lastError : String) : List (String × Dial) → Except String Unit
  | [] => .error lastError
  | (_, .misconfigured e) :: _ => .error e
  | (_, .opened) :: _ => .ok ()
  | (addr, .connectFailed e) :: rest => dial ("connect failed via " ++ addr ++ ": " ++ e) rest
  | (addr, .handshakeFailed e) :: rest => dial ("handshake failed via " ++ addr ++ ": " ++ e) rest
  | (addr, .handshakeTimeout) :: rest => dial ("handshake timeout via " ++ addr) rest
  | (addr, .openBiFailed e) :: rest => dial ("open bi failed via " ++ addr ++ ": " ++ e) rest
  | (addr, .openBiTimeout) :: rest => dial ("open bi timeout via " ++ addr) rest

def openBi (a : Attempt) : Except String Unit :=
  if a.candidates.isEmpty then
    if a.found then .ok () else .error "not connected after timeout"
  else dial "no peer address" a.candidates

def Io.check (stage : String) : Io → Except String Unit
  | .done => .ok ()
  | .timeout => .error (stage ++ " timeout")
  | .failed e => .error (stage ++ " failed: " ++ e)

def transmit (a : Attempt) : Except String Unit := do
  openBi a
  a.writeTopicHash.check "write topic hash"
  let _ ← a.sealForDaemon
  a.writeReqLen.check "write req len"
  a.writeReqData.check "write req data"

def awaitResponse (a : Attempt) : Except String Bytes := do
  if let some e := a.finish then throw ("finish failed: " ++ e)
  a.readRespLen.check "read resp len"
  a.readRespData.check "read resp data"
  a.openWire

def serviceCall (a : Attempt) : Except String Bytes := do
  transmit a
  awaitResponse a

def transmitted (a : Attempt) : Bool := (transmit a).isOk

def contains (e word : String) : Bool := decide (word.toList <:+: e.toList)

def retryWords : List String := ["connect", "handshake", "not connected", "open bi", "write"]

def retryable (e : String) : Bool := retryWords.any (contains e)

def retriedWith : Except String Bytes → Bool
  | .ok _ => false
  | .error e => retryable e

def retried (a : Attempt) : Bool := retriedWith (serviceCall a)

def lateText (a : Attempt) : Option String :=
  match a.finish, a.readRespLen, a.readRespData, a.openWire with
  | some e, _, _, _ => some e
  | none, .failed e, _, _ => some e
  | none, .timeout, _, _ => none
  | none, .done, .failed e, _ => some e
  | none, .done, .timeout, _ => none
  | none, .done, .done, .error e => some e
  | none, .done, .done, .ok _ => none

def quiet (stage : String) : Bool :=
  retryWords.all fun word => !contains stage word &&
    (List.range word.toList.length).all fun k =>
      decide (k = 0) || !decide (word.toList.take k <:+ stage.toList)

theorem contains_append {stage word : String} (hno : contains stage word = false)
    (hsplit : ∀ k < word.toList.length, k ≠ 0 → ¬ word.toList.take k <:+ stage.toList) (e : String) :
    contains (stage ++ e) word = contains e word := by
  simp only [contains, decide_eq_false_iff_not] at hno
  simp only [contains, String.toList_append, decide_eq_decide, infix_append_iff]
  refine ⟨?_, fun h => .inr (.inl h)⟩
  rintro (h | h | ⟨front, back, hword, hfront, hback⟩)
  · exact absurd h hno
  · exact h
  cases back with
  | nil =>
    rw [append_nil] at hword
    exact absurd (hword ▸ hfront.isInfix) hno
  | cons c back =>
    cases front with
    | nil => exact hword ▸ hback.isInfix
    | cons d front =>
      refine absurd hfront ?_
      have htake := hsplit (d :: front).length (by simp [hword]) (by simp)
      rwa [hword, take_left] at htake

theorem retryable_append {stage : String} (h : quiet stage = true) (e : String) :
    retryable (stage ++ e) = retryable e := by
  simp only [quiet, all_eq_true, Bool.and_eq_true, Bool.not_eq_true', Bool.or_eq_true, decide_eq_true_eq,
    decide_eq_false_iff_not, mem_range] at h
  rw [retryable, retryable, Bool.eq_iff_iff, any_eq_true, any_eq_true]
  refine exists_congr fun word => and_congr_right fun hword => ?_
  obtain ⟨hno, hsplit⟩ := h word hword
  rw [contains_append hno fun k hk hpos => (hsplit k hk).resolve_left hpos]

theorem awaitResponse_retried (a : Attempt) : retriedWith (awaitResponse a) = (lateText a).any retryable := by
  have hlen : retryable "read resp len timeout" = false := by decide +kernel
  have hdata : retryable "read resp data timeout" = false := by decide +kernel
  have hstages : ∀ stage ∈ ["finish failed: ", "read resp len failed: ", "read resp data failed: "],
      quiet stage = true := by decide +kernel
  have hquiet := fun stage hs e => retryable_append (hstages stage hs) e
  obtain ⟨candidates, found, hash, sealed, reqLen, reqData, finish, respLen, respData, wire⟩ := a
  cases finish with
  | some e => exact hquiet "finish failed: " (by simp) e
  | none =>
    cases respLen with
    | timeout => exact hlen
    | failed e => exact hquiet "read resp len failed: " (by simp) e
    | done =>
      cases respData with
      | timeout => exact hdata
      | failed e => exact hquiet "read resp data failed: " (by simp) e
      | done =>
        cases wire with
        | error | ok => rfl

/-- A call whose request went out is made again if a retry word is found in what
the transport says. -/
theorem retried_of_transmitted {a : Attempt} (h : transmitted a = true) :
    retried a = (lateText a).any retryable := by
  have hsend : transmit a = .ok () := by
    cases hsend : transmit a with
    | error e =>
      rw [transmitted, hsend] at h
      cases h
    | ok => rfl
  have hcall : serviceCall a = awaitResponse a := by
    rw [serviceCall, hsend]
    rfl
  rw [retried, hcall, awaitResponse_retried]

end RmwAxon.ServiceCall
