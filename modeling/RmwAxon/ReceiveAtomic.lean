import RmwAxon.Receive
import RmwAxon.RingAtomic

namespace RmwAxon.ReceiveAtomic

open RingBuffer RingAtomic
open Receive (ReceiveError)

/-- Program points of receive_next behind the queue, one per access to the
ring. The slot at hand is read by the steps of read_slot. -/
inductive Point
  | loadWrite
  | loadOldest (writeIdx : Nat)
  | checkQos (initialSeq : Nat)
  | read (retries actual : Nat) (call : ReadCall)
  | loadRead (actual size : Nat)
  | storeRead (actual size : Nat)
  | checkLifespan (actual size : Nat)
  | reload (retries actual : Nat) (overwritten : Bool)
  | report (actual : Nat) (e : RingError)
  | reportOldest (actual : Nat) (e : RingError) (writeIdx : Nat)

inductive Call
  | running (requested : Nat) (out : Bytes) (point : Point)
  | returned (requested : Nat) (out : Bytes) (result : Except ReceiveError (Nat × Nat))

def startRead (actual : Nat) (out : Bytes) : ReadCall := .running actual out .loadWrite

/-- What the tables of the session and the clock say when they are asked:
whether the profiles of the topic agree, and which messages have outlived
their lifespan. -/
structure Verdict where
  admitted : Bool
  expired : Nat → Bool

def afterRead (requested retries actual : Nat) (out : Bytes) : Except RingError Nat → Call
  | .ok size => .running requested out (.loadRead actual size)
  | .error .slotOverwritten =>
    if retries < 4 then .running requested out (.reload retries actual true)
    else .running requested out (.report actual .slotOverwritten)
  | .error .slotNotYetWritten =>
    if retries < 4 then .running requested out (.reload retries actual false)
    else .returned requested out (.error .noData)
  | .error e => .running requested out (.report actual e)

def retarget (m : Ring) (requested retries actual : Nat) (overwritten : Bool) (out : Bytes) : Call :=
  let latest := currentSeq m - 1
  if overwritten then
    if latest = actual then .running requested out (.report actual .slotOverwritten)
    else .running requested out (.read (retries + 1) latest (startRead latest out))
  else
    let target := if actual < latest then latest else actual
    .running requested out (.read (retries + 1) target (startRead target out))

/-- One access of a receive_next call to the ring. The argument k picks the
byte when the call is copying. -/
def stepReceive (m : Ring) (k : Nat) (v : Verdict) : Call → Option (Ring × Call)
  | .running requested out .loadWrite => some (m, .running requested out (.loadOldest (currentSeq m)))
  | .running requested out (.loadOldest writeIdx) =>
    some (m, if writeIdx = 0 ∨ writeIdx ≤ requested then .returned requested out (.error .noData)
      else .running requested out (.checkQos
        (if oldestAvailableSeq m ≤ requested then requested else writeIdx - 1)))
  | .running requested out (.checkQos initialSeq) =>
    some (m, if v.admitted then .running requested out (.read 0 initialSeq (startRead initialSeq out))
      else .returned requested out (.error .qosIncompatible))
  | .running requested out (.read retries actual call) =>
    match call with
    | .returned _ out r => some (m, afterRead requested retries actual out r)
    | call => (stepRead m k call).map fun call => (m, .running requested out (.read retries actual call))
  | .running requested out (.loadRead actual size) =>
    some (m, .running requested out
      (if m.readIndex ≤ actual then .storeRead actual size else .checkLifespan actual size))
  | .running requested out (.storeRead actual size) =>
    some ({ m with readIndex := actual + 1 }, .running requested out (.checkLifespan actual size))
  | .running requested out (.checkLifespan actual size) =>
    some (m, .returned requested out (if v.expired actual then .error .expired else .ok (size, actual)))
  | .running requested out (.reload retries actual overwritten) =>
    some (m, retarget m requested retries actual overwritten out)
  | .running requested out (.report actual e) =>
    some (m, .running requested out (.reportOldest actual e (currentSeq m)))
  | .running requested out (.reportOldest actual e writeIdx) =>
    some (m, .returned requested out
      (.error (.slot e writeIdx actual requested (oldestAvailableSeq m))))
  | .returned _ _ _ => none

theorem stepReceive_read {m m' : Ring} {k : Nat} {v : Verdict} {requested retries actual : Nat}
    {out : Bytes} {call : ReadCall} {next : Call}
    (h : stepReceive m k v (.running requested out (.read retries actual call)) = some (m', next)) :
    m' = m ∧ ((∃ s out' r, call = .returned s out' r ∧ next = afterRead requested retries actual out' r) ∨
        ∃ call', stepRead m k call = some call' ∧
          next = .running requested out (.read retries actual call')) := by
  cases call with
  | returned s out' r =>
    cases h
    exact ⟨rfl, .inl ⟨s, out', r, rfl, rfl⟩⟩
  | idle => cases h
  | running s out' p =>
    obtain ⟨call', hs, he⟩ := Option.map_eq_some_iff.mp
      (show (stepRead m k (.running s out' p)).map _ = some (m', next) from h)
    cases he
    exact ⟨rfl, .inr ⟨call', hs, rfl⟩⟩

end RmwAxon.ReceiveAtomic
