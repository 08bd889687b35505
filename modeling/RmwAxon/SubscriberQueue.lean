import RmwAxon.RingBuffer

namespace RmwAxon.SubscriberQueue

open Cells Function
open RingBuffer (Bytes)

/-- Instants are counted in ticks of the monotonic clock. -/
abbrev Timestamps := Nat → Option Nat

structure Queue where
  messages : List (Nat × Bytes)
  capacity : Nat
  nextSeq : Nat
  len : Nat
  active : Bool
  keepAll : Bool
  timestamps : Timestamps
  capacity_pos : 0 < capacity

def withSeqAndMode (capacity startSeq : Nat) (keepAll : Bool) : Queue where
  messages := []
  capacity := max capacity 1
  nextSeq := startSeq
  len := 0
  active := false
  keepAll := keepAll
  timestamps := fun _ => none
  capacity_pos := Nat.lt_of_lt_of_le Nat.one_pos (Nat.le_max_right capacity 1)

def evict (capacity : Nat) :
    List (Nat × Bytes) → Timestamps → List (Nat × Bytes) × Timestamps
  | [], ts => ([], ts)
  | m :: msgs, ts =>
    if capacity ≤ (m :: msgs).length then evict capacity msgs (update ts m.1 none)
    else (m :: msgs, ts)

def refuses (q : Queue) : Bool := q.keepAll && decide (q.capacity ≤ q.messages.length)

/-- The number is taken before the queue is looked at, so a push that is
refused uses one up. -/
def push (q : Queue) (now : Nat) (data : Bytes) : Option Nat × Queue :=
  let seq := q.nextSeq
  if refuses q then (none, { q with nextSeq := seq + 1 })
  else
    let (msgs, ts) := evict q.capacity q.messages q.timestamps
    let msgs := msgs ++ [(seq, data)]
    (some seq, { q with
      messages := msgs
      nextSeq := seq + 1
      len := msgs.length
      active := true
      timestamps := update ts seq (some now) })

def timestampFor (q : Queue) (seq : Nat) : Option Nat := q.timestamps seq

def copyTo (data out : Bytes) : Bytes := if out.length < data.length then out else copyOut data out

def removeRange (ts : Timestamps) (lo hi : Nat) : Timestamps :=
  fun s => if lo ≤ s ∧ s ≤ hi then none else ts s

def tryTake (q : Queue) (seq : Nat) (out : Bytes) : Option (Nat × Nat) × Bytes × Queue :=
  match q.messages.head?, q.messages.getLast? with
  | some (oldest, _), some (newest, latest) =>
    if seq < oldest then
      if out.length < latest.length then (some (latest.length, newest), out, q)
      else (some (latest.length, newest), copyOut latest out,
        { q with messages := [], len := 0, timestamps := fun _ => none })
    else
      let offset := seq - oldest
      match q.messages[offset]? with
      | none => (none, out, q)
      | some (actual, data) =>
        if out.length < data.length then (some (data.length, actual), out, q)
        else
          let msgs := q.messages.drop (offset + 1)
          (some (data.length, actual), copyOut data out,
            { q with
              messages := msgs
              len := msgs.length
              timestamps := removeRange q.timestamps oldest actual })
  | _, _ => (none, out, q)

/-- The entry that a cursor read or a peek looks at: the cursor's own if it is
not behind the oldest, else the newest. The number reported is computed from
the cursor and not read from the entry. -/
def select (q : Queue) (seq : Nat) : Option (Bytes × Nat) :=
  match q.messages.head?, q.messages.getLast? with
  | some (oldest, _), some (newest, _) =>
    if newest < seq then none
    else
      let actual := if seq < oldest then newest else seq
      q.messages[actual - oldest]?.map fun m => (m.2, actual)
  | _, _ => none

def readAt (q : Queue) (seq : Nat) (out : Bytes) : Option (Nat × Nat) × Bytes :=
  match select q seq with
  | none => (none, out)
  | some (data, actual) => (some (data.length, actual), copyTo data out)

def framePrefix (raw : Bytes) : Bytes := raw.take 5 ++ List.replicate (5 - raw.length) 0

def peekPrefix (q : Queue) (seq : Nat) : Option (Bytes × Nat) :=
  (select q seq).map fun m => (framePrefix m.1, m.2)

def peekSize (q : Queue) (seq : Nat) : Option (Nat × Nat) :=
  (select q seq).map fun m => (m.1.length, m.2)

def messageSize (q : Queue) (seq : Nat) : Option Nat :=
  match q.messages.head? with
  | none => none
  | some (oldest, _) =>
    if seq < oldest then q.messages.getLast?.map fun m => m.2.length
    else q.messages[seq - oldest]?.map fun m => m.2.length

def dataAvailableFrom (q : Queue) (seq : Nat) : Bool :=
  match q.messages.getLast? with
  | none => false
  | some (newest, _) => decide (seq ≤ newest)

def isActive (q : Queue) : Bool := q.active

end RmwAxon.SubscriberQueue
