import RmwAxon.KeyPeers

namespace RmwAxon.KeyNegotiation

open MessageKeys KeyPeers KeyStore
open NodeTable (Text)
open SyncWire (Bytes validUtf8)

variable {n : Nat}

inductive Side
  | low
  | high
  deriving DecidableEq

def Side.other : Side → Side
  | low => high
  | high => low

structure Parties where
  id : Side → Nat
  sae : Side → Text
  id_lt : ∀ side, id side < 2 ^ 64
  lower : id .low < id .high
  named : ∀ side, Named maxSaeIdLen (sae side)

/-- Every message that was ever sent can come at any time, any number of times
or never. -/
structure State (n : Nat) where
  store : Side → Store n
  network : List Bytes

inductive Event
  | hello (side : Side) (answer : Except String { id : Text // validUtf8 id = true })
  | deliver (side : Side) (data : Bytes) (answer : Except String Unit)
  | remove (side : Side)

section Handlers

variable [NeZero n] (p : Parties) (keyOf : Text → Bytes)

/-- The daemon with the lower number asks for a key and names it to the other. -/
def handleHello (side : Side) (store : Store n) (answer : Except String Text) : Store n × Option Bytes :=
  if hasActiveSession store (p.id side.other) then (store, none)
  else if p.id side < p.id side.other then
    match prepareOutbound store (p.id side.other) (p.sae side.other)
        (getEncryptionKey keyOf (p.sae side.other) answer) with
    | (.ok session, store) => (store, (encodeKeyAnnouncement ⟨p.id side, p.sae side, session.keyId⟩).toOption)
    | (.error _, store) => (store, none)
  else (store, none)

def ackOrError (keyId : Text) : Bytes :=
  match encodeKeyAck keyId with
  | .ok ack => ack
  | .error error => encodeKeyError error

def handleAnnouncement (side : Side) (store : Store n) (data : Bytes) (answer : Except String Unit) :
    Store n × Option Bytes :=
  match decodeKeyAnnouncement data with
  | .error error => (store, some (encodeKeyError error))
  | .ok a =>
    if a.saeId = p.sae side then (store, none)
    else
      match acceptInbound store a.daemonId a.saeId a.keyId
          (getDecryptionKey keyOf a.saeId a.keyId answer) with
      | (.ok (), store) => (store, some (ackOrError a.keyId))
      | (.error error, store) => (store, some (encodeKeyError error))

def handleAck (store : Store n) (data : Bytes) : Store n :=
  match decodeKeyAck data with
  | none => store
  | some keyId => (activateOutboundByKeyId store keyId).2

def handleControl (side : Side) (store : Store n) (data : Bytes) (answer : Except String Unit) :
    Store n × Option Bytes :=
  if data.head? = some msgQkdKeyAnnounce then handleAnnouncement p keyOf side store data answer
  else if data.head? = some msgQkdKeyAck then (handleAck store data, none)
  else (store, none)

def settle (s : State n) (side : Side) (result : Store n × Option Bytes) : State n :=
  ⟨Function.update s.store side result.1, result.2.toList ++ s.network⟩

def step (s : State n) : Event → Option (State n)
  | .hello side answer =>
    some (settle s side (handleHello p keyOf side (s.store side) (answer.map Subtype.val)))
  | .deliver side data answer =>
    if data ∈ s.network then some (settle s side (handleControl p keyOf side (s.store side) data answer))
    else none
  | .remove side => some (settle s side (remove (s.store side) (p.id side.other), none))

end Handlers

def start (n : Nat) : State n := ⟨fun _ => emptyStore n, []⟩

structure Entry (p : Parties) (s : State n) (side : Side) (e : QkdEntry) : Prop where
  used : e.state ≠ .empty
  peer : e.remoteDaemonId = p.id side.other
  stored : ∃ i, s.store side i = e

def Agree (p : Parties) (s : State n) : Prop :=
  ∀ e e', Entry p s .low e → Entry p s .high e' → e.state = .active → e'.state = .active →
    e.keyId = e'.keyId ∧ e.key = e'.key

/-- The other daemon has not moved on: an announcement is not taken over a key of
the first one that was acknowledged, and an acknowledgement not while the second
one has another key. -/
def Timely (p : Parties) (s : State n) : Event → Prop
  | .deliver .high data _ => ∀ a e ack, decodeKeyAnnouncement data = .ok a → Entry p s .low e →
      e.keyId ≠ a.keyId → encodeKeyAck e.keyId = .ok ack → ack ∉ s.network
  | .deliver .low data _ => ∀ e e', decodeKeyAck data = some e.keyId → Entry p s .low e →
      Entry p s .high e' → e'.keyId = e.keyId
  | _ => True

end RmwAxon.KeyNegotiation
