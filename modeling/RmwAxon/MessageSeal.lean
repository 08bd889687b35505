import RmwAxon.KeyStore
import RmwAxon.Transition

namespace RmwAxon.MessageSeal

open KeyStore MessageKeys QkdEnvelope Function
open NodeTable (Text)
open SyncWire (Bytes)

def qkdTopicSealCacheSize : Nat := 256
def qkdMessagesPerKey : Nat := 10

abbrev TopicSealKey := Nat × Nat × Nat

structure CachedOutboundKey where
  material : QkdKeyMaterial
  uses : Nat
  deriving DecidableEq, Repr

inductive Request
  | daemon (remoteDaemonId : Nat) (context : WireContext) (payload : Bytes)
  | topic (remoteDaemonId topicHash publicationId : Nat) (payload : Bytes)
  | reply (remoteSaeId : Text) (context : WireContext) (payload : Bytes)
  deriving DecidableEq, Repr

namespace Request

def context : Request → WireContext
  | daemon _ context _ => context
  | topic _ topicHash _ _ => ⟨.topic, topicHash⟩
  | reply _ context _ => context

def payload : Request → Bytes
  | daemon _ _ payload => payload
  | topic _ _ _ payload => payload
  | reply _ _ payload => payload

def remoteDaemonId : Request → Option Nat
  | daemon remoteDaemonId _ _ => some remoteDaemonId
  | topic remoteDaemonId _ _ _ => some remoteDaemonId
  | reply _ _ _ => none

def sealKey : Request → Option TopicSealKey
  | topic remoteDaemonId topicHash publicationId _ => some (remoteDaemonId, topicHash, publicationId)
  | _ => none

end Request

inductive OnceCell
  | empty
  | running
  | full (wire : Bytes)
  deriving DecidableEq, Repr

structure Cell where
  opener : Request
  content : OnceCell
  deriving DecidableEq, Repr

structure TopicSealCache where
  entries : List (TopicSealKey × Nat)
  order : List TopicSealKey
  deriving DecidableEq, Repr

inductive Point
  | enter
  | wait (cell : Nat)
  | find (remoteDaemonId : Nat)
  | fetch (remoteSaeId : Text)
  | seal (remoteSaeId : Text) (material : QkdKeyMaterial)
  | clean (cell : Nat) (error : String)
  | returned (result : Except String Bytes)
  deriving DecidableEq

structure Call where
  request : Request
  cell : Option Nat
  point : Point
  deriving DecidableEq

structure Grant where
  call : Nat
  remoteSaeId : Text
  material : QkdKeyMaterial
  deriving DecidableEq, Repr

structure Sealed where
  call : Nat
  request : Request
  remoteSaeId : Text
  material : QkdKeyMaterial
  wire : Bytes
  deriving DecidableEq, Repr

/-- What the clones of one QkdMessageCrypto share, and the calls on them. Ghost
state: the keys that the KME gave for an SAE, the keys that the calls got, the
sessions that they found and the envelopes that they made. -/
structure State where
  outboundKeys : Text → Option CachedOutboundKey
  topicSeals : TopicSealCache
  cells : List Cell
  calls : Nat → Option Call
  obtained : List (Text × QkdKeyMaterial)
  grants : List Grant
  sessions : List (Nat × Text)
  sealed : List Sealed

def start : State := ⟨fun _ => none, ⟨[], []⟩, [], fun _ => none, [], [], [], []⟩

abbrev Nonce := { nonce : Bytes // nonce.length = qkdNonceBytes }

inductive Input
  | none
  | store (answer : Except String (Store maxQkdSessions))
  | kme (answer : Except String Text)
  | random (nonce : Option Nonce)

inductive Event
  | call (c : Nat) (request : Request)
  | advance (c : Nat) (input : Input)

def Event.caller : Event → Nat
  | .call c _ => c
  | .advance c _ => c

def setCall (s : State) (c : Nat) (call : Call) : State :=
  { s with calls := update s.calls c (some call) }

theorem setCall_self (s : State) (c : Nat) (call : Call) : (setCall s c call).calls c = some call :=
  update_self ..

theorem setCall_of_ne (s : State) {c d : Nat} (call : Call) (h : d ≠ c) :
    (setCall s c call).calls d = s.calls d :=
  update_of_ne h ..

def setContent (s : State) (i : Nat) (content : OnceCell) : State :=
  { s with cells := s.cells.modify i fun x => { x with content := content } }

def makeRoom (entries : List (TopicSealKey × Nat)) : List TopicSealKey → TopicSealCache
  | [] => ⟨entries, []⟩
  | oldest :: order =>
    if entries.length < qkdTopicSealCacheSize then ⟨entries, oldest :: order⟩
    else makeRoom (entries.filter fun e => e.1 ≠ oldest) order

def enter (s : State) (c : Nat) (call : Call) (key : TopicSealKey) : State :=
  match s.topicSeals.entries.lookup key with
  | some i => setCall s c { call with point := .wait i }
  | none =>
    let cache := makeRoom s.topicSeals.entries s.topicSeals.order
    let i := s.cells.length
    setCall
      { s with
        topicSeals := ⟨(key, i) :: cache.entries, cache.order ++ [key]⟩
        cells := s.cells ++ [⟨call.request, .empty⟩] }
      c { call with point := .wait i }

/-- One call at a time fills a cell; the others wait for it. -/
def getOrTryInit (s : State) (c : Nat) (call : Call) (i remoteDaemonId : Nat) : OnceCell → Option State
  | .full wire => some (setCall s c { call with point := .returned (.ok wire) })
  | .running => none
  | .empty => some (setCall (setContent s i .running) c ⟨call.request, some i, .find remoteDaemonId⟩)

def fail (s : State) (c : Nat) (call : Call) (error : String) : State :=
  match call.cell with
  | none => setCall s c { call with point := .returned (.error error) }
  | some i => setCall (setContent s i .empty) c { call with point := .clean i error }

def succeed (s : State) (c : Nat) (call : Call) (wire : Bytes) : State :=
  match call.cell with
  | none => setCall s c { call with point := .returned (.ok wire) }
  | some i => setCall (setContent s i (.full wire)) c { call with point := .returned (.ok wire) }

def find (s : State) (c : Nat) (call : Call) (remoteDaemonId : Nat) :
    Except String (Store maxQkdSessions) → State
  | .error error => fail s c call ("open QKD key store: " ++ error)
  | .ok store =>
    match findForDaemon store remoteDaemonId true with
    | none => fail s c call ("no active QKD session for daemon " ++ toString remoteDaemonId)
    | some session =>
      setCall { s with sessions := (remoteDaemonId, session.remoteSaeId) :: s.sessions } c
        { call with point := .fetch session.remoteSaeId }

def grant (s : State) (c : Nat) (call : Call) (remoteSaeId : Text) (key : CachedOutboundKey) : State :=
  setCall
    { s with
      outboundKeys := update s.outboundKeys remoteSaeId (some key)
      grants := ⟨c, remoteSaeId, key.material⟩ :: s.grants }
    c { call with point := .seal remoteSaeId key.material }

def encryptionKey (keyOf : Text → Bytes) (s : State) (c : Nat) (call : Call) (remoteSaeId : Text)
    (answer : Except String Text) : State :=
  match (s.outboundKeys remoteSaeId).filter fun k => decide (k.uses < qkdMessagesPerKey) with
  | some cached => grant s c call remoteSaeId { cached with uses := cached.uses + 1 }
  | none =>
    match getEncryptionKey keyOf remoteSaeId answer with
    | .error error => fail s c call error
    | .ok material =>
      grant { s with obtained := (remoteSaeId, material) :: s.obtained } c call remoteSaeId ⟨material, 1⟩

def sealUp (aead : Aead) (localSaeId : Text) (s : State) (c : Nat) (call : Call) (remoteSaeId : Text)
    (material : QkdKeyMaterial) (nonce : Option Nonce) : State :=
  match sealWithMaterial aead localSaeId call.request.context material.key material.keyId
      (nonce.map Subtype.val) call.request.payload with
  | .error error => fail s c call error
  | .ok wire =>
    succeed { s with sealed := ⟨c, call.request, remoteSaeId, material, wire⟩ :: s.sealed } c call wire

/-- The entry of a cell that was not filled goes, unless it is another's by now. -/
def clean (s : State) (c : Nat) (call : Call) (key : TopicSealKey) (i : Nat) (error : String) : State :=
  let done : Call := { call with point := .returned (.error error) }
  if s.topicSeals.entries.lookup key = some i then
    setCall
      { s with topicSeals :=
        ⟨s.topicSeals.entries.filter fun e => e.1 ≠ key, s.topicSeals.order.filter fun k => k ≠ key⟩ }
      c done
  else setCall s c done

def first : Request → Point
  | .daemon remoteDaemonId _ _ => .find remoteDaemonId
  | .topic _ _ _ _ => .enter
  | .reply remoteSaeId _ _ => .fetch remoteSaeId

section Step

variable (aead : Aead) (keyOf : Text → Bytes) (localSaeId : Text)

def advance (s : State) (c : Nat) (call : Call) : Point → Input → Option State
  | .enter, .none => call.request.sealKey.map (enter s c call)
  | .wait i, .none => do
      let x ← s.cells[i]?
      let key ← call.request.sealKey
      getOrTryInit s c call i key.1 x.content
  | .find remoteDaemonId, .store answer => some (find s c call remoteDaemonId answer)
  | .fetch remoteSaeId, .kme answer => some (encryptionKey keyOf s c call remoteSaeId answer)
  | .seal remoteSaeId material, .random nonce =>
    some (sealUp aead localSaeId s c call remoteSaeId material nonce)
  | .clean i error, .none => call.request.sealKey.map fun key => clean s c call key i error
  | _, _ => none

def step (s : State) : Event → Option State
  | .call c request => if (s.calls c).isSome then none else some (setCall s c ⟨request, none, first request⟩)
  | .advance c input => (s.calls c).bind fun call => advance aead keyOf localSaeId s c call call.point input

end Step

end RmwAxon.MessageSeal
