import Mathlib.Algebra.Group.Nat.Defs
import RmwAxon.Probing
import RmwAxon.SyncWire

namespace RmwAxon.MessageKeys

open NodeTable (Text)
open Probing SyncWire Function

variable {n : Nat}

def maxQkdMessageKeys : Nat := 4096
instance : NeZero maxQkdMessageKeys := ⟨by decide⟩

def maxSaeIdLen : Nat := 128
def maxKeyIdLen : Nat := 192
def qkdKeyBytes : Nat := 32

inductive MessageState
  | empty
  | writing
  | pending
  | ready
  deriving DecidableEq, Repr

/-- A slot of the cache. A text is what its length says of the buffer. -/
structure QkdMessageEntry where
  state : MessageState
  writerPid : Nat
  generation : Nat
  key : List UInt8
  keyId : Text
  senderSaeId : Text
  deriving DecidableEq, Repr

structure Cache (n : Nat) where
  generation : Nat
  entries : Fin n → QkdMessageEntry

structure QkdKeyMaterial where
  keyId : Text
  key : List UInt8
  deriving DecidableEq, Repr

structure MessageKey where
  senderSaeId : Text
  keyId : Text
  utf8 : validUtf8 senderSaeId = true ∧ validUtf8 keyId = true
  deriving DecidableEq

inductive QkdMessageKeyLookup
  | ready (material : QkdKeyMaterial)
  | claimed
  | pending
  deriving DecidableEq, Repr

def isAsciiControl (b : UInt8) : Bool := decide (b < 32) || decide (b = 127)

def validateIdentifier (name : String) (value : Text) (maxLen : Nat) : Except String Unit :=
  if value = [] ∨ maxLen ≤ value.length then
    .error (name ++ " must contain 1.." ++ toString (maxLen - 1) ++ " bytes")
  else if value.any fun b => decide (b = 0) || isAsciiControl b then
    .error (name ++ " contains an invalid character")
  else .ok ()

def validateMessageKey (k : MessageKey) : Except String Unit := do
  validateIdentifier "QKD sender SAE ID" k.senderSaeId maxSaeIdLen
  validateIdentifier "QKD message key_ID" k.keyId maxKeyIdLen

def atomicString (bytes : Text) : Option Text :=
  if bytes = [] then none else if validUtf8 bytes then some bytes else none

theorem validateIdentifier_ok {name : String} {value : Text} {maxLen : Nat}
    (h : validateIdentifier name value maxLen = .ok ()) : value ≠ [] ∧ value.length < maxLen := by
  rw [validateIdentifier] at h
  split_ifs at h with hlen
  obtain ⟨hne, hlt⟩ := not_or.mp hlen
  exact ⟨hne, by omega⟩

theorem eq_of_atomicString {s t : Text} (h : atomicString s = some t) : t = s := by
  rw [atomicString] at h
  split_ifs at h
  exact (Option.some.inj h).symm

theorem atomicString_self {s : Text} (hs : s ≠ []) (hu : validUtf8 s = true) : atomicString s = some s := by
  rw [atomicString, if_neg hs, if_pos hu]

def messageKeyHash (senderSaeId keyId : Text) : Nat :=
  (senderSaeId ++ 0 :: keyId).foldl (fun hash byte => (hash ^^^ byte.toNat) * 0x1000000001b3 % 2 ^ 64)
    0xcbf29ce484222325

def messageEntryMatches (e : QkdMessageEntry) (k : MessageKey) : Bool :=
  decide (atomicString e.senderSaeId = some k.senderSaeId) && decide (atomicString e.keyId = some k.keyId)

def clearMessageEntry : QkdMessageEntry where
  state := .empty
  writerPid := 0
  generation := 0
  key := List.replicate qkdKeyBytes 0
  keyId := []
  senderSaeId := []

def emptyCache (n : Nat) : Cache n := ⟨0, fun _ => clearMessageEntry⟩

def setEntry (c : Cache n) (i : Fin n) (e : QkdMessageEntry) : Cache n :=
  { c with entries := update c.entries i e }

def initializeMessageEntry (c : Cache n) (i : Fin n) (pid : Nat) (k : MessageKey) : Cache n :=
  let generation := (c.generation + 1) % 2 ^ 64
  ⟨generation, update c.entries i
    ⟨.pending, pid, generation, List.replicate qkdKeyBytes 0, k.keyId, k.senderSaeId⟩⟩

def copyMessageKey (e : QkdMessageEntry) : Except String QkdKeyMaterial :=
  if e.state ≠ .ready then .error "QKD message key cache changed while reading"
  else
    match atomicString e.keyId with
    | none => .error "QKD message key cache changed while reading"
    | some keyId => .ok ⟨keyId, e.key⟩

inductive Scan (n : Nat)
  | again (c : Cache n)
  | done (result : Except String QkdMessageKeyLookup) (c : Cache n)

def writerGone (alive : Nat → Bool) (e : QkdMessageEntry) : Bool :=
  decide (e.writerPid = 0) || !alive e.writerPid

def olderReady (oldest : Option (Fin n × Nat)) (i : Fin n) (generation : Nat) : Option (Fin n × Nat) :=
  match oldest with
  | none => some (i, generation)
  | some (j, oldestGeneration) =>
    if generation < oldestGeneration then some (i, generation) else some (j, oldestGeneration)

def evictOldest (c : Cache n) (pid : Nat) (k : MessageKey) : Option (Fin n × Nat) → Scan n
  | some (i, _) => .done (.ok .claimed) (initializeMessageEntry c i pid k)
  | none => .done (.error "QKD message key cache has no available entries") c

/-- The slots from the hash on, up to the first one that decides. Nothing else
writes meanwhile, so each exchange succeeds. -/
def scan [NeZero n] (alive : Nat → Bool) (c : Cache n) (pid : Nat) (k : MessageKey) :
    List Nat → Option (Fin n × Nat) → Scan n
  | [], oldest => evictOldest c pid k oldest
  | offset :: rest, oldest =>
    let i := probe (messageKeyHash k.senderSaeId k.keyId % n) offset
    let e := c.entries i
    match e.state with
    | .writing => .again (if writerGone alive e then setEntry c i { e with state := .empty } else c)
    | .empty => .done (.ok .claimed) (initializeMessageEntry c i pid k)
    | .pending =>
      if messageEntryMatches e k then
        if writerGone alive e then .again (setEntry c i clearMessageEntry)
        else .done (.ok .pending) c
      else scan alive c pid k rest oldest
    | .ready =>
      if messageEntryMatches e k then .done ((copyMessageKey e).map .ready) c
      else scan alive c pid k rest (olderReady oldest i e.generation)

def claimLoop [NeZero n] (alive : Nat → Bool) (pid : Nat) (k : MessageKey) :
    Nat → Cache n → Option (Except String QkdMessageKeyLookup × Cache n)
  | 0, _ => none
  | fuel + 1, c =>
    match scan alive c pid k (List.range n) none with
    | .again c => claimLoop alive pid k fuel c
    | .done result c => some (result, c)

/-- Every further round finds a slot less that some process has left behind. -/
def claimMessageKey [NeZero n] (alive : Nat → Bool) (c : Cache n) (pid : Nat) (k : MessageKey) :
    Option (Except String QkdMessageKeyLookup × Cache n) :=
  match validateMessageKey k with
  | .error e => some (.error e, c)
  | .ok () => claimLoop alive pid k (n + 1) c

def findMessageEntry (c : Cache n) (k : MessageKey) (expected : MessageState) : Option (Fin n) :=
  (List.finRange n).find? fun i =>
    decide ((c.entries i).state = expected) && messageEntryMatches (c.entries i) k

def publishMessageKey (c : Cache n) (k : MessageKey) (key : List UInt8) : Except String Unit × Cache n :=
  match findMessageEntry c k .pending with
  | none => (.error "QKD message key cache claim was lost", c)
  | some i => (.ok (), setEntry c i { c.entries i with key := key, state := .ready })

def abandonMessageKey (c : Cache n) (k : MessageKey) : Cache n :=
  match findMessageEntry c k .pending with
  | none => c
  | some i => setEntry c i clearMessageEntry

end RmwAxon.MessageKeys
