import Mathlib.Data.Fin.Basic
import Mathlib.Logic.Function.Basic

namespace RmwAxon.NodeTable

open List

def maxNodes : Nat := 256
def maxTopicsPerNode : Nat := 256
def maxMatches : Nat := 1024
def maxTopicNameLen : Nat := 128
def maxTopicTypeLen : Nat := 128
def maxNodeNameLen : Nat := 128
def maxNodeNsLen : Nat := 128
def maxQuicAddrs : Nat := 8

abbrev Text := List UInt8

abbrev Addr := UInt8 × UInt8 × UInt8 × UInt8

inductive SlotState
  | empty
  | pending
  | active
  | leaving
  | claiming
  deriving DecidableEq, Repr

structure EntryQos where
  reliability : Nat
  durability : Nat
  historyKind : Nat
  historyDepth : Int
  deadlineSec : Nat
  deadlineNsec : Nat
  lifespanSec : Nat
  lifespanNsec : Nat
  liveliness : Nat
  livelinessLeaseSec : Nat
  livelinessLeaseNsec : Nat
  deriving DecidableEq, Repr

structure TopicEntry where
  hash : Nat
  typeHash : Nat
  qos : EntryQos
  topicName : Text
  topicType : Text
  nodeName : Text
  nodeNamespace : Text
  deriving DecidableEq, Repr

structure MatchEntry where
  nodeId : Nat
  topicHash : Nat
  port : Nat
  addr : Addr
  deriving DecidableEq, Repr

/-- A slot of the table. An array with its count is the list of the elements
that count; a list that is longer than its array stands for a count out of
range. -/
structure NodeTableEntry where
  state : SlotState
  domainId : Nat
  pid : Nat
  procStarttime : Nat
  quicPort : Nat
  nodeId : Nat
  responseGen : Nat
  quicAddrs : List Addr
  daemonOrigin : Nat
  lastSeenSecs : Nat
  nodeName : Text
  nodeNamespace : Text
  publishedTopics : List TopicEntry
  subscribedTopics : List TopicEntry
  remoteMatches : List MatchEntry
  deriving DecidableEq, Repr

abbrev Table (n : Nat) := Fin n → NodeTableEntry

def zeroEntry : NodeTableEntry where
  state := .empty
  domainId := 0
  pid := 0
  procStarttime := 0
  quicPort := 0
  nodeId := 0
  responseGen := 0
  quicAddrs := []
  daemonOrigin := 0
  lastSeenSecs := 0
  nodeName := List.replicate maxNodeNameLen 0
  nodeNamespace := List.replicate maxNodeNsLen 0
  publishedTopics := []
  subscribedTopics := []
  remoteMatches := []

def emptyTable (n : Nat) : Table n := fun _ => zeroEntry

def tableOf (n : Nat) (es : List NodeTableEntry) : Table n := fun k => es.getD k.val zeroEntry

/-- A string in a buffer of fixed size: cut before the last byte, padded with
zeros. -/
def copyStr (size : Nat) (value : Text) : Text :=
  value.take (size - 1) ++ List.replicate (size - min value.length (size - 1)) 0

/-- A buffer is read up to its first zero. -/
def readStr (buffer : Text) : Text := buffer.takeWhile (· ≠ 0)

/-- The elements before the count; a count out of range panics. -/
def slice {α : Type} (capacity : Nat) (xs : List α) : Option (List α) :=
  if xs.length ≤ capacity then some xs else none

def isOccupied (e : NodeTableEntry) : Bool := decide (e.state ≠ .empty)

def firstSlot {n : Nat} (table : Table n) (p : NodeTableEntry → Bool) : Option (Fin n) :=
  (List.finRange n).find? fun k => p (table k)

def findSlotByNodeId {n : Nat} (table : Table n) (nodeId : Nat) : Option (Fin n) :=
  firstSlot table fun e => isOccupied e && decide (e.nodeId = nodeId)

def findFreeSlot {n : Nat} (table : Table n) : Option (Fin n) :=
  firstSlot table fun e => !isOccupied e

def nanosPerSec : Nat := 1000000000

def topicEntryQosCompatible (pubEntry subEntry : TopicEntry) : Bool :=
  let p := pubEntry.qos
  let s := subEntry.qos
  let pubDeadline := p.deadlineSec * nanosPerSec + p.deadlineNsec
  let subDeadline := s.deadlineSec * nanosPerSec + s.deadlineNsec
  let pubLifespan := p.lifespanSec * nanosPerSec + p.lifespanNsec
  let subLifespan := s.lifespanSec * nanosPerSec + s.lifespanNsec
  if p.reliability = 0 ∧ s.reliability = 1 then false
  else if s.durability = 1 ∧ p.durability = 0 then false
  else if 0 < pubDeadline ∧ 0 < subDeadline ∧ subDeadline < pubDeadline then false
  else if s.liveliness = 1 ∧ p.liveliness = 0 then false
  else if s.liveliness = 2 ∧ p.liveliness ≠ 2 then false
  else if 0 < pubLifespan ∧ 0 < subLifespan ∧ pubLifespan < subLifespan then false
  else true

def plainTopic (hash : Nat) : TopicEntry := ⟨hash, 0, ⟨0, 0, 0, 0, 0, 0, 0, 0, 0, 0, 0⟩, [], [], [], []⟩

theorem readStr_copyStr {size : Nat} {value : Text} (hfit : value.length < size) (h0 : 0 ∉ value) :
    readStr (copyStr size value) = value := by
  have htake : value.take (size - 1) = value := take_of_length_le (by omega)
  have hpad : size - min value.length (size - 1) = (size - value.length - 1) + 1 := by omega
  rw [readStr, copyStr, htake, hpad, replicate_succ, takeWhile_append_of_pos]
  · simp
  · intro b hb
    simpa using fun h : b = 0 => h0 (h ▸ hb)

theorem slice_eq_some {α : Type} {capacity : Nat} {xs ys : List α} :
    slice capacity xs = some ys ↔ xs.length ≤ capacity ∧ xs = ys := by
  simp [slice]

end RmwAxon.NodeTable
