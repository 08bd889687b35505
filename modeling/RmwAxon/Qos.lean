import Mathlib.Data.Nat.Basic

namespace RmwAxon.Qos

/-- Durations are counted in ticks of the monotonic clock. -/
abbrev Duration := Nat

def defaultMaxMessageSize : Nat := 65536

inductive Reliability
  | bestEffort
  | reliable
  deriving DecidableEq, Repr

inductive Durability
  | volatile
  | transientLocal
  deriving DecidableEq, Repr

inductive HistoryKind
  | keepLast (depth : Nat)
  | keepAll
  deriving DecidableEq, Repr

inductive Liveliness
  | automatic
  | manualByTopic
  | manualByParticipant
  | unknown
  deriving DecidableEq, Repr

structure QosProfile where
  reliability : Reliability
  durability : Durability
  history : HistoryKind
  bandwidthLimit : Option Nat
  maxMessageSize : Nat
  deadline : Option Duration
  lifespan : Option Duration
  liveliness : Liveliness
  livelinessLeaseDuration : Option Duration
  deriving DecidableEq, Repr

def defaultSensor : QosProfile where
  reliability := .bestEffort
  durability := .volatile
  history := .keepLast 5
  bandwidthLimit := none
  maxMessageSize := defaultMaxMessageSize
  deadline := none
  lifespan := none
  liveliness := .automatic
  livelinessLeaseDuration := none

/-- The profile as it is cached and advertised: a zero duration stands for none. -/
structure RemoteQos where
  reliability : Reliability
  durability : Durability
  history : HistoryKind
  deadline : Duration
  lifespan : Duration
  liveliness : Liveliness
  livelinessLeaseDuration : Duration
  avoidRosNamespaceConventions : Bool
  deriving DecidableEq, Repr

def nonzero (d : Duration) : Option Duration := if d = 0 then none else some d

def RemoteQos.toQosProfile (rq : RemoteQos) : QosProfile where
  reliability := rq.reliability
  durability := rq.durability
  history := rq.history
  bandwidthLimit := none
  maxMessageSize := defaultMaxMessageSize
  deadline := nonzero rq.deadline
  lifespan := nonzero rq.lifespan
  liveliness := rq.liveliness
  livelinessLeaseDuration := nonzero rq.livelinessLeaseDuration

def fromQosProfile (qos : QosProfile) : RemoteQos where
  reliability := qos.reliability
  durability := qos.durability
  history := qos.history
  deadline := qos.deadline.getD 0
  lifespan := qos.lifespan.getD 0
  liveliness := qos.liveliness
  livelinessLeaseDuration := qos.livelinessLeaseDuration.getD 0
  avoidRosNamespaceConventions := false

def violates (test : Duration → Duration → Bool) (offered requested : Option Duration) : Bool :=
  match offered, requested with
  | some o, some r => test o r
  | _, _ => false

def qosProfilesCompatible (pubQos subQos : QosProfile) : Bool :=
  if pubQos.reliability = .bestEffort ∧ subQos.reliability = .reliable then false
  else if subQos.durability = .transientLocal ∧ pubQos.durability = .volatile then false
  else if violates (fun o r => decide (r < o)) pubQos.deadline subQos.deadline then false
  else if subQos.liveliness = .manualByTopic ∧ pubQos.liveliness = .automatic then false
  else if subQos.liveliness = .manualByParticipant ∧ pubQos.liveliness ≠ .manualByParticipant then
    false
  else if violates (fun o r => decide (o < r)) pubQos.lifespan subQos.lifespan then false
  else true

def reliable : QosProfile := { defaultSensor with reliability := .reliable }

end RmwAxon.Qos
