import Mathlib.Logic.Function.Iterate

namespace RmwAxon.EventMonitor

open Function

inductive EventKind
  | livelinessLost
  | livelinessChanged
  | deadlineMissed
  | messageLost
  | requestedQosCompatibility
  deriving DecidableEq

structure EventState where
  kind : EventKind
  count : Int
  aliveCount : Int
  notAliveCount : Int
  lastTriggered : Nat

/-- A deadline that is watched; the publisher 0 stands for any. -/
structure DeadlineMonitor where
  handle : Nat
  topic : Nat
  gid : Nat
  deadline : Nat
  last : Nat
  deriving DecidableEq

structure LivelinessMonitor where
  handle : Nat
  node : Nat
  lease : Nat
  last : Nat
  deriving DecidableEq

structure Monitor where
  events : Nat → Option EventState
  tokens : Nat
  nextHandle : Nat
  deadlines : List DeadlineMonitor
  livelinesses : List LivelinessMonitor

def newMonitor : Monitor := ⟨fun _ => none, 0, 1, [], []⟩

def wrap64 (n : Int) : Int := Int.bmod n 18446744073709551616

def createEvent (m : Monitor) (now : Nat) (kind : EventKind) : Nat × Monitor :=
  (m.nextHandle,
    { m with
      events := update m.events m.nextHandle (some ⟨kind, 0, 0, 0, now⟩)
      nextHandle := m.nextHandle + 1 })

/-- The count, the time, and the numbers of publishers that are alive and that are not. -/
def takeEvent (m : Monitor) (h : Nat) : Option (Int × Nat × Int × Int) × Monitor :=
  match m.events h with
  | none => (none, m)
  | some st =>
    if 0 < st.count then
      (some (st.count, st.lastTriggered, st.aliveCount, st.notAliveCount),
        { m with
          events := update m.events h (some { st with count := 0 })
          tokens := m.tokens - 1 })
    else (none, m)

def destroyEvent (m : Monitor) (h : Nat) : Monitor := { m with events := update m.events h none }

def triggerEvent (now : Nat) (m : Monitor) (h : Nat) : Monitor :=
  { m with
    events := update m.events h
      ((m.events h).map fun st => { st with count := wrap64 (st.count + 1), lastTriggered := now })
    tokens := m.tokens + 1 }

def triggerLivelinessChanged (now : Nat) (m : Monitor) (h : Nat) (alive notAlive : Int) : Monitor :=
  { m with
    events := update m.events h ((m.events h).map fun st =>
      { st with
        count := wrap64 (st.count + 1)
        aliveCount := alive
        notAliveCount := notAlive
        lastTriggered := now })
    tokens := m.tokens + 1 }

def updateLivelinessCounts (m : Monitor) (h : Nat) (alive notAlive : Int) : Monitor :=
  { m with
    events := update m.events h ((m.events h).map fun st =>
      { st with aliveCount := alive, notAliveCount := notAlive }) }

/-- The key of the table is the handle with the topic and the publisher. -/
def DeadlineMonitor.sameKey (a b : DeadlineMonitor) : Bool :=
  a.handle = b.handle ∧ a.topic = b.topic ∧ a.gid = b.gid

def registerDeadlineMonitor (m : Monitor) (now handle topic gid deadline : Nat) : Monitor :=
  let new : DeadlineMonitor := ⟨handle, topic, gid, deadline, now⟩
  { m with deadlines := m.deadlines.filter (fun d => !d.sameKey new) ++ [new] }

/-- A publisher that is known resets its own monitors only. -/
def updateDeadlinePublishTime (m : Monitor) (now topic gid : Nat) : Monitor :=
  { m with
    deadlines := m.deadlines.map fun d =>
      if gid = 0 then if d.topic = topic then { d with last := now } else d
      else if d.topic = topic ∧ d.gid = gid then { d with last := now } else d }

def DeadlineMonitor.expired (now : Nat) (d : DeadlineMonitor) : Bool := d.deadline < now - d.last

def expiredHandles (m : Monitor) (now : Nat) : List Nat :=
  (m.deadlines.filter (·.expired now)).map (·.handle)

def checkDeadlines (m : Monitor) (now : Nat) : Monitor :=
  (expiredHandles m now).foldl (triggerEvent now) m

def registerLivelinessMonitor (m : Monitor) (now handle node lease : Nat) : Monitor :=
  { m with
    livelinesses :=
      m.livelinesses.filter (fun l => !(decide (l.handle = handle) && decide (l.node = node))) ++
      [⟨handle, node, lease, now⟩] }

def assertLiveliness (m : Monitor) (now node : Nat) : Monitor :=
  { m with livelinesses := m.livelinesses.map fun l => if l.node = node then { l with last := now } else l }

def LivelinessMonitor.expired (now : Nat) (l : LivelinessMonitor) : Bool := l.lease < now - l.last

def checkLiveliness (m : Monitor) (now : Nat) : Monitor :=
  let expired := m.livelinesses.filter (·.expired now)
  let alive : Int := (m.livelinesses.length - expired.length : Nat)
  let notAlive : Int := expired.length
  let lost := (expired.map (·.handle)).foldl (triggerEvent now) m
  let changed := (List.range lost.nextHandle).filter fun h => (lost.events h).any fun st =>
    st.kind = .livelinessChanged ∧ (st.aliveCount ≠ alive ∨ st.notAliveCount ≠ notAlive)
  changed.foldl (fun m h => triggerLivelinessChanged now m h alive notAlive) lost

/-- What a trigger does to the state of its event. -/
def bump (now : Nat) (st : EventState) : EventState :=
  { st with count := wrap64 (st.count + 1), lastTriggered := now }

theorem foldl_triggerEvent_events (now : Nat) {h : Nat} (hs : List Nat) (m : Monitor) :
    (hs.foldl (triggerEvent now) m).events h = (m.events h).map (bump now)^[hs.count h] := by
  induction hs generalizing m with
  | nil => simp
  | cons g hs ih =>
    rw [List.foldl_cons, ih]
    by_cases hg : g = h
    · subst hg
      rw [List.count_cons_self, iterate_succ, ← Option.map_map]
      exact congrArg _ (update_self ..)
    · rw [List.count_cons_of_ne hg]
      exact congrArg _ (update_of_ne (Ne.symm hg) ..)

theorem bump_iterate_kind (now k : Nat) (st : EventState) : ((bump now)^[k] st).kind = st.kind := by
  induction k with
  | zero => rfl
  | succ k ih =>
    rw [iterate_succ_apply']
    exact ih

theorem bump_iterate_count (now k : Nat) {st : EventState} {n : Int} (hst : st.count = wrap64 n) :
    ((bump now)^[k] st).count = wrap64 (n + k) := by
  induction k with
  | zero => simp [hst]
  | succ k ih =>
    rw [iterate_succ_apply']
    simp only [bump, ih, wrap64, Int.bmod_add_bmod]
    congr 1
    omega

section Rmw

inductive EventType
  | livelinessLost
  | offeredDeadlineMissed
  | offeredQosIncompatible
  | livelinessChanged
  | requestedDeadlineMissed
  | messageLost
  | requestedQosIncompatible
  deriving DecidableEq

def EventType.kind : EventType → EventKind
  | .livelinessLost => .livelinessLost
  | .offeredDeadlineMissed => .deadlineMissed
  | .offeredQosIncompatible => .requestedQosCompatibility
  | .livelinessChanged => .livelinessChanged
  | .requestedDeadlineMissed => .deadlineMissed
  | .messageLost => .messageLost
  | .requestedQosIncompatible => .requestedQosCompatibility

structure EventData where
  type : EventType
  handle : Nat
  lastCount : Int
  lastAliveCount : Int
  lastNotAliveCount : Int

def eventInit (m : Monitor) (now : Nat) (type : EventType) : EventData × Monitor :=
  let r := createEvent m now type.kind
  (⟨type, r.1, 0, 0, 0⟩, r.2)

inductive Status
  | counted (total change : Int)
  | liveliness (alive notAlive aliveChange notAliveChange : Int)
  | untouched
  deriving DecidableEq

/-- The fields are 32 bits wide, except for lost messages, which are counted in a `size_t`. -/
def wrap32 (n : Int) : Int := Int.bmod n 4294967296

def sizeT (n : Int) : Int := n % 18446744073709551616

def fillStatus (type : EventType) (count change alive notAlive aliveChange notAliveChange : Int) : Status :=
  match type with
  | .livelinessLost | .requestedDeadlineMissed | .offeredDeadlineMissed =>
    .counted (wrap32 count) (wrap32 change)
  | .messageLost => .counted (sizeT count) (sizeT change)
  | .livelinessChanged =>
    .liveliness (wrap32 alive) (wrap32 notAlive) (wrap32 aliveChange) (wrap32 notAliveChange)
  | .offeredQosIncompatible | .requestedQosIncompatible => .untouched

def rmwTakeEvent (m : Monitor) (ev : EventData) : Option Status × Monitor × EventData :=
  match takeEvent m ev.handle with
  | (none, m) => (none, m, ev)
  | (some (count, _, alive, notAlive), m) =>
    (some (fillStatus ev.type count (wrap64 (count - ev.lastCount)) alive notAlive
        (wrap64 (alive - ev.lastAliveCount)) (wrap64 (notAlive - ev.lastNotAliveCount))),
      m, { ev with lastCount := count, lastAliveCount := alive, lastNotAliveCount := notAlive })

end Rmw

end RmwAxon.EventMonitor
