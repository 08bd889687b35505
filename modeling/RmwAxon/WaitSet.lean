import RmwAxon.Receive
import RmwAxon.Transition

namespace RmwAxon.WaitSet

open Option

abbrev Fd := Nat

/-- The messages of a topic, or the ring of the requests or of the responses of a service. -/
inductive Source
  | topic (t : Nat)
  | service (ring : Nat)
  deriving DecidableEq

/-- A subscription, a service or a client: where its data comes from, the variable with its next
number, and the descriptor that is signalled for it. -/
structure Entity where
  source : Source
  cursor : Nat
  fd : Option Fd
  deriving DecidableEq

structure Guard where
  id : Nat
  fd : Option Fd
  owns : Bool
  deriving DecidableEq

inductive Item
  | data (e : Entity)
  | guard (g : Guard)
  deriving DecidableEq

/-- The arguments of `rmw_wait`, and the setting AXON_WAIT_POLL_MS when it is a number. -/
structure Request where
  subscriptions : List (Option Entity)
  guards : List (Option Guard)
  services : List (Option Entity)
  clients : List (Option Entity)
  timeout : Option (Nat × Nat)
  pollMs : Option Int

def maxFds : Nat := 1024

def Request.items (r : Request) : List (Option Item) :=
  r.subscriptions.map (Option.map .data) ++ r.guards.map (Option.map .guard) ++
    r.services.map (Option.map .data) ++ r.clients.map (Option.map .data)

def Request.entities (r : Request) : List Entity :=
  (r.subscriptions ++ r.services ++ r.clients).filterMap id

def Request.guardList (r : Request) : List Guard := r.guards.filterMap id

def Request.pollCap (r : Request) : Nat :=
  match r.pollMs with
  | some n => if 0 ≤ n ∧ n ≤ 1000 then n.toNat else if r.services = [] ∧ r.clients = [] then 100 else 10
  | none => if r.services = [] ∧ r.clients = [] then 100 else 10

/-- The caller's timeout in milliseconds, computed in 64 bits; a negative result counts as zero. -/
def Request.userMs (r : Request) : Option Nat :=
  r.timeout.map fun t => (Int.bmod (t.1 * 1000 + t.2 / 1000000) 18446744073709551616).toNat

/-- The session with its rings and queues, the rings of services that can be opened, and the next
numbers of the entities. -/
structure Data where
  session : Session.World
  services : Nat → Option RingBuffer.Ring
  cursors : Nat → Nat

def Data.available (d : Data) (e : Entity) : Bool :=
  match e.source with
  | .topic t => Receive.dataAvailableFrom d.session t (d.cursors e.cursor)
  | .service i => (d.services i).any (RingBuffer.dataAvailableFrom · (d.cursors e.cursor))

/-- What the call shares with everybody else: the counters of the descriptors, the data, and the
flags of the guard conditions. -/
structure World where
  tokens : Fd → Nat
  data : Data
  flag : Nat → Bool

/-- A read takes one token from a semaphore and all of them from another descriptor. -/
def World.read (semaphore : Fd → Bool) (w : World) (fd : Fd) : World :=
  { w with tokens := fun x => if x = fd then if semaphore fd then w.tokens fd - 1 else 0 else w.tokens x }

/-- `outside` is whatever others do to the data: publishes, receptions and takes. -/
inductive Event
  | outside (d : Data)
  | post (fd : Fd)
  | read (fd : Fd)
  | set (id : Nat)
  | clear (id : Nat)

def World.apply (semaphore : Fd → Bool) (w : World) : Event → World
  | .outside d => { w with data := d }
  | .post fd => { w with tokens := fun x => if x = fd then w.tokens x + 1 else w.tokens x }
  | .read fd => w.read semaphore fd
  | .set i => { w with flag := fun x => if x = i then true else w.flag x }
  | .clear i => { w with flag := fun x => if x = i then false else w.flag x }

inductive Ret
  | ok
  | timeout
  | error
  deriving DecidableEq

inductive Task
  | drain (fd : Fd)
  | check (e : Entity)
  | exchange (g : Guard)
  | read (fd : Fd)
  | null
  deriving DecidableEq

inductive Phase
  | idle
  | scan (todo : List (Option Item))
  | bare (todo : List (Option Item))
  | poll
  | probe (todo : List Entity)
  | evaluate (todo : List Task)
  | done (r : Ret)
  deriving DecidableEq

/-- The local variables of the call. `out` are the pointers as they are left, and `cleared` the
guard conditions whose flag the call has reset. -/
structure State where
  world : World
  phase : Phase
  registered : List Fd
  ready : Bool
  remaining : Option Nat
  reported : List Fd
  drained : List Fd
  out : List (Option Item)
  cleared : List Guard

def start (r : Request) (d : Data) : State where
  world := ⟨fun _ => 0, d, fun _ => false⟩
  phase := .idle
  registered := []
  ready := false
  remaining := r.userMs
  reported := []
  drained := []
  out := []
  cleared := []

def addEpollFdOnce (registered : List Fd) (fd : Fd) : List Fd :=
  if maxFds ≤ registered.length ∨ fd ∈ registered then registered else registered ++ [fd]

def tasksOf (reported : List Fd) : Option Item → List Task
  | none => [.null]
  | some (.data e) => (e.fd.toList.filter (· ∈ reported)).map .drain ++ [.check e]
  | some (.guard g) => [.exchange g]

def tasks (r : Request) (reported : List Fd) : List Task := r.items.flatMap (tasksOf reported)

/-- One pointer is registered; `added` says whether `epoll_ctl` succeeds. -/
def scanItem (s : State) (added : Bool) : Option Item → State
  | none => s
  | some (.data e) =>
    match e.fd with
    | none => s
    | some fd =>
      { s with
        ready := s.ready || s.world.data.available e
        registered := if added then addEpollFdOnce s.registered fd else s.registered }
  | some (.guard g) =>
    match g.fd with
    | none => s
    | some fd => { s with registered := if added then addEpollFdOnce s.registered fd else s.registered }

/-- Without any descriptor only the data is looked at, and the guard conditions stay as they are. -/
def bareItem (s : State) : Option Item → Option Item
  | none => none
  | some (.data e) => if s.world.data.available e then some (.data e) else none
  | some (.guard g) => some (.guard g)

def slice (r : Request) (s : State) : Nat :=
  match s.remaining with
  | none => r.pollCap
  | some m => min m r.pollCap

def Item.isData : Item → Bool
  | .data _ => true
  | .guard _ => false

def anyDataLeft (out : List (Option Item)) : Bool := out.any (·.any Item.isData)

/-- The return code: the guard conditions do not count. -/
def code (r : Request) (s : State) : Ret :=
  if s.ready = false ∧ s.reported = [] ∧ anyDataLeft s.out = false then
    if r.timeout.isSome then .timeout else .ok
  else .ok

def signalled (s : State) (g : Guard) : Bool := g.owns && g.fd.any (· ∈ s.reported)

def evaluateTask (semaphore : Fd → Bool) (s : State) (rest : List Task) : Task → State
  | .drain fd =>
    if fd ∈ s.drained then { s with phase := .evaluate rest }
    else { s with phase := .evaluate rest, drained := fd :: s.drained, world := s.world.read semaphore fd }
  | .check e =>
    { s with
      phase := .evaluate rest
      out := s.out ++ [if s.world.data.available e then some (.data e) else none] }
  | .exchange g =>
    if s.world.flag g.id then
      { s with
        phase := .evaluate (g.fd.toList.map .read ++ rest)
        world := s.world.apply semaphore (.clear g.id)
        out := s.out ++ [some (.guard g)]
        cleared := g :: s.cleared }
    else if signalled s g then
      { s with phase := .evaluate (g.fd.toList.map .read ++ rest), out := s.out ++ [some (.guard g)] }
    else { s with phase := .evaluate rest, out := s.out ++ [none] }
  | .read fd => { s with phase := .evaluate rest, world := s.world.read semaphore fd }
  | .null => { s with phase := .evaluate rest, out := s.out ++ [none] }

def advance (semaphore : Fd → Bool) (r : Request) (s : State) : Option State :=
  match s.phase with
  | .idle => some { s with phase := .scan r.items }
  | .scan [] =>
    some { s with
      phase :=
        if s.registered = [] then .bare r.items
        else if s.ready then .evaluate (tasks r [])
        else .poll }
  | .scan (i :: t) =>
    -- the loops stop as soon as the table of descriptors is full
    if maxFds ≤ s.registered.length then some { s with phase := .scan [] }
    else some { scanItem s true i with phase := .scan t }
  | .bare [] => some { s with phase := .done .ok }
  | .bare (i :: t) => some { s with phase := .bare t, out := s.out ++ [bareItem s i] }
  | .probe [] =>
    match s.remaining with
    | none => some { s with phase := .poll }
    | some m =>
      let left := m - slice r s
      some { s with remaining := some left, phase := if left = 0 then .evaluate (tasks r []) else .poll }
  | .probe (e :: t) =>
    if s.world.data.available e then some { s with ready := true, phase := .evaluate (tasks r []) }
    else some { s with phase := .probe t }
  | .evaluate [] => some { s with phase := .done (code r s) }
  | .evaluate (t :: rest) => some (evaluateTask semaphore s rest t)
  | .poll => none
  | .done _ => none

/-- A step of the others, or of the call: `refuse` is a registration that `epoll_ctl` rejects, and
`report`, `expire`, `interrupt` and `fail` are the ways in which `epoll_wait` returns. -/
inductive Action
  | other (e : Event)
  | go
  | refuse
  | report
  | expire
  | interrupt
  | fail

def signalledFds (s : State) : List Fd := s.registered.filter fun fd => 0 < s.world.tokens fd

def step (semaphore : Fd → Bool) (r : Request) (s : State) : Action → Option State
  | .other e => some { s with world := s.world.apply semaphore e }
  | .go => advance semaphore r s
  | .refuse =>
    match s.phase with
    | .scan (i :: t) =>
      if maxFds ≤ s.registered.length then none else some { scanItem s false i with phase := .scan t }
    | _ => none
  | .report =>
    if s.phase = .poll ∧ signalledFds s ≠ [] then
      some { s with reported := signalledFds s, phase := .evaluate (tasks r (signalledFds s)) }
    else none
  | .expire =>
    if s.phase = .poll ∧ signalledFds s = [] then some { s with phase := .probe r.entities } else none
  | .interrupt => if s.phase = .poll then some s else none
  | .fail => if s.phase = .poll then some { s with phase := .done .error } else none

inductive Moves (semaphore : Fd → Bool) (r : Request) (s : State) : Action → State → Prop
  | other (e : Event) : Moves semaphore r s (.other e) { s with world := s.world.apply semaphore e }
  | call : s.phase = .idle → Moves semaphore r s .go { s with phase := .scan r.items }
  | full (todo : List (Option Item)) : s.phase = .scan todo →
      Moves semaphore r s .go { s with phase := .scan [] }
  | register (a : Action) (added : Bool) (i : Option Item) (todo : List (Option Item)) :
      s.phase = .scan (i :: todo) → Moves semaphore r s a { scanItem s added i with phase := .scan todo }
  | unregistered : s.phase = .scan [] → s.registered = [] →
      Moves semaphore r s .go { s with phase := .bare r.items }
  | known : s.phase = .scan [] → s.ready = true →
      Moves semaphore r s .go { s with phase := .evaluate (tasks r []) }
  | wait : s.phase = .scan [] → Moves semaphore r s .go { s with phase := .poll }
  | look (i : Option Item) (todo : List (Option Item)) : s.phase = .bare (i :: todo) →
      Moves semaphore r s .go { s with phase := .bare todo, out := s.out ++ [bareItem s i] }
  | leave : s.phase = .bare [] → Moves semaphore r s .go { s with phase := .done .ok }
  | again (left : Option Nat) : s.phase = .probe [] → (s.remaining = none → left = none) →
      Moves semaphore r s .go { s with remaining := left, phase := .poll }
  | late (m : Nat) : s.phase = .probe [] → s.remaining = some m → m ≤ slice r s →
      Moves semaphore r s .go { s with remaining := some 0, phase := .evaluate (tasks r []) }
  | hit (e : Entity) (todo : List Entity) : s.phase = .probe (e :: todo) → s.world.data.available e →
      Moves semaphore r s .go { s with ready := true, phase := .evaluate (tasks r []) }
  | miss (e : Entity) (todo : List Entity) : s.phase = .probe (e :: todo) →
      Moves semaphore r s .go { s with phase := .probe todo }
  | task (x : Task) (todo : List Task) : s.phase = .evaluate (x :: todo) →
      Moves semaphore r s .go (evaluateTask semaphore s todo x)
  | finish : s.phase = .evaluate [] → Moves semaphore r s .go { s with phase := .done (code r s) }
  | report : s.phase = .poll → signalledFds s ≠ [] → Moves semaphore r s .report
      { s with reported := signalledFds s, phase := .evaluate (tasks r (signalledFds s)) }
  | expire : s.phase = .poll → Moves semaphore r s .expire { s with phase := .probe r.entities }
  | interrupt : s.phase = .poll → Moves semaphore r s .interrupt s
  | fail : s.phase = .poll → Moves semaphore r s .fail { s with phase := .done .error }

section Moves

variable {semaphore : Fd → Bool} {r : Request} {s t : State}

theorem moves_of_advance (h : advance semaphore r s = some t) : Moves semaphore r s .go t := by
  unfold advance at h
  split at h
  next hp => exact some.inj h ▸ .call hp
  next hp =>
    obtain rfl := some.inj h
    split
    next hreg => exact .unregistered hp hreg
    next =>
      split
      next hr => exact .known hp hr
      next => exact .wait hp
  next i todo hp =>
    split at h
    next => exact some.inj h ▸ .full _ hp
    next => exact some.inj h ▸ .register _ true i todo hp
  next hp => exact some.inj h ▸ .leave hp
  next i todo hp => exact some.inj h ▸ .look i todo hp
  next hp =>
    split at h
    next hrem => exact some.inj h ▸ hrem ▸ .again none hp fun _ => rfl
    next m hrem =>
      obtain rfl := some.inj h
      by_cases hleft : m - slice r s = 0
      · simp only [hleft, if_true]
        exact .late m hp hrem (Nat.sub_eq_zero_iff_le.mp hleft)
      · simp only [hleft, if_false]
        exact .again _ hp (by simp [hrem])
  next e todo hp =>
    split at h
    next hpos => exact some.inj h ▸ .hit e todo hp hpos
    next => exact some.inj h ▸ .miss e todo hp
  next hp => exact some.inj h ▸ .finish hp
  next x todo hp => exact some.inj h ▸ .task x todo hp
  next => cases h
  next => cases h

theorem moves_of_step {a : Action} (h : step semaphore r s a = some t) : Moves semaphore r s a t := by
  cases a with
  | other e => exact some.inj h ▸ .other e
  | go => exact moves_of_advance h
  | refuse =>
    simp only [step] at h
    split at h
    next i todo hp =>
      split at h
      next => cases h
      next => exact some.inj h ▸ .register _ false i todo hp
    next => cases h
  | report =>
    simp only [step, ite_none_right_eq_some] at h
    exact some.inj h.2 ▸ .report h.1.1 h.1.2
  | expire =>
    simp only [step, ite_none_right_eq_some] at h
    exact some.inj h.2 ▸ .expire h.1.1
  | interrupt =>
    simp only [step, ite_none_right_eq_some] at h
    exact some.inj h.2 ▸ .interrupt h.1
  | fail =>
    simp only [step, ite_none_right_eq_some] at h
    exact some.inj h.2 ▸ .fail h.1

end Moves

section Lists

variable {r : Request} {e : Entity} {g : Guard} {reported : List Fd}

theorem data_mem_items : some (.data e) ∈ r.items ↔ e ∈ r.entities := by
  simp [Request.items, Request.entities]

theorem guard_mem_items : some (.guard g) ∈ r.items ↔ g ∈ r.guardList := by
  simp [Request.items, Request.guardList]

theorem exchange_mem_tasks : .exchange g ∈ tasks r reported ↔ g ∈ r.guardList := by
  rw [tasks, List.mem_flatMap]
  constructor
  · rintro ⟨i, hi, ht⟩
    cases i with
    | none => simp [tasksOf] at ht
    | some i =>
      cases i with
      | data e => simp [tasksOf] at ht
      | guard g' =>
        obtain rfl : g = g' := by simpa [tasksOf] using ht
        exact guard_mem_items.mp hi
  · intro h
    exact ⟨_, guard_mem_items.mpr h, by simp [tasksOf]⟩

end Lists

end RmwAxon.WaitSet
