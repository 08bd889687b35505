import RmwAxon.AclSession
import RmwAxon.EventMonitor
import RmwAxon.Loan
import RmwAxon.PublisherQos
import RmwAxon.RemoteFanout

namespace RmwAxon.PublishPaths

open AclSession EventMonitor LocalPubSub PublisherQos RemoteFanout Function
open Acl (Glob)
open Cells (copyIn)
open RingBuffer RingHistory
open RetainedHistory (Entry)
open Session (World ringOf setRing publishOn pruneBelow pruneHandle pruneTopic)
open SubscriberQueue (Timestamps)

/-- The rate limiter of a topic. The time of its last refill is in
milliseconds after its start, the clock in nanoseconds. -/
structure LeakyBucket where
  maxTokens : Nat
  tokens : Nat
  lastRefill : Nat
  start : Nat

def saturate (n : Nat) : Nat := min n usizeMax

def LeakyBucket.nowMs (b : LeakyBucket) (now : Nat) : Nat := (now - b.start) / 1000000

def LeakyBucket.refilled (b : LeakyBucket) (now : Nat) : Nat :=
  let elapsed := b.nowMs now - b.lastRefill
  let added := if 0 < elapsed then saturate (elapsed * b.maxTokens) / 1000 else 0
  min (saturate (b.tokens + added)) b.maxTokens

def LeakyBucket.trySend (b : LeakyBucket) (now bytes : Nat) : Bool × LeakyBucket :=
  if b.refilled now < bytes then (false, b)
  else (true, { b with tokens := b.refilled now - bytes, lastRefill := b.nowMs now })

/-- A session with everything a publish call touches: the rules, the handles
and the tables of the session, the budgets, the monitor of the events, the
samples kept for remote readers and the tables of the remote peers. -/
structure State where
  session : AclSession.State
  budgets : Nat → Option LeakyBucket
  monitor : Option Monitor
  retained : Nat → List (Nat × Bytes)
  remote : RetainedHistory.Tables
  now : Nat

def State.world (s : State) : World := s.session.world

def State.tables (s : State) : Session.Tables := s.world.session

structure Env where
  glob : Glob
  entry : Entry
  order : List (Nat × Nat) → List (Nat × Nat)

structure Send where
  peer : Nat
  topic : Nat
  seq : Nat
  depth : Nat
  data : Bytes

structure Outcome (α : Type) where
  result : α
  state : State
  sends : List Send

def spend (budgets : Nat → Option LeakyBucket) (t now bytes : Nat) :
    Bool × (Nat → Option LeakyBucket) :=
  match budgets t with
  | none => (true, budgets)
  | some b => ((b.trySend now bytes).1, update budgets t (some (b.trySend now bytes).2))

def delivered (r : RetainedHistory.Tables) (t : Nat) : Bool :=
  decide (r.retainedRemotePeers t ≠ ∅ ∨ r.retainedRemotePending t ≠ ∅)

def note (s : State) (t gid : Nat) (m : Monitor) : Monitor :=
  let m := updateDeadlinePublishTime m s.now t gid
  if assertsLiveliness s.tables t then assertLiveliness m s.now s.tables.nodeId else m

/-- The live messages. The history that a synchronisation flushes to new peers
is not among them. -/
def forward (env : Env) (s : State) (t seq : Nat) (data : Bytes) : State × List Send :=
  if s.tables.quicTransport then
    ({ s with remote := syncDaemonMatches s.remote env.entry },
      (publishPeers s.remote env.entry env.order t).map fun peer =>
        ⟨peer, t, seq, publisherSendDepth s.tables t, data⟩)
  else (s, [])

def afterWrite (env : Env) (s : State) (t seq : Nat) (data : Bytes) (gid : Nat) : State × List Send :=
  let history := retainRemoteSample s.tables t (delivered s.remote t) (s.retained t) seq data
  let s := { s with
    retained := update s.retained t history
    monitor := s.monitor.map (note s t gid) }
  forward env s t seq data

def publishWithGid (env : Env) (s : State) (t : Nat) (data : Bytes) (gid : Nat) :
    Outcome (Except SendError Nat) :=
  let budget := spend s.budgets t s.now data.length
  let r := AclSession.publishWithGid env.glob s.session t s.now data gid budget.1
  let s := { s with
    session := r.2
    budgets := if allows env.glob s.session t then budget.2 else s.budgets }
  match r.1 with
  | .error e => ⟨.error e, s, []⟩
  | .ok seq => ⟨.ok seq, (afterWrite env s t seq data gid).1, (afterWrite env s t seq data gid).2⟩

def publishLoaned (s : State) (t maxSize : Nat) (data : Bytes) : Option (Outcome Bool) :=
  let b := borrowLoaned s.session t maxSize
  match b.1, b.2.world.session.publishers t with
  | some (ptr, _), some h =>
    let filled := setWorld b.2 (setRing b.2.world h (storeLoan (ringOf b.2.world h) ptr data))
    let c := commitLoaned filled t ptr data.length
    some ⟨c.1, { s with session := c.2 }, []⟩
  | _, _ => none

section Loan

variable {m : Ring} {loans : Loans} {n : Nat} {data : Bytes}

theorem updateSlot_slotIndex (m : Ring) (s : Nat) (f : Slot → Slot) :
    updateSlot m (slotIndex m s) f = updateSlot m s f := by
  simp only [updateSlot, slotAt, slotIndex_slotIndex]

theorem updateSlot_slotOfPtr (m : Ring) (s : Nat) (f g : Slot → Slot) :
    updateSlot (updateSlot m s f) (slotOfPtr (updateSlot m s f) (dataPtr m s)) g =
      updateSlot m s (fun c => g (f c)) := by
  have hslot : slotOfPtr (updateSlot m s f) (dataPtr m s) = slotIndex (updateSlot m s f) s :=
    slotOfPtr_dataPtr m s
  rw [hslot, updateSlot_slotIndex, updateSlot_updateSlot]

theorem borrowBuffer_some {r : Nat × Nat} (h : (borrowBuffer m loans n).1 = some r) :
    n ≤ payloadCapacity m ∧ borrowBuffer m loans n = (some (dataPtr m m.writeIndex, n),
      updateSlot (reserve m) m.writeIndex (fun c => { c with seq := none, len := 0 }),
      update loans (dataPtr m m.writeIndex) (some m.writeIndex)) := by
  rcases Loan.borrowBuffer_cases m loans n with hb | hb
  · rw [hb] at h
    cases h
  · refine ⟨?_, hb⟩
    by_contra hn
    simp [borrowBuffer, Nat.lt_of_not_le hn] at h

theorem dataPtr_mod (m : Ring) (s : Nat) (h : 0 < payloadCapacity m) :
    dataPtr m s % m.geometry.slotSize = slotDataOffset := by
  have hlt : slotDataOffset < m.geometry.slotSize := Nat.lt_of_sub_pos h
  rw [dataPtr, Nat.mul_comm, Nat.mul_add_mod, Nat.mod_eq_of_lt hlt]

/-- Borrow, store and commit leave the ring that the five stores of a write leave. -/
theorem commitBuffer_filled (hne : data ≠ []) (hfit : data.length ≤ payloadCapacity m) : commitBuffer
      (storeLoan (updateSlot (reserve m) m.writeIndex fun c => { c with seq := none, len := 0 })
        (dataPtr m m.writeIndex) data)
      (update loans (dataPtr m m.writeIndex) (some m.writeIndex))
      (dataPtr m m.writeIndex) data.length =
    (true, fillSlot (reserve m) m.writeIndex data, update loans (dataPtr m m.writeIndex) none) := by
  have hpos : 0 < data.length := List.length_pos_iff.mpr hne
  have hok : ¬ (dataPtr m m.writeIndex % m.geometry.slotSize ≠ slotDataOffset ∨
      payloadCapacity m < data.length) := by
    rw [dataPtr_mod m _ (hpos.trans_le hfit)]
    simpa using hfit
  have hstore : storeLoan (updateSlot (reserve m) m.writeIndex fun c => { c with seq := none, len := 0 })
      (dataPtr m m.writeIndex) data =
        updateSlot (reserve m) m.writeIndex fun c => ⟨none, 0, copyIn data c.data⟩ :=
    updateSlot_slotOfPtr (reserve m) m.writeIndex (fun c => { c with seq := none, len := 0 })
      fun c => { c with data := copyIn data c.data }
  rw [hstore, commitBuffer]
  refine (if_neg hok).trans ?_
  rw [update_self, update_idem, fillSlot_eq]
  have hlen := updateSlot_slotOfPtr (reserve m) m.writeIndex
    (fun c => ⟨none, 0, copyIn data c.data⟩) fun c => { c with len := asU32 data.length }
  have hseq := updateSlot_slotOfPtr (reserve m) m.writeIndex
    (fun c => ⟨none, asU32 data.length, copyIn data c.data⟩) fun c => { c with seq := some m.writeIndex }
  exact congrArg (fun r => (true, r, update loans (dataPtr m m.writeIndex) none))
    ((congrArg (storeSeq · _ _) hlen).trans hseq)

end Loan

theorem ringOf_setRing (w : World) (h : Nat) (m : Ring) : ringOf (setRing w h m) h = m := by
  simp only [ringOf, setRing, update_self]

def place (a : AclSession.State) (h : Nat) (m : Ring) (loans : Loans) : AclSession.State :=
  { setWorld a (setRing a.world h m) with loans := update a.loans h loans }

variable {a : AclSession.State}

theorem borrowLoaned_eq {t h : Nat} (hp : a.world.session.publishers t = some h) (n : Nat) :
    borrowLoaned a t n = ((borrowBuffer (ringOf a.world h) (a.loans h) n).1,
      place a h (borrowBuffer (ringOf a.world h) (a.loans h) n).2.1
        (borrowBuffer (ringOf a.world h) (a.loans h) n).2.2) := by
  simp only [borrowLoaned, hp, place]

theorem ringOf_place (a : AclSession.State) (h : Nat) (m : Ring) (loans : Loans) :
    ringOf (place a h m loans).world h = m := ringOf_setRing a.world h m

section Paths

variable {env : Env} {s : State} {t h n : Nat} {data : Bytes}

structure Committed (s : State) (h : Nat) (data : Bytes) (q : Outcome Bool) : Prop where
  fits : data.length ≤ payloadCapacity (ringOf s.world h)
  result : q.result = true
  sends : q.sends = []
  tables : q.state.tables = s.tables
  handles : q.state.world.handles = s.world.handles
  ring : ringOf q.state.world h =
    fillSlot (reserve (ringOf s.world h)) (ringOf s.world h).writeIndex data
  monitor : q.state.monitor = s.monitor
  retained : q.state.retained = s.retained

theorem publishLoaned_committed {q : Outcome Bool} (hh : s.tables.publishers t = some h)
    (hne : data ≠ []) (hn : data.length ≤ n) (hq : publishLoaned s t n data = some q) :
    Committed s h data q := by
  have hp : s.session.world.session.publishers t = some h := hh
  simp only [publishLoaned, borrowLoaned_eq hp] at hq
  cases hb : (borrowBuffer (ringOf s.session.world h) (s.session.loans h) n).1 with
  | none => simp [hb] at hq
  | some r =>
    obtain ⟨hcap, heq⟩ := borrowBuffer_some hb
    have hfit := hn.trans hcap
    have hcommit := @commitBuffer_filled (ringOf s.session.world h) (s.session.loans h) data hne hfit
    rw [heq] at hq
    generalize updateSlot (reserve (ringOf s.session.world h)) (ringOf s.session.world h).writeIndex
      (fun c => { c with seq := none, len := 0 }) = m at hq hcommit
    generalize update (s.session.loans h)
      (dataPtr (ringOf s.session.world h) (ringOf s.session.world h).writeIndex)
      (some (ringOf s.session.world h).writeIndex) = l at hq hcommit
    have hp' : (place s.session h m l).world.session.publishers t = some h := hp
    simp only [hp', Option.some.injEq] at hq
    subst hq
    generalize hf : setWorld (place s.session h m l) (setRing (place s.session h m l).world h
      (storeLoan (ringOf (place s.session h m l).world h)
        (dataPtr (ringOf s.session.world h) (ringOf s.session.world h).writeIndex) data)) = a
    have hpa : a.world.session.publishers t = some h := by rw [← hf]; exact hp
    have hring : ringOf a.world h = storeLoan m
        (dataPtr (ringOf s.session.world h) (ringOf s.session.world h).writeIndex) data := by
      rw [← hf, ringOf_place]
      exact ringOf_setRing ..
    have hloans : a.loans h = l := by rw [← hf]; exact update_self ..
    have hsession : a.world.session = s.tables := by rw [← hf]; rfl
    have hhandles : a.world.handles = s.world.handles := by rw [← hf]; rfl
    simp only [commitLoaned, hpa, hring, hloans, hcommit]
    exact ⟨hfit, rfl, rfl, hsession, hhandles, ringOf_place .., rfl, rfl⟩

def recordStamp (table : Timestamps) (n oldest now : Nat) : Timestamps :=
  if n % 128 = 0 then pruneBelow (update table n (some now)) oldest
  else update table n (some now)

def oldestNext (m : Ring) : Nat := m.writeIndex + 1 - slotCount m

def stamp (w : World) (t h now : Nat) (m : Ring) (n : Nat) : World where
  rings := update w.rings (w.handles h).segment m
  handles := update w.handles h { w.handles h with
    timestamps := update (w.handles h).timestamps n (some now) }
  session := { w.session with
    messageTimestamps := update w.session.messageTimestamps t
      (update (w.session.messageTimestamps t) n (some now)) }

theorem ringOf_stamp (w : World) (t h now : Nat) (m : Ring) (n : Nat) :
    ringOf (stamp w t h now m n) h = m := by
  simp [ringOf, stamp]

theorem publishWithGid_session {w : World} (hp : w.session.publishers t = some h) (now : Nat)
    (hfit : data.length ≤ payloadCapacity (ringOf w h)) :
    ∃ w', Session.publishWithGid w t now data 0 = (.ok (ringOf w h).writeIndex, w') ∧
      w'.session = { w.session with
        messageTimestamps := update w.session.messageTimestamps t
          (recordStamp (w.session.messageTimestamps t) (ringOf w h).writeIndex (oldestNext (ringOf w h))
            now) } ∧
      (w'.handles h).timestamps = recordStamp (w.handles h).timestamps (ringOf w h).writeIndex
        (oldestNext (ringOf w h)) now ∧
      ∃ r, ringOf w' h = fillSlot { ringOf w h with
        writeIndex := (ringOf w h).writeIndex + 1, readIndex := r } (ringOf w h).writeIndex data := by
  obtain ⟨r, hr⟩ := write_accepted hfit
  generalize hm : fillSlot { ringOf w h with
    writeIndex := (ringOf w h).writeIndex + 1, readIndex := r } (ringOf w h).writeIndex data = m at hr
  have hold : oldestAvailableSeq m = oldestNext (ringOf w h) := by
    rw [← hm]
    simp [oldestAvailableSeq, currentSeq, oldestNext, slotCount]
  have hon : publishOn w h now data 0 = (.ok (ringOf w h).writeIndex, { setRing w h m with
      handles := update w.handles h { w.handles h with
        timestamps := update (w.handles h).timestamps (ringOf w h).writeIndex (some now) } }) := by
    simp [publishOn, hr]
  have heq : Session.publishWithGid w t now data 0 = (.ok (ringOf w h).writeIndex,
      if (ringOf w h).writeIndex % 128 = 0 then
        pruneTopic (stamp w t h now m (ringOf w h).writeIndex) t h
          (oldestAvailableSeq (ringOf (stamp w t h now m (ringOf w h).writeIndex) h))
      else stamp w t h now m (ringOf w h).writeIndex) := by
    simp only [Session.publishWithGid, hp, hon]
    rfl
  rw [ringOf_stamp, hold] at heq
  refine ⟨_, heq, ?_⟩
  by_cases hmod : (ringOf w h).writeIndex % 128 = 0
  · simp only [hmod, if_true, recordStamp]
    refine ⟨?_, ?_, r, ?_⟩
    · simp [pruneTopic, stamp]
    · simp [pruneTopic, stamp, pruneHandle]
    · refine Eq.trans ?_ hm.symm
      simp [pruneTopic, pruneHandle, ringOf, stamp]
  · simp only [hmod, if_false, recordStamp]
    refine ⟨rfl, ?_, r, ?_⟩
    · simp [stamp]
    · rw [hm]
      exact ringOf_stamp ..

def InBudget (s : State) (t : Nat) (data : Bytes) : Prop :=
  ∀ b, s.budgets t = some b → data.length ≤ b.refilled s.now

theorem spend_eq_true : (spend s.budgets t s.now data.length).1 = true ↔ InBudget s t data := by
  unfold spend InBudget
  cases s.budgets t with
  | none => simp
  | some b =>
    simp only [LeakyBucket.trySend, Option.some.injEq, forall_eq']
    split_ifs with hb <;> simpa using hb

theorem publishWithGid_refused
    (hno : ¬ (allows env.glob s.session t = true ∧ InBudget s t data)) (seq : Nat) :
    (publishWithGid env s t data 0).result ≠ .ok seq := by
  have hr : ∃ e, (AclSession.publishWithGid env.glob s.session t s.now data 0
      (spend s.budgets t s.now data.length).1).1 = .error e := by
    rw [← spend_eq_true] at hno
    unfold AclSession.publishWithGid
    cases ha : allows env.glob s.session t with
    | false => exact ⟨_, rfl⟩
    | true =>
      have hb : (spend s.budgets t s.now data.length).1 = false := by
        simpa [ha] using hno
      rw [hb]
      exact ⟨_, rfl⟩
  obtain ⟨e, he⟩ := hr
  simp [publishWithGid, he]

structure Published (env : Env) (s : State) (t h : Nat) (data : Bytes)
    (p : Outcome (Except SendError Nat)) : Prop where
  result : p.result = .ok (ringOf s.world h).writeIndex
  timestamps : (p.state.world.handles h).timestamps = recordStamp (s.world.handles h).timestamps
    (ringOf s.world h).writeIndex (oldestNext (ringOf s.world h)) s.now
  messageTimestamps : p.state.tables.messageTimestamps = update s.tables.messageTimestamps t
    (recordStamp (s.tables.messageTimestamps t) (ringOf s.world h).writeIndex
      (oldestNext (ringOf s.world h)) s.now)
  ring : ∃ r, ringOf p.state.world h = fillSlot { ringOf s.world h with
    writeIndex := (ringOf s.world h).writeIndex + 1, readIndex := r } (ringOf s.world h).writeIndex data
  monitor : p.state.monitor = s.monitor.map (note s t 0)
  retained : p.state.retained = update s.retained t
    (retainRemoteSample s.tables t (delivered s.remote t) (s.retained t) (ringOf s.world h).writeIndex data)
  peers : p.sends.map Send.peer =
    if s.tables.quicTransport then publishPeers s.remote env.entry env.order t else []

theorem forward_frame (env : Env) (s : State) (t seq : Nat) (data : Bytes) :
    (forward env s t seq data).1.session = s.session ∧ (forward env s t seq data).1.monitor = s.monitor ∧
      (forward env s t seq data).1.retained = s.retained ∧
      (forward env s t seq data).2.map Send.peer =
        if s.tables.quicTransport then publishPeers s.remote env.entry env.order t else [] := by
  unfold forward
  split
  · exact ⟨rfl, rfl, rfl, by simp [comp_def]⟩
  · exact ⟨rfl, rfl, rfl, rfl⟩

theorem publishWithGid_published (hh : s.tables.publishers t = some h)
    (ha : allows env.glob s.session t = true) (hb : InBudget s t data)
    (hfit : data.length ≤ payloadCapacity (ringOf s.world h)) :
    Published env s t h data (publishWithGid env s t data 0) := by
  obtain ⟨w, hw, hsession, hstamps, hring⟩ := publishWithGid_session hh s.now hfit
  have hr : AclSession.publishWithGid env.glob s.session t s.now data 0
      (spend s.budgets t s.now data.length).1 =
        (.ok (ringOf s.world h).writeIndex, setWorld s.session w) := by
    have hw' : Session.publishWithGid s.session.world t s.now data 0 = _ := hw
    simp only [AclSession.publishWithGid, ha, spend_eq_true.mpr hb, Bool.true_eq_false, if_false, hw']
  have hq : w.session.quicTransport = s.tables.quicTransport := by rw [hsession]; rfl
  have hqos : cachedQos w.session t = cachedQos s.tables t := by rw [hsession]; rfl
  have hnode : w.session.nodeId = s.tables.nodeId := by rw [hsession]; rfl
  have hnote : note { s with session := setWorld s.session w } t 0 = note s t 0 := by
    funext m
    have ht : State.tables { s with session := setWorld s.session w } = w.session := rfl
    simp only [note, assertsLiveliness, ht, hqos, hnode]
    rfl
  obtain ⟨hs, hm, hret, hpeers⟩ := forward_frame env { s with
    session := setWorld s.session w
    budgets := (spend s.budgets t s.now data.length).2
    retained := update s.retained t (retainRemoteSample w.session t (delivered s.remote t)
      (s.retained t) (ringOf s.world h).writeIndex data)
    monitor := s.monitor.map (note { s with session := setWorld s.session w } t 0) } t
      (ringOf s.world h).writeIndex data
  have hworld : (publishWithGid env s t data 0).state.world = w := by
    simp only [publishWithGid, hr, ha]
    exact congrArg AclSession.State.world hs
  refine ⟨?_, ?_, ?_, ?_, ?_, ?_, ?_⟩
  · simp only [publishWithGid, hr]
  · rw [hworld]
    exact hstamps
  · rw [State.tables, hworld, hsession]
    rfl
  · rw [hworld]
    exact hring
  · simp only [publishWithGid, hr, ha]
    refine hm.trans ?_
    rw [hnote]
  · simp only [publishWithGid, hr, ha]
    refine hret.trans ?_
    simp only [retainRemoteSample, hqos]
  simp only [publishWithGid, hr, ha]
  refine hpeers.trans ?_
  rw [← hq]
  rfl

end Paths

end RmwAxon.PublishPaths
