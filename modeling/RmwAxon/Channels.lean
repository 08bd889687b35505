import RmwAxon.Advertised
import RmwAxon.Departure
import RmwAxon.LocalSlots

namespace RmwAxon.Channels

open Departure Matching MatchPass NodeTable Function List
open Advertised (Advert Live Owner)
open DaemonRun (Pass Registration runPass)
open PeerSync (PeerNodeInfo)

variable {n : Nat} {table table' : Table n} {alive : Nat → Nat → Bool} {now : Nat}

abbrev Channel := Nat × Nat

def advertisedHashes (e : NodeTableEntry) : List Nat :=
  (e.publishedTopics.take maxTopicsPerNode ++ e.subscribedTopics.take maxTopicsPerNode).map
    TopicEntry.hash

def slotChannels (e : NodeTableEntry) : List Channel :=
  if e.state = .empty ∨ e.daemonOrigin ≠ 0 then []
  else ((advertisedHashes e).filter (· ≠ 0)).map fun hash => (e.domainId, hash)

def localChannels (table : Table n) : List Channel :=
  (List.finRange n).flatMap fun k => slotChannels (table k)

def unlinkedChannels (alive : Nat → Nat → Bool) (now : Nat) (table : Table n) : List Channel :=
  if departedChanged alive now table then
    (localChannels table).filter fun c =>
      !(localChannels (processDepartedNodes alive now table)).contains c
  else []

theorem mem_localChannels {c : Channel} :
    c ∈ localChannels table ↔ ∃ k, isOccupied (table k) = true ∧ (table k).daemonOrigin = 0 ∧
      c.1 = (table k).domainId ∧ c.2 ≠ 0 ∧ c.2 ∈ advertisedHashes (table k) := by
  simp only [localChannels, mem_flatMap, mem_finRange, true_and]
  refine exists_congr fun k => ?_
  simp only [slotChannels, isOccupied]
  by_cases hskip : (table k).state = .empty ∨ (table k).daemonOrigin ≠ 0
  · simp only [if_pos hskip, not_mem_nil, false_iff]
    rintro ⟨hocc, horigin, _⟩
    rcases hskip with h | h
    · simp [h] at hocc
    · exact h horigin
  · rw [if_neg hskip]
    simp only [not_or, not_not] at hskip
    rw [mem_map]
    constructor
    · rintro ⟨hash, hmem, rfl⟩
      obtain ⟨hmem, hne⟩ := mem_filter.mp hmem
      exact ⟨by simpa using hskip.1, hskip.2, rfl, by simpa using hne, hmem⟩
    · rintro ⟨_, _, hdomain, hne, hmem⟩
      exact ⟨c.2, mem_filter.mpr ⟨hmem, by simpa using hne⟩, Prod.ext hdomain.symm rfl⟩

theorem mem_unlinkedChannels {c : Channel} (h : c ∈ unlinkedChannels alive now table) :
    c ∈ localChannels table ∧ c ∉ localChannels (processDepartedNodes alive now table) := by
  unfold unlinkedChannels at h
  split_ifs at h
  · simpa using h
  · cases h

/-- A session whose process is running. One that has found no daemon or no free
slot goes on without a slot. The endpoints are kept for the statements only. -/
structure LiveSession (n : Nat) where
  slot : Option (Fin n)
  domainId : Nat
  pid : Nat
  procStarttime : Nat
  endpoints : List Live

def endpointTopics (l : Live) : List Nat :=
  (l.published.map Advert.hash).toList ++ (l.subscribed.map Advert.hash).toList

def LiveSession.topics (s : LiveSession n) : List Nat := s.endpoints.flatMap endpointTopics

structure State (n : Nat) where
  table : Table n
  sessions : List (LiveSession n)

def start (n : Nat) : State n := ⟨emptyTable n, []⟩

inductive Event (n : Nat)
  | register (k : Fin n) (r : Registration)
  | fallBack (domainId pid procStarttime : Nat)
  | create (i : Nat) (owner : Owner) (l : Live)
  | destroy (i : Nat) (l : Live)
  | setNodeName (i : Nat) (name namespace_ : Text)
  | close (i : Nat)
  | crash (i : Nat)
  | pass (p : Pass)

def allAlive (alive : Nat → Nat → Bool) (sessions : List (LiveSession n)) : Prop :=
  ∀ s ∈ sessions, alive s.pid s.procStarttime = true

instance (alive : Nat → Nat → Bool) (sessions : List (LiveSession n)) :
    Decidable (allAlive alive sessions) := inferInstanceAs (Decidable (∀ s ∈ sessions, _))

def writeSlot (table : Table n) (slot : Option (Fin n)) (f : NodeTableEntry → NodeTableEntry) : Table n :=
  slot.elim table fun k => update table k (f (table k))

/-- A process has a number other than 0. -/
def step (st : State n) : Event n → Option (State n)
  | .register k r =>
    if (st.table k).state = .empty ∧ 0 < r.pid then
      some ⟨update st.table k (DaemonRun.register r (st.table k)),
        st.sessions ++ [⟨some k, r.domainId, r.pid, r.procStarttime, []⟩]⟩
    else none
  | .fallBack domainId pid procStarttime =>
    some { st with sessions := st.sessions ++ [⟨none, domainId, pid, procStarttime, []⟩] }
  | .create i owner l =>
    st.sessions[i]?.map fun s =>
      ⟨writeSlot st.table s.slot fun e => Advertised.register owner e l,
        st.sessions.set i { s with endpoints := l :: s.endpoints }⟩
  | .destroy i l =>
    st.sessions[i]?.map fun s =>
      { st with sessions := st.sessions.set i { s with endpoints := s.endpoints.erase l } }
  | .setNodeName i name namespace_ =>
    st.sessions[i]?.map fun s =>
      { st with table := writeSlot st.table s.slot fun e => { e with
          nodeName := copyStr maxNodeNameLen name
          nodeNamespace := copyStr maxNodeNsLen namespace_ } }
  | .close i =>
    st.sessions[i]?.map fun s =>
      ⟨writeSlot st.table s.slot fun e => { e with state := .leaving }, st.sessions.eraseIdx i⟩
  | .crash i => st.sessions[i]?.map fun _ => { st with sessions := st.sessions.eraseIdx i }
  | .pass p => (runPass st.table p).map fun table => { st with table := table }

def NotOverdue (now : Nat) (e : NodeTableEntry) : Prop := e.state = .pending → InGrace now e

instance (now : Nat) : DecidablePred (NotOverdue now) :=
  fun _ => inferInstanceAs (Decidable (_ → _))

structure Held (s : LiveSession n) (e : NodeTableEntry) : Prop where
  state : e.state = .pending ∨ e.state = .active
  daemonOrigin : e.daemonOrigin = 0
  domainId : e.domainId = s.domainId
  pid : e.pid = s.pid
  procStarttime : e.procStarttime = s.procStarttime
  running : 0 < e.pid
  topics : ∀ t ∈ s.topics, t ∈ advertisedHashes e

namespace Held

variable {s : LiveSession n} {e e' : NodeTableEntry}

variable (h : Held s e)
include h

theorem occupied : isOccupied e = true := by
  rcases h.state with hs | hs <;> simp [isOccupied, hs]

theorem congr (hsame : SameNode e e') : Held s e' where
  state := hsame.state ▸ h.state
  daemonOrigin := hsame.daemonOrigin ▸ h.daemonOrigin
  domainId := hsame.domainId ▸ h.domainId
  pid := (hsame.field (·.pid) fun _ => rfl).trans h.pid
  procStarttime := (hsame.field (·.procStarttime) fun _ => rfl).trans h.procStarttime
  running := (hsame.field (·.pid) fun _ => rfl).symm ▸ h.running
  topics := fun t ht => (hsame.field advertisedHashes fun _ => rfl).symm ▸ h.topics t ht

theorem seat : Held s (seat e) where
  state := by
    simp only [Departure.seat]
    split_ifs
    · exact .inr rfl
    · exact h.state
  daemonOrigin := h.daemonOrigin
  domainId := h.domainId
  pid := h.pid
  procStarttime := h.procStarttime
  running := h.running
  topics := h.topics

theorem seen (t : Nat) : Held s { e with lastSeenSecs := t } :=
  ⟨h.state, h.daemonOrigin, h.domainId, h.pid, h.procStarttime, h.running, h.topics⟩

theorem testDeparted (halive : alive s.pid s.procStarttime = true)
    (hgrace : NotOverdue now e) : Held s (testDeparted alive now e) := by
  rcases h.state with hs | hs
  · rw [testDeparted_of_inGrace (hgrace hs)]
    exact h
  · rw [testDeparted_of_alive hs h.running (by rw [h.pid, h.procStarttime]; exact halive)]
    exact h.seen now

end Held

def Fits (topics : List TopicEntry) (e : NodeTableEntry) (a : Advert) : Prop :=
  topics.length < maxTopicsPerNode ∨ a.hash ∈ advertisedHashes e
  deriving Decidable

def Announces (l : Live) (e : NodeTableEntry) : Prop :=
  (∀ a ∈ l.published, Fits e.publishedTopics e a) ∧ ∀ a ∈ l.subscribed, Fits e.subscribedTopics e a
  deriving Decidable

def ForSlots (p : NodeTableEntry → Prop) (st : State n) : Prop :=
  ∀ s ∈ st.sessions, ∀ k ∈ s.slot, p (st.table k)

instance (p : NodeTableEntry → Prop) [DecidablePred p] (st : State n) : Decidable (ForSlots p st) :=
  inferInstanceAs (Decidable (∀ s ∈ st.sessions, _))

def Unlisted (nodes : List PeerNodeInfo) (e : NodeTableEntry) : Prop :=
  e.nodeId ∉ nodes.map PeerNodeInfo.nodeId

instance (nodes : List PeerNodeInfo) : DecidablePred (Unlisted nodes) :=
  fun e => inferInstanceAs (Decidable (e.nodeId ∉ _))

/-- Endpoints are created by sessions with a slot, which has room for them; a
departure pass finds every session's process alive and none that waits for more
than two seconds, and no merge names a session's number. -/
def careful (st : State n) : Event n → Prop
  | .create i _ l => ∀ s ∈ st.sessions[i]?, ∃ k ∈ s.slot, Announces l (st.table k)
  | .pass (.departedNodes alive now) => allAlive alive st.sessions ∧ ForSlots (NotOverdue now) st
  | .pass (.mergeRemote origin _ nodes) => origin = 0 ∨ ForSlots (Unlisted nodes) st
  | .pass (.mergeInline origin _ nodes) => origin ≠ 0 ∧ ForSlots (Unlisted nodes) st
  | _ => True

end RmwAxon.Channels
