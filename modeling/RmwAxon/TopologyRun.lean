import RmwAxon.PeerLiveness
import RmwAxon.TopologyFlag
import Mathlib.Algebra.Group.Nat.Defs

namespace RmwAxon.TopologyRun

open DaemonRun Departure Matching NodeTable PeerLiveness TopologyFlag Transition Option

variable {n : Nat} {table : Table n}

/-- The slots whose sessions have added an endpoint since the last pass over the
topics are kept for the statements only. -/
structure State (n : Nat) where
  table : Table n
  topologyChanged : Bool
  helloGen : Nat
  unseen : List (Fin n)

def start (n : Nat) : State n := ⟨emptyTable n, false, 1, []⟩

def Adds (e e' : NodeTableEntry) : Prop :=
  e.state = .active ∧ e.daemonOrigin = 0 ∧
    (e.publishedTopics.length < e'.publishedTopics.length ∨
      e.subscribedTopics.length < e'.subscribedTopics.length)
  deriving Decidable

/-- A revision of the topology is never 0. -/
def nextGeneration (g : Nat) : Nat :=
  if (g + 1) % 2 ^ 64 = 0 then 1 else (g + 1) % 2 ^ 64

inductive Event (n : Nat)
  | session (k : Fin n) (w : Write)
  | pass (p : Pass)
  | syncTopicUpdates
  | removeStalePeer (daemonId : Nat)
  | sendHello

/-- The passes of the monitor set the flag that the HELLO thread takes. The sync
thread runs the pass over the topics with a flag that nobody reads. -/
def step (st : State n) : Event n → Option (State n)
  | .session k w => (write (st.table k) w).map fun e =>
    { st with
      table := Function.update st.table k e
      unseen := if Adds (st.table k) e then k :: st.unseen else st.unseen }
  | .pass .pendingRegistrations => (processPendingRegistrations st.table).map fun table =>
    { st with
      table := table
      topologyChanged := st.topologyChanged ||
        (List.finRange n).any fun k => decide ((st.table k).state = .pending) }
  | .pass .topicUpdates => (processTopicUpdatesFlagged (st.table, st.topologyChanged)).map fun acc =>
    { st with table := acc.1, topologyChanged := acc.2, unseen := [] }
  | .pass (.departedNodes alive now) => some { st with
      table := processDepartedNodes alive now st.table
      topologyChanged := st.topologyChanged || departedChanged alive now st.table }
  | .pass p => (runPass st.table p).map fun table => { st with table := table }
  | .syncTopicUpdates => (processTopicUpdates st.table).map fun table => { st with table := table }
  | .removeStalePeer daemonId => some { st with
      table := PeerLiveness.removeStalePeer st.table daemonId
      topologyChanged := true }
  | .sendHello => some { st with
      topologyChanged := false
      helloGen := if st.topologyChanged then nextGeneration st.helloGen else st.helloGen }

theorem step_table {st st' : State n} {ev : Event n} (h : step st ev = some st') :
    st'.table = st.table ∨ (∃ a, DaemonRun.step st.table a = some st'.table) ∨
      ∃ daemonId, st'.table = PeerLiveness.removeStalePeer st.table daemonId := by
  cases ev with
  | session k w =>
    obtain ⟨e, hw, rfl⟩ := map_eq_some_iff.mp h
    exact .inr (.inl ⟨.session k w, map_eq_some_iff.mpr ⟨e, hw, rfl⟩⟩)
  | pass p =>
    refine .inr (.inl ⟨.pass p, ?_⟩)
    cases p with
    | topicUpdates =>
      obtain ⟨acc, hacc, rfl⟩ := map_eq_some_iff.mp h
      have hfst := processTopicUpdatesFlagged_fst (st.table, st.topologyChanged)
      rw [hacc] at hfst
      exact hfst.symm
    | pendingRegistrations =>
      obtain ⟨table, ht, rfl⟩ := map_eq_some_iff.mp h
      exact ht
    | departedNodes alive now | removeMatches deadNodeId | mergeRemote origin now nodes
    | mergeInline origin now nodes =>
      cases h
      rfl
  | syncTopicUpdates =>
    obtain ⟨table, ht, rfl⟩ := map_eq_some_iff.mp h
    exact .inr (.inl ⟨.pass .topicUpdates, ht⟩)
  | removeStalePeer daemonId =>
    cases h
    exact .inr (.inr ⟨daemonId, rfl⟩)
  | sendHello =>
    cases h
    exact .inl rfl

theorem reach_withinCapacity {st : State n} (h : Reach step anyStep (start n) st) (k : Fin n) :
    WithinCapacity (st.table k) := by
  refine h.invariant (I := fun st => ∀ k, WithinCapacity (st.table k))
    (fun _ => withinCapacity_blank ⟨0, 0, rfl⟩) (fun st ev st' hst _ hs => ?_) k
  rcases step_table hs with heq | ⟨a, ha⟩ | ⟨daemonId, heq⟩
  · exact heq ▸ hst
  · exact step_withinCapacity hst ha
  · rw [heq]
    exact (removeStalePeer_thinned st.table daemonId).lasting (withinCapacity_lasting []) hst

/-- The next pass over the topics comes upon an endpoint that a node of this host
has added. -/
def SeesEndpoint (st : State n) : Prop :=
  ∃ k ∈ st.unseen, (st.table k).state = .active ∧ (st.table k).daemonOrigin = 0
  deriving Decidable

/-- The pass sets the flag, and the HELLO after it has a new generation, exactly
if the flag was set before or a match is missing or dangling. -/
theorem new_endpoint_announced_iff {st : State n} (h : Reach step anyStep (start n) st)
    (_hsees : SeesEndpoint st) :
    ∃ st' st'', step st (.pass .topicUpdates) = some st' ∧ ¬ SeesEndpoint st' ∧
      step st' .sendHello = some st'' ∧
      (st'.topologyChanged = true ↔
        st.topologyChanged = true ∨ Unmatched st.table ∨ Dangling st.table) ∧
      (st''.helloGen = nextGeneration st.helloGen ↔
        st.topologyChanged = true ∨ Unmatched st.table ∨ Dangling st.table) := by
  obtain ⟨table, ht⟩ := runPass_total (reach_withinCapacity h) .topicUpdates
  have hfst := processTopicUpdatesFlagged_fst (st.table, st.topologyChanged)
  rw [show processTopicUpdates st.table = some table from ht] at hfst
  obtain ⟨acc, hacc, rfl⟩ := map_eq_some_iff.mp hfst
  have hflag := flag_iff hacc
  refine ⟨_, _, map_eq_some_iff.mpr ⟨acc, hacc, rfl⟩, ?_, rfl, hflag, ?_⟩
  · rintro ⟨k, hk, _⟩
    cases hk
  rw [← hflag]
  have hne : nextGeneration st.helloGen ≠ st.helloGen := by
    unfold nextGeneration
    split_ifs <;> omega
  by_cases hset : acc.2 = true
  · simp [hset]
  · simp [hset, Ne.symm hne]

/-- A session of its own is made active and announced. Then it adds an endpoint,
and another session that waits for that topic is there or not. -/
def talkerAdds (j : Fin n) (waiting : List (Event n)) : List (Event n) :=
  .session j (.register ⟨1, 0, 7, 0, 7001, [(10, 0, 0, 1)], 5⟩) :: waiting ++
    [.pass .pendingRegistrations, .pass .topicUpdates, .sendHello,
      .session j (.advertisePublished (plainTopic 7))]

def listenerWaits (k : Fin n) : List (Event n) :=
  [.session k (.register ⟨2, 0, 8, 0, 7002, [(10, 0, 0, 2)], 5⟩),
    .session k (.advertiseSubscribed (plainTopic 7))]

theorem matched_endpoint_announced :
    ∃ (st st' st'' : State 2), SeesEndpoint st ∧ st.topologyChanged = false ∧
      step st (.pass .topicUpdates) = some st' ∧ step st' .sendHello = some st'' ∧
      st'.topologyChanged = true ∧ st''.helloGen = nextGeneration st.helloGen := by
  have hrun : ∃ j k : Fin 2, (run step (talkerAdds j (listenerWaits k)) (start 2)).any (fun st =>
      decide (SeesEndpoint st ∧ st.topologyChanged = false ∧ Unmatched st.table)) = true := by
    decide +kernel
  obtain ⟨j, k, hrun⟩ := hrun
  obtain ⟨st, hst, hsees, hflag, hmissing⟩ := exists_of_any hrun
  obtain ⟨st', st'', hpass, _, hhello, hset, hgen⟩ :=
    new_endpoint_announced_iff (reach_of_run hst fun _ _ _ => trivial) hsees
  exact ⟨st, st', st'', hsees, hflag, hpass, hhello, hset.mpr (.inr (.inl hmissing)),
    hgen.mpr (.inr (.inl hmissing))⟩

/-- A node that adds an endpoint without a partner on its host is not announced. -/
theorem lone_endpoint_unannounced :
    ¬ ∀ (n : Nat) (st st' : State n), Reach step anyStep (start n) st → SeesEndpoint st →
      step st (.pass .topicUpdates) = some st' → st'.topologyChanged = true := by
  intro hall
  have hrun : ∃ j : Fin 1, (run step (talkerAdds j []) (start 1)).any (fun st =>
      decide (SeesEndpoint st ∧ (step st (.pass .topicUpdates)).any (fun st' =>
        decide (st'.topologyChanged = false)) = true)) = true := by
    decide +kernel
  obtain ⟨j, hrun⟩ := hrun
  obtain ⟨st, hst, hsees, hpass⟩ := exists_of_any hrun
  obtain ⟨st', hst', hclear⟩ := exists_of_any hpass
  have hset := hall 1 st st' (reach_of_run hst fun _ _ _ => trivial) hsees hst'
  rw [hclear] at hset
  cases hset

end RmwAxon.TopologyRun
