import RmwAxon.MergeRounds
import RmwAxon.PendingPass

namespace RmwAxon.DaemonRun

open Loops Matching MatchPass MergeRounds NodeTable PendingPass Transition Function List Option
open PeerSync (PeerNodeInfo fillEntry mergeRemoteNodes)
open InlineMerge (inlineMerge)

variable {n : Nat} {table table' : Table n}

inductive Pass
  | pendingRegistrations
  | topicUpdates
  | departedNodes (alive : Nat → Nat → Bool) (now : Nat)
  | removeMatches (deadNodeId : Nat)
  | mergeRemote (origin now : Nat) (nodes : List PeerNodeInfo)
  | mergeInline (origin now : Nat) (nodes : List PeerNodeInfo)

def runPass (table : Table n) : Pass → Option (Table n)
  | .pendingRegistrations => processPendingRegistrations table
  | .topicUpdates => processTopicUpdates table
  | .departedNodes alive now => some (processDepartedNodes alive now table)
  | .removeMatches deadNodeId => some (removeMatchesForNode table deadNodeId)
  | .mergeRemote origin now nodes => some (mergeRemoteNodes origin now nodes table)
  | .mergeInline origin now nodes => some (inlineMerge origin now nodes table)

structure Registration where
  nodeId : Nat
  domainId : Nat
  pid : Nat
  procStarttime : Nat
  quicPort : Nat
  quicAddrs : List Addr
  lastSeenSecs : Nat

def register (r : Registration) (e : NodeTableEntry) : NodeTableEntry :=
  { e with
    state := .pending
    nodeId := r.nodeId
    domainId := r.domainId
    pid := r.pid
    procStarttime := r.procStarttime
    quicPort := r.quicPort
    quicAddrs := r.quicAddrs.take maxQuicAddrs
    publishedTopics := []
    subscribedTopics := []
    remoteMatches := []
    lastSeenSecs := r.lastSeenSecs }

def advertise (topics : List TopicEntry) (t : TopicEntry) : List TopicEntry :=
  if topics.length < maxTopicsPerNode then topics ++ [t] else topics

inductive Write
  | register (r : Registration)
  | advertisePublished (t : TopicEntry)
  | advertiseSubscribed (t : TopicEntry)
  | setNodeName (name namespace_ : Text)
  | leave

def write (e : NodeTableEntry) : Write → Option NodeTableEntry
  | .register r => if e.state = .empty then some (register r e) else none
  | .advertisePublished t => some { e with publishedTopics := advertise e.publishedTopics t }
  | .advertiseSubscribed t => some { e with subscribedTopics := advertise e.subscribedTopics t }
  | .setNodeName name namespace_ => some { e with
      nodeName := copyStr maxNodeNameLen name
      nodeNamespace := copyStr maxNodeNsLen namespace_ }
  | .leave => some { e with state := .leaving }

inductive Event (n : Nat)
  | session (k : Fin n) (w : Write)
  | pass (p : Pass)

def step (table : Table n) : Event n → Option (Table n)
  | .session k w => (write (table k) w).map (update table k)
  | .pass p => runPass table p

structure WithinCapacity (e : NodeTableEntry) : Prop where
  remoteMatches : e.remoteMatches.length ≤ maxMatches
  publishedTopics : e.publishedTopics.length ≤ maxTopicsPerNode
  subscribedTopics : e.subscribedTopics.length ≤ maxTopicsPerNode
  quicAddrs : e.quicAddrs.length ≤ maxQuicAddrs

variable {e e' : NodeTableEntry}

theorem WithinCapacity.congr (h : WithinCapacity e) (hsame : SameNode e e')
    (hms : e'.remoteMatches.length ≤ maxMatches) : WithinCapacity e' where
  remoteMatches := hms
  publishedTopics := hsame.publishedTopics ▸ h.publishedTopics
  subscribedTopics := hsame.subscribedTopics ▸ h.subscribedTopics
  quicAddrs := hsame.quicAddrs ▸ h.quicAddrs

theorem withinCapacity_blank (h : Blank e) : WithinCapacity e := by
  obtain ⟨port, start, rfl⟩ := h
  exact ⟨Nat.zero_le _, Nat.zero_le _, Nat.zero_le _, Nat.zero_le _⟩

theorem WithinCapacity.pruned {lost : MatchEntry → Prop} (hp : Pruned lost e e') (h : WithinCapacity e) :
    WithinCapacity e' :=
  h.congr hp.same (hp.fewer.length_le.trans h.remoteMatches)

theorem withinCapacity_lasting (nodes : List PeerNodeInfo) : Lasting nodes WithinCapacity where
  blank := fun _ => withinCapacity_blank
  pruned := fun _ _ _ => WithinCapacity.pruned
  filled := by
    intro origin now node _ e start h
    refine ⟨h.remoteMatches, ?_, ?_, length_take_le ..⟩
    · simp only [fillEntry, length_map]
      exact length_take_le ..
    · simp only [fillEntry, length_map]
      exact length_take_le ..

theorem length_advertise_le {topics : List TopicEntry} (h : topics.length ≤ maxTopicsPerNode)
    (t : TopicEntry) : (advertise topics t).length ≤ maxTopicsPerNode := by
  unfold advertise
  split_ifs with hlt
  · rw [length_append, length_singleton]
    omega
  · exact h

theorem write_withinCapacity (h : WithinCapacity e) {w : Write}
    (hw : write e w = some e') : WithinCapacity e' := by
  cases w with
  | register r =>
    simp only [write] at hw
    split_ifs at hw
    cases hw
    exact ⟨Nat.zero_le _, Nat.zero_le _, Nat.zero_le _, length_take_le ..⟩
  | advertisePublished t =>
    cases hw
    exact ⟨h.remoteMatches, length_advertise_le h.publishedTopics t, h.subscribedTopics, h.quicAddrs⟩
  | advertiseSubscribed t =>
    cases hw
    exact ⟨h.remoteMatches, h.publishedTopics, length_advertise_le h.subscribedTopics t, h.quicAddrs⟩
  | setNodeName | leave =>
    cases hw
    exact ⟨h.remoteMatches, h.publishedTopics, h.subscribedTopics, h.quicAddrs⟩

section Departed

variable {alive : Nat → Nat → Bool} {now : Nat}

theorem testDeparted_cases (alive : Nat → Nat → Bool) (now : Nat) (e : NodeTableEntry) :
    Blank (testDeparted alive now e) ∨
      ∃ seen, testDeparted alive now e = { e with lastSeenSecs := seen } := by
  have hclear : ∀ e, Blank (clearDeparted e) := fun e => ⟨e.quicPort, 0, rfl⟩
  have hfirst : Blank (afterFirstTest alive now e) ∨
      ∃ seen, afterFirstTest alive now e = { e with lastSeenSecs := seen } := by
    unfold afterFirstTest
    split_ifs
    · exact .inl (hclear e)
    · exact .inl (hclear e)
    · exact .inr ⟨e.lastSeenSecs, rfl⟩
    · exact .inl (hclear e)
    · exact .inr ⟨now, rfl⟩
    · exact .inl (hclear e)
    · exact .inr ⟨e.lastSeenSecs, rfl⟩
  unfold testDeparted afterSecondTest
  split_ifs
  · exact .inl (hclear _)
  · exact hfirst

theorem processDepartedNodes_cases (table : Table n) (k : Fin n) :
    ∃ lost, (∃ e, Blank e ∧ Pruned lost e (processDepartedNodes alive now table k)) ∨
      ∃ seen, Pruned lost { table k with lastSeenSecs := seen } (processDepartedNodes alive now table k) := by
  have hpruned := removes_pruned daemon_removeMatches_pruned
    (clearedNodeIds table fun k => testDeparted alive now (table k))
    (fun k => testDeparted alive now (table k)) k
  rcases testDeparted_cases alive now (table k) with hblank | ⟨seen, hseen⟩
  · exact ⟨_, .inl ⟨_, hblank, hpruned⟩⟩
  · exact ⟨_, .inr ⟨seen, hseen ▸ hpruned⟩⟩

end Departed

theorem processTopicUpdates_keeps {P : Fin n → List MatchEntry → Prop} (hstable : Stable table P)
    (hP : ∀ x, P x (table x).remoteMatches) (h : processTopicUpdates table = some table') :
    ∃ mid lost, Keeps table P mid ∧ ∀ k, Pruned lost (mid k) (table' k) := by
  obtain ⟨mid, hmid, rfl⟩ := map_eq_some_iff.mp h
  refine ⟨mid, fun m => (activeNodeIds mid).contains m.nodeId = false,
    matchTopics_keeps hstable ⟨SameNodes.refl table, hP⟩ hmid, fun k => ?_⟩
  simp only [dropInactive]
  split_ifs
  · exact .refl _ _
  · exact compactMatches_pruned _ (Nat.min_le_left ..) (Nat.le_refl _)

theorem stable_bounded (base : Table n) : Stable base fun _ => Bounded :=
  fun _ _ _ _ _ h => length_enlarge_le h

section

variable (h : ∀ k, WithinCapacity (table k))
include h

theorem processTopicUpdates_withinCapacity
    (hp : processTopicUpdates table = some table') (k : Fin n) : WithinCapacity (table' k) := by
  obtain ⟨mid, _, hmid, hpruned⟩ := processTopicUpdates_keeps (stable_bounded table)
    (fun x => (h x).remoteMatches) hp
  exact ((h k).congr (hmid.nodes k) (hmid.lists k)).pruned (hpruned k)

theorem activated_withinCapacity (i k : Fin n) : WithinCapacity (activated table i k) := by
  refine (forall_update_iff table fun _ => WithinCapacity).mpr ⟨?_, fun j _ => h j⟩ k
  exact ⟨(h i).remoteMatches, (h i).publishedTopics, (h i).subscribedTopics, (h i).quicAddrs⟩

theorem processPendingRegistration_withinCapacity {i : Fin n}
    (hp : processPendingRegistration table i = some table') (k : Fin n) :
    WithinCapacity (table' k) := by
  by_cases hpend : (table i).state = .pending
  · obtain ⟨r, hr, rfl⟩ := processPendingRegistration_keeps (stable_bounded _)
      (fun x => (h x).remoteMatches) hpend hp
    have hrest : ∀ k, WithinCapacity (r k) := fun k =>
      (activated_withinCapacity h i k).congr (hr.nodes k) (hr.lists k)
    refine (forall_update_iff r fun _ => WithinCapacity).mpr ⟨?_, fun j _ => hrest j⟩ k
    refine (hrest i).congr rfl ?_
    exact Nat.le_trans (length_filter_le ..) (bounded_collected _ i)
  · simp only [processPendingRegistration, hpend, if_false, some.injEq] at hp
    exact hp ▸ h k

theorem runPass_withinCapacity {p : Pass}
    (hp : runPass table p = some table') (k : Fin n) : WithinCapacity (table' k) := by
  cases p with
  | pendingRegistrations =>
    exact foldlM_invariant (I := fun t : Table n => ∀ k, WithinCapacity (t k))
      (fun _ _ _ _ ht => processPendingRegistration_withinCapacity ht) h hp k
  | topicUpdates => exact processTopicUpdates_withinCapacity h hp k
  | departedNodes alive now =>
    cases hp
    obtain ⟨_, ⟨e, hblank, hpruned⟩ | ⟨seen, hpruned⟩⟩ := processDepartedNodes_cases table k
    · exact (withinCapacity_blank hblank).pruned hpruned
    · refine WithinCapacity.pruned hpruned ?_
      exact ⟨(h k).remoteMatches, (h k).publishedTopics, (h k).subscribedTopics, (h k).quicAddrs⟩
  | removeMatches deadNodeId =>
    cases hp
    exact (h k).pruned (daemon_removeMatches_pruned table deadNodeId k)
  | mergeRemote origin now nodes =>
    cases hp
    exact mergeRemoteNodes_lasting (withinCapacity_lasting nodes) h k
  | mergeInline origin now nodes =>
    cases hp
    exact (inlineMerge_merged nodes table).lasting (withinCapacity_lasting nodes) h k

theorem step_withinCapacity {a : Event n}
    (ha : step table a = some table') (k : Fin n) : WithinCapacity (table' k) := by
  cases a with
  | session j w =>
    obtain ⟨e, he, rfl⟩ := map_eq_some_iff.mp ha
    exact (forall_update_iff table fun _ => WithinCapacity).mpr
      ⟨write_withinCapacity (h j) he, fun i _ => h i⟩ k
  | pass p => exact runPass_withinCapacity h ha k

theorem processPendingRegistrations_total : ∃ table', processPendingRegistrations table = some table' := by
  refine Exists.imp (fun _ hr => hr.1)
    (foldlM_total (I := fun t : Table n => ∀ k, WithinCapacity (t k)) (fun i _ t ht => ?_) h)
  obtain ⟨t', ht'⟩ := processPendingRegistration_total
    (fun k => ⟨(ht k).publishedTopics, (ht k).subscribedTopics⟩) i
  exact ⟨t', ht', processPendingRegistration_withinCapacity ht ht'⟩

/-- With counts within the arrays every pass comes to its end. -/
theorem runPass_total (p : Pass) : ∃ table', runPass table p = some table' := by
  cases p with
  | pendingRegistrations => exact processPendingRegistrations_total h
  | topicUpdates =>
    have hrange : TopicsInRange table := fun k => ⟨(h k).publishedTopics, (h k).subscribedTopics⟩
    obtain ⟨mid, hmid⟩ := isSome_iff_exists.mp hrange.matchTopics_isSome
    exact ⟨dropInactive mid, by rw [runPass, processTopicUpdates, hmid, map_some]⟩
  | departedNodes | removeMatches | mergeRemote | mergeInline => exact ⟨_, rfl⟩

end

/-- From the empty table on all counts stay within their arrays, and no pass
leaves an array. -/
theorem counts_within_arrays (n : Nat) {table : Table n} (h : Reach step anyStep (emptyTable n) table) :
    (∀ k, WithinCapacity (table k)) ∧ ∀ p, ∃ table', runPass table p = some table' := by
  have hall := h.invariant (I := fun t : Table n => ∀ k, WithinCapacity (t k))
    (fun _ => withinCapacity_blank ⟨0, 0, rfl⟩) fun _ _ _ ht _ => step_withinCapacity ht
  exact ⟨hall, runPass_total hall⟩

def registersIn (nodeId : Nat) (k : Fin n) : List (Event n) :=
  [.session k (.register ⟨nodeId, 0, nodeId + 6, 0, 7001, [(10, 0, 0, 1)], 5⟩),
    .session k (.advertisePublished (plainTopic 7)), .pass .pendingRegistrations]

theorem two_registrations_within_arrays :
    ∃ (j k : Fin 2) (table : Table 2), run step (registersIn 1 j ++ registersIn 2 k) (emptyTable 2) =
      some table ∧ (∀ k, WithinCapacity (table k)) ∧ ∀ p, ∃ table', runPass table p = some table' := by
  have hrun : ∃ j k : Fin 2,
      (run step (registersIn 1 j ++ registersIn 2 k) (emptyTable 2)).isSome = true := by
    decide +kernel
  obtain ⟨j, k, hk⟩ := hrun
  obtain ⟨table, ht⟩ := isSome_iff_exists.mp hk
  exact ⟨j, k, table, ht, counts_within_arrays 2 (reach_of_run ht fun _ _ _ => trivial)⟩

end RmwAxon.DaemonRun
