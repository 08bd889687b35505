import RmwAxon.DaemonRun

namespace RmwAxon.Departure

open DaemonRun Loops Matching MatchPass MergeRounds NodeTable PendingPass Function Option

variable {n : Nat} {alive : Nat → Nat → Bool} {now : Nat} {e : NodeTableEntry} {table table' : Table n}

def OwnerDead (alive : Nat → Nat → Bool) (e : NodeTableEntry) : Prop :=
  0 < e.pid ∧ alive e.pid e.procStarttime = false
  deriving Decidable

def InGrace (now : Nat) (e : NodeTableEntry) : Prop :=
  e.state = .pending ∧ (e.lastSeenSecs = 0 ∨ now - e.lastSeenSecs ≤ 2)
  deriving Decidable

theorem afterSecondTest_of_not_active (h : e.state ≠ .active) : afterSecondTest now e = e := by
  simp [afterSecondTest, h]

theorem afterSecondTest_clearDeparted (e : NodeTableEntry) :
    afterSecondTest now (clearDeparted e) = clearDeparted e :=
  afterSecondTest_of_not_active (by simp [clearDeparted, zeroEntry])

theorem testDeparted_of_inGrace (h : InGrace now e) : testDeparted alive now e = e := by
  obtain ⟨hstate, hseen⟩ := h
  have hfirst : afterFirstTest alive now e = e := by
    rcases hseen with h0 | hle
    · simp [afterFirstTest, hstate, h0]
    · simp [afterFirstTest, hstate, Nat.not_lt.mpr hle]
  rw [testDeparted, hfirst]
  exact afterSecondTest_of_not_active (by simp [hstate])

theorem testDeparted_of_overdue (hstate : e.state = .pending) (h : ¬ InGrace now e) :
    testDeparted alive now e = clearDeparted e := by
  have hseen : 0 < e.lastSeenSecs ∧ 2 < now - e.lastSeenSecs := by
    by_contra hnot
    exact h ⟨hstate, by omega⟩
  have hfirst : afterFirstTest alive now e = clearDeparted e := by
    simp [afterFirstTest, hstate, hseen]
  rw [testDeparted, hfirst, afterSecondTest_clearDeparted]

theorem testDeparted_of_dead (hstate : e.state = .active) (h : OwnerDead alive e) :
    testDeparted alive now e = clearDeparted e := by
  have hfirst : afterFirstTest alive now e = clearDeparted e := by
    simp [afterFirstTest, hstate, h.1, h.2]
  rw [testDeparted, hfirst, afterSecondTest_clearDeparted]

theorem testDeparted_of_alive (hstate : e.state = .active) (hpid : 0 < e.pid)
    (halive : alive e.pid e.procStarttime = true) :
    testDeparted alive now e = { e with lastSeenSecs := now } := by
  have hfirst : afterFirstTest alive now e = { e with lastSeenSecs := now } := by
    simp [afterFirstTest, hstate, hpid, halive]
  rw [testDeparted, hfirst]
  simp [afterSecondTest]

theorem isOccupied_clearDeparted (e : NodeTableEntry) : isOccupied (clearDeparted e) = false := rfl

theorem processDepartedNodes_pruned (alive : Nat → Nat → Bool) (now : Nat) (table : Table n) (k : Fin n) :
    ∃ lost, Pruned lost (testDeparted alive now (table k)) (processDepartedNodes alive now table k) :=
  ⟨_, removes_pruned daemon_removeMatches_pruned
    (clearedNodeIds table fun k => testDeparted alive now (table k))
    (fun k => testDeparted alive now (table k)) k⟩

/-- Of a process that has died, only a registration that has not waited for
long outlives the pass. -/
theorem dead_slot_kept_iff (alive : Nat → Nat → Bool) (now : Nat) (table : Table n) (k : Fin n)
    (hdead : OwnerDead alive (table k)) (hclaim : (table k).state ≠ .claiming) :
    isOccupied (processDepartedNodes alive now table k) = true ↔ InGrace now (table k) := by
  obtain ⟨_, hpruned⟩ := processDepartedNodes_pruned alive now table k
  rw [hpruned.isOccupied]
  constructor
  · intro hocc
    by_contra hgrace
    cases hstate : (table k).state with
    | claiming => exact hclaim hstate
    | empty =>
      have hsame : testDeparted alive now (table k) = table k := by
        simp [testDeparted, afterFirstTest, afterSecondTest, hstate]
      simp [hsame, isOccupied, hstate] at hocc
    | pending =>
      rw [testDeparted_of_overdue hstate hgrace, isOccupied_clearDeparted] at hocc
      cases hocc
    | active =>
      rw [testDeparted_of_dead hstate hdead, isOccupied_clearDeparted] at hocc
      cases hocc
    | leaving =>
      rw [testDeparted, afterFirstTest, if_pos hstate, afterSecondTest_clearDeparted,
        isOccupied_clearDeparted] at hocc
      cases hocc
  · intro hgrace
    rw [testDeparted_of_inGrace hgrace]
    simp [isOccupied, hgrace.1]

def registeredAtTen : NodeTableEntry := register ⟨1, 0, 7, 0, 7001, [(10, 0, 0, 1)], 10⟩ zeroEntry

def noProcess : Nat → Nat → Bool := fun _ _ => false

theorem overdue_registration_cleared :
    ∃ k, OwnerDead noProcess (tableOf 1 [registeredAtTen] k) ∧
      (tableOf 1 [registeredAtTen] k).state ≠ .claiming ∧
      isOccupied (processDepartedNodes noProcess 13 (tableOf 1 [registeredAtTen]) k) = false := by
  have hdead : ∃ k, OwnerDead noProcess (tableOf 1 [registeredAtTen] k) ∧
      (tableOf 1 [registeredAtTen] k).state ≠ .claiming ∧
      ¬ InGrace 13 (tableOf 1 [registeredAtTen] k) := by decide +kernel
  obtain ⟨k, hk, hclaim, hgrace⟩ := hdead
  refine ⟨k, hk, hclaim, ?_⟩
  rw [← Bool.not_eq_true, dead_slot_kept_iff noProcess 13 _ k hk hclaim]
  exact hgrace

/-- Two seconds after its registration the slot of a dead process is kept. -/
theorem young_registration_kept :
    ¬ ∀ (n : Nat) (alive : Nat → Nat → Bool) (now : Nat) (table : Table n) (k : Fin n),
      isOccupied (processDepartedNodes alive now table k) = true →
      (processDepartedNodes alive now table k).daemonOrigin = 0 →
        ¬ OwnerDead alive (processDepartedNodes alive now table k) := by
  intro h
  have hkept : ∃ k, isOccupied (processDepartedNodes noProcess 12 (tableOf 1 [registeredAtTen]) k) = true ∧
      (processDepartedNodes noProcess 12 (tableOf 1 [registeredAtTen]) k).daemonOrigin = 0 ∧
      OwnerDead noProcess (processDepartedNodes noProcess 12 (tableOf 1 [registeredAtTen]) k) := by
    decide +kernel
  obtain ⟨k, hocc, horigin, hdead⟩ := hkept
  exact h 1 noProcess 12 _ k hocc horigin hdead

section Round

def seat (e : NodeTableEntry) : NodeTableEntry :=
  { e with state := if e.state = .pending then .active else e.state }

def Seats (table table' : Table n) : Prop :=
  ∀ k, SameNode (seat (table k)) (seat (table' k)) ∧
    ((table k).state ≠ .pending → (table' k).state ≠ .pending)

theorem Seats.refl (table : Table n) : Seats table table := fun _ => ⟨.refl _, id⟩

theorem Seats.trans {table'' : Table n} (h : Seats table table') (h' : Seats table' table'') :
    Seats table table'' :=
  fun k => ⟨(h k).1.trans (h' k).1, fun hk => (h' k).2 ((h k).2 hk)⟩

theorem seat_of_not_pending (h : e.state ≠ .pending) : seat e = e := by
  simp [seat, h]

theorem seats_activated (table : Table n) (i : Fin n) (hi : (table i).state = .pending) :
    Seats table (activated table i) := by
  intro k
  rw [activated, update_apply]
  split_ifs with hk
  · rw [hk]
    exact ⟨by simp [SameNode, seat, hi], by simp⟩
  · exact ⟨.refl _, id⟩

theorem processPendingRegistration_seats {i : Fin n} (h : processPendingRegistration table i = some table') :
    Seats table table' ∧ (table' i).state ≠ .pending := by
  by_cases hi : (table i).state = .pending
  · obtain ⟨r, hr, rfl⟩ := processPendingRegistration_keeps (stable_true _) (fun _ => trivial) hi h
    have hnodes : SameNodes (activated table i) (update r i (wake (setMatches (r i)
        ((collected (activated table i) i).filter (refersToActive (activated table i)))))) :=
      sameNodes_update hr.nodes rfl
    refine ⟨(seats_activated table i hi).trans fun k =>
      ⟨congrArg seat (hnodes k), fun hk => (hnodes k).state ▸ hk⟩, ?_⟩
    rw [(hnodes i).state]
    simp [activated]
  · simp only [processPendingRegistration, hi, if_false, some.injEq] at h
    exact h ▸ ⟨.refl table, hi⟩

theorem processPendingRegistrations_seats (h : processPendingRegistrations table = some table')
    (k : Fin n) : SameNode (seat (table k)) (table' k) := by
  have hseats : Seats table table' := foldlM_grows Seats.refl (fun _ _ _ => Seats.trans)
    (fun _ _ _ _ hs => (processPendingRegistration_seats hs).1) h
  have hdone : (table' k).state ≠ .pending :=
    foldlM_each (f := processPendingRegistration) (D := fun t => (t k).state ≠ .pending)
      Seats.refl (fun _ _ _ => Seats.trans)
      (fun _ _ _ _ hs => (processPendingRegistration_seats hs).1) (List.mem_finRange k)
      (fun _ _ hs hR => (hR k).2 hs) (fun _ _ _ hs _ => (processPendingRegistration_seats hs).2) h
  rw [← seat_of_not_pending hdone]
  exact (hseats k).1

def departedChanged (alive : Nat → Nat → Bool) (now : Nat) (table : Table n) : Bool :=
  (List.finRange n).any fun k =>
    isOccupied (table k) && !isOccupied (testDeparted alive now (table k))

def monitorRound (alive : Nat → Nat → Bool) (now : Nat) (table : Table n) : Option (Table n) := do
  let table ← processPendingRegistrations table
  let table ← processTopicUpdates table
  some (processDepartedNodes alive now table)

theorem processTopicUpdates_sameNodes (h : processTopicUpdates table = some table') :
    SameNodes table table' := by
  obtain ⟨mid, _, hmid, hpruned⟩ := processTopicUpdates_keeps (stable_true table) (fun _ => trivial) h
  exact hmid.nodes.trans fun k => (hpruned k).same

/-- A whole round takes a young registration up before it looks at its process,
so it leaves nothing of a dead process but a slot in the state Claiming. -/
theorem monitorRound_reclaims (h : monitorRound alive now table = some table') {k : Fin n}
    (hdead : OwnerDead alive (table k)) (hclaim : (table k).state ≠ .claiming) :
    isOccupied (table' k) = false := by
  simp only [monitorRound, bind_eq_bind, bind_eq_some_iff, some.injEq] at h
  obtain ⟨u, hu, v, hv, rfl⟩ := h
  have hsame : SameNode (seat (table k)) (v k) :=
    (processPendingRegistrations_seats hu k).trans (processTopicUpdates_sameNodes hv k)
  have hdead' : OwnerDead alive (v k) := by
    rw [OwnerDead, hsame.field (·.pid) fun _ => rfl, hsame.field (·.procStarttime) fun _ => rfl]
    exact hdead
  obtain ⟨_, hpruned⟩ := processDepartedNodes_pruned alive now v k
  rw [hpruned.isOccupied]
  have hseat : (seat (table k)).state ≠ .pending ∧ (seat (table k)).state ≠ .claiming := by
    simp only [seat]
    split_ifs with hp
    · exact ⟨by decide, by decide⟩
    · exact ⟨hp, hclaim⟩
  rw [← (hsame.state : (v k).state = _)] at hseat
  cases hs : (v k).state with
  | pending => exact absurd hs hseat.1
  | claiming => exact absurd hs hseat.2
  | empty => simp [testDeparted, afterFirstTest, afterSecondTest, hs, isOccupied]
  | active =>
    rw [testDeparted_of_dead hs hdead']
    rfl
  | leaving =>
    rw [testDeparted, afterFirstTest, if_pos hs, afterSecondTest_clearDeparted]
    rfl

/-- The registration that one pass would keep is gone after a whole round. -/
theorem young_registration_reclaimed : ∃ table',
    monitorRound noProcess 12 (tableOf 1 [registeredAtTen]) = some table' ∧
      isOccupied (table' 0) = false := by
  have hrun : (monitorRound noProcess 12 (tableOf 1 [registeredAtTen])).isSome = true := by decide +kernel
  obtain ⟨table', ht⟩ := isSome_iff_exists.mp hrun
  exact ⟨table', ht, monitorRound_reclaims ht (by decide +kernel) (by decide +kernel)⟩

end Round

def everyProcess : Nat → Nat → Bool := fun _ _ => true

end RmwAxon.Departure
