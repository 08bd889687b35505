import RmwAxon.SlotOwnership

namespace RmwAxon.SlotRun

open DomainSync NodeTable SlotOwnership SlotProtocol SlotSteps Transition Function Option Bool
open PeerSync (PeerNodeInfo duplicateRemote staleFromOrigin)

variable {n m : Nat} {s s' : State n m}
variable {k : Fin n}

theorem housed_of_held (h : Inv s) (hk : (s.tenants k).isSome = true) : ∃ tn, Housed tn (s.table k) := by
  obtain ⟨tn, htn⟩ := isSome_iff_exists.mp hk
  exact ⟨tn, h.housed k tn htn⟩

theorem activate_inv (h : Inv s)
    (hpending : (s.tenants k).isSome = true → (s.table k).state = .pending) (ks : List (Fin n)) :
    Inv { daemonWrite s k (.state .active) with monitor := .pendingScan ks } := by
  cases hk : (s.tenants k).isSome with
  | false => exact inv_setMonitor (inv_daemonWrite h hk _) trivial
  | true =>
    have hst := hpending hk
    refine ⟨fun j t ht => ?_, trivial, h.mergers, ?_⟩
    · have hhoused := h.housed j t ht
      simp only [daemonWrite, update_apply]
      split_ifs with hj
      · subst hj
        cases hhoused with
        | registering origin state => exact absurd (state.symm.trans hst) (by simp)
        | registered origin state pid => exact .registered origin (.inr rfl) pid
      · exact hhoused
    · simp [daemonWrite, h.clean, trespass, isActivation, hst]

theorem note_inv (h : Inv s) (now : Nat) (k : Fin n) (ks : List (Fin n)) :
    Inv { daemonWrite s k (.lastSeenSecs now) with monitor := .retest now k ks } := by
  refine ⟨fun j t ht => ?_, fun _ _ => ?_, h.mergers, ?_⟩
  · have hhoused := h.housed j t ht
    simp only [daemonWrite, update_apply]
    split_ifs with hj
    · subst hj
      cases hhoused with
      | registering origin state ordinary pid => exact .registering origin state ordinary pid
      | registered origin state pid => exact .registered origin state pid
    · exact hhoused
  · simp [daemonWrite, assign]
  · simp [daemonWrite, h.clean, trespass, tracked]

theorem firstTest_ok (h : Inv s) {now : Nat} {st : SlotState} {ks : List (Fin n)} {alive : Bool}
    (hmon : MonitorOk s.tenants s.table (.tested now k st ks))
    (hok : findsAlive s alive (.tested now k st ks)) :
    MonitorOk s.tenants s.table (firstTest alive now k st (s.table k) ks) := by
  cases hk : (s.tenants k).isSome with
  | false =>
    have hretest : MonitorOk s.tenants s.table (.retest now k ks) := by
      intro hk'
      rw [hk] at hk'
      cases hk'
    unfold firstTest
    split_ifs
    · exact hk
    · exact hk
    · exact hretest
    · trivial
    · exact hk
    · exact hk
    · exact hretest
  | true =>
    obtain ⟨hleaving, hactive⟩ := hmon hk
    obtain ⟨hpending, halive⟩ := hok hk
    obtain ⟨tn, hhoused⟩ := housed_of_held h hk
    have hretest : st ≠ .active → MonitorOk s.tenants s.table (.retest now k ks) :=
      fun hst _ hact => absurd (hactive.mpr hact) hst
    unfold firstTest
    split_ifs with h1 h2 h3 h4 h5 h6
    · exact absurd h1 hleaving
    · exact absurd h3 (Nat.not_lt.mpr (hpending h2.1 h2.2))
    · exact hretest (by simp [h2.1])
    · trivial
    · exact absurd (halive h4.1) h5
    · exact absurd hhoused.origin h6.2.1
    refine hretest fun hst => h4 ⟨hst, ?_⟩
    cases hhoused with
    | registering _ state => exact absurd (state.symm.trans (hactive.mp hst)) (by simp)
    | registered _ _ pid => exact pid

theorem tested_ok (h : Inv s) (now : Nat) (k : Fin n) (ks : List (Fin n)) :
    MonitorOk s.tenants s.table (.tested now k (s.table k).state ks) := by
  refine fun hk => ⟨?_, Iff.rfl⟩
  obtain ⟨tn, hhoused⟩ := housed_of_held h hk
  cases hhoused with
  | registering _ state => simp [state]
  | registered _ state =>
    rcases state with state | state <;> simp [state]

theorem monitorStep_inv (h : Inv s) {alive : Bool} (hok : careful s (.monitor alive))
    (hs : monitorStep s alive = some s') : Inv s' := by
  have hmon := h.monitor
  unfold monitorStep at hs
  unfold careful at hok
  generalize s.monitor = mon at hs hok hmon
  cases mon with
  | idle => cases hs
  | pendingScan ks =>
    cases ks with
    | nil =>
      cases hs
      exact inv_setMonitor h trivial
    | cons k ks =>
      cases hs
      refine inv_setMonitor h ?_
      split_ifs with hst
      · exact fun _ => hst
      · trivial
  | activating k ks =>
    cases hs
    exact activate_inv h hmon ks
  | departedScan now ks =>
    cases ks with
    | nil =>
      cases hs
      exact inv_setMonitor h trivial
    | cons k ks =>
      cases hs
      exact inv_setMonitor h (tested_ok h now k ks)
  | tested now k st ks =>
    cases hs
    exact inv_setMonitor h (firstTest_ok h hmon hok)
  | noting now k ks =>
    cases hs
    exact note_inv h now k ks
  | clearing now k ws again ks =>
    have hfree : (s.tenants k).isSome = false := hmon
    cases ws with
    | nil =>
      cases hs
      refine inv_setMonitor h ?_
      split_ifs
      · intro hk
        rw [hfree] at hk
        cases hk
      · trivial
    | cons w ws =>
      cases hs
      exact inv_setMonitor (inv_daemonWrite h hfree w) hfree
  | retest now k ks =>
    cases hs
    exact inv_setMonitor h fun hk hact => ⟨hact, hmon hk hact⟩
  | retested now k st ks =>
    cases hs
    refine inv_setMonitor h ?_
    unfold secondTest
    split_ifs with hold
    · show (s.tenants k).isSome = false
      rw [eq_false_iff]
      intro hk
      have hseen := (hmon hk hold.1).2
      have := hold.2.2.2.2
      omega
    · trivial

section MergerOk

variable {tenants : Fin n → Option Tenant} {t : Merger n} {op : MergeOp}

theorem mergerOk_idle : MergerOk tenants (.idle : Merger n) :=
  ⟨by simp [operation], by simp [mergerFocus]⟩

theorem mergerOk_of_origin (horigin : op.origin ≠ 0) (hop : operation t = some op)
    (hfocus : mergerFocus t = none) : MergerOk tenants t := by
  refine ⟨fun op' h => ?_, fun k hk => by simp [hfocus] at hk⟩
  rw [hop] at h
  exact some.inj h ▸ horigin

theorem mergerOk_of_focus (horigin : op.origin ≠ 0) (hop : operation t = some op) {k : Fin n}
    (hfocus : mergerFocus t = some k) (hfree : (tenants k).isSome = false) : MergerOk tenants t := by
  refine ⟨fun op' h => ?_, fun j hj => ?_⟩
  · rw [hop] at h
    exact some.inj h ▸ horigin
  · rw [hfocus] at hj
    exact some.inj hj ▸ hfree

theorem nextNode_ok (horigin : op.origin ≠ 0) (nodes : List PeerNodeInfo) :
    MergerOk tenants (nextNode n op nodes) := by
  cases nodes with
  | nil => exact mergerOk_idle
  | cons node rest => exact mergerOk_of_origin horigin rfl rfl

end MergerOk

theorem unheld_of_obsolete (h : Inv s) {op : MergeOp} (horigin : op.origin ≠ 0)
    (hobs : obsoleteFor op (s.table k) = true) : (s.tenants k).isSome = false := by
  rw [eq_false_iff]
  intro hk
  obtain ⟨tn, hhoused⟩ := housed_of_held h hk
  have hstale : ∀ ids, staleFromOrigin op.origin ids (s.table k) = false := by
    simp [staleFromOrigin, hhoused.origin, horigin.symm]
  unfold obsoleteFor at hobs
  cases hside : op.side with
  | receiving => simp [hside, hstale, duplicateRemote, hhoused.origin] at hobs
  | requesting => simp [hside, hstale] at hobs

theorem mergerStep_inv (h : Inv s) {i : Fin m} (hok : careful s (.merger i))
    (hs : mergerStep s i = some s') : Inv s' := by
  obtain ⟨horigin, hfocus⟩ := h.mergers i
  unfold mergerStep at hs
  change comparesOthers s (s.mergers i) at hok
  generalize s.mergers i = t at hs hok horigin hfocus
  cases t with
  | idle => cases hs
  | scan op ks =>
    have ho := horigin op rfl
    cases ks with
    | nil =>
      cases hs
      exact inv_setMerger h i (nextNode_ok ho _)
    | cons k ks =>
      cases hs
      refine inv_setMerger h i ?_
      split_ifs <;> exact mergerOk_of_origin ho rfl rfl
  | judge op k ks =>
    have ho := horigin op rfl
    cases hs
    refine inv_setMerger h i ?_
    split_ifs with hobs
    · exact mergerOk_of_focus ho rfl rfl (unheld_of_obsolete h ho hobs)
    · exact mergerOk_of_origin ho rfl rfl
  | clearing op k ws ks =>
    have ho := horigin op rfl
    have hfree := hfocus k rfl
    cases ws with
    | nil =>
      cases hs
      exact inv_setMerger h i (mergerOk_of_origin ho rfl rfl)
    | cons w ws =>
      cases hs
      exact inv_setMerger (inv_daemonWrite h hfree w) i (mergerOk_of_focus ho rfl rfl hfree)
  | find op node rest ks =>
    have ho := horigin op rfl
    cases ks with
    | nil =>
      cases hs
      exact inv_setMerger h i (mergerOk_of_origin ho rfl rfl)
    | cons k ks =>
      cases hs
      refine inv_setMerger h i ?_
      split_ifs <;> exact mergerOk_of_origin ho rfl rfl
  | compare op node rest k ks =>
    have ho := horigin op rfl
    cases hs
    refine inv_setMerger h i ?_
    split_ifs with hid
    · refine mergerOk_of_focus ho rfl rfl ?_
      rw [eq_false_iff]
      exact fun hk => hok hk hid
    · exact mergerOk_of_origin ho rfl rfl
  | findFree op node rest ks =>
    have ho := horigin op rfl
    cases ks with
    | nil =>
      cases hs
      refine inv_setMerger h i ?_
      cases op.side with
      | receiving => exact mergerOk_idle
      | requesting => exact nextNode_ok ho rest
    | cons k ks =>
      cases hs
      refine inv_setMerger h i ?_
      split_ifs with hempty
      · refine mergerOk_of_focus ho rfl rfl ((eq_false_iff ..).mpr fun hk => ?_)
        obtain ⟨tn, hhoused⟩ := housed_of_held h hk
        exact hhoused.occupied hempty
      · exact mergerOk_of_origin ho rfl rfl
  | filling op k ws rest =>
    have ho := horigin op rfl
    have hfree := hfocus k rfl
    cases ws with
    | nil =>
      cases hs
      exact inv_setMerger h i (nextNode_ok ho rest)
    | cons w ws =>
      cases hs
      exact inv_setMerger (inv_daemonWrite h hfree w) i (mergerOk_of_focus ho rfl rfl hfree)

theorem step_inv (h : Inv s) {a : Action n m} (hok : careful s a) (hs : step s a = some s') : Inv s' := by
  cases a with
  | claim k r =>
    simp only [step] at hs
    split_ifs at hs with hclaim
    cases hs
    exact claim_inv h hok hclaim.2
  | register k => exact registerStep_inv h hs
  | announce k w =>
    cases htn : s.tenants k with
    | none => simp [step, htn] at hs
    | some tn =>
      cases tn with
      | registering fields => simp [step, htn] at hs
      | registered =>
        simp only [step, htn] at hs
        split_ifs at hs with hw
        cases hs
        exact announce_inv h htn hw
  | leave k =>
    cases htn : s.tenants k with
    | none => simp [step, htn] at hs
    | some tn =>
      cases tn with
      | registering fields => simp [step, htn] at hs
      | registered =>
        simp only [step, htn, some.injEq] at hs
        exact hs ▸ vacate_inv h k _
  | die k =>
    cases hs
    have hvacated := vacate_inv h k (s.table k)
    rwa [update_eq_self] at hvacated
  | startPending | startDeparted =>
    cases hmon : s.monitor with
    | idle =>
      simp only [step, hmon, some.injEq] at hs
      exact hs ▸ inv_setMonitor h trivial
    | _ => simp [step, hmon] at hs
  | monitor alive => exact monitorStep_inv h hok hs
  | startMerge i op =>
    cases hmer : s.mergers i with
    | idle =>
      simp only [step, hmer] at hs
      split_ifs at hs
      cases hs
      exact inv_setMerger h i (mergerOk_of_origin hok rfl rfl)
    | _ => simp [step, hmer] at hs
  | merger i => exact mergerStep_inv h hok hs

theorem start_inv (n m : Nat) : Inv (start n m) :=
  ⟨by simp [start], trivial, fun _ => mergerOk_idle, rfl⟩

/-- In every run of such steps the daemon never writes to a slot that a session
holds, but for the step from Pending to Active and its own notes. -/
theorem careful_run_never_trespasses {n m : Nat} {s : State n m}
    (h : Reach step careful (start n m) s) : s.trespassed = false :=
  (h.invariant (start_inv n m) fun _ _ _ hi hok hs => step_inv hi hok hs).clean

/-- A peer pushes one node, and a session registers in the slot k while the
node is put into another one. -/
def registersDuringMerge (k : Fin n) (i : Fin m) : List (Action n m) :=
  Action.startMerge i ⟨.receiving, 9, 5, [remoteNode 5 3]⟩ :: List.replicate 7 (Action.merger i) ++
    Action.claim k ⟨1, 3, 7, 0, 7001, [(10, 0, 0, 1)], 5⟩ :: List.replicate 11 (Action.register k) ++
    List.replicate 29 (Action.merger i) ++ Action.startPending :: List.replicate 4 (Action.monitor true)

theorem registered_during_merge :
    ∃ (k : Fin 2) (i : Fin 1) (s : State 2 1),
      guardedRun step careful (registersDuringMerge k i) (start 2 1) = some s ∧
      (s.table k).state = .active ∧ (s.table k).nodeId = 1 ∧ s.trespassed = false := by
  have hrun : ∃ (k : Fin 2) (i : Fin 1),
      ((guardedRun step careful (registersDuringMerge k i) (start 2 1)).any fun s : State 2 1 =>
        decide ((s.table k).state = .active ∧ (s.table k).nodeId = 1)) = true := by decide +kernel
  obtain ⟨k, i, hki⟩ := hrun
  obtain ⟨s, hs, hst, hid⟩ := exists_of_any hki
  exact ⟨k, i, s, hs, hst, hid, careful_run_never_trespasses (reach_of_guardedRun hs)⟩

/-- The merge has found the slot k empty when a session claims it. -/
def claimsFoundSlot (k : Fin n) (i : Fin m) : List (Action n m) :=
  Action.startMerge i ⟨.receiving, 9, 5, [remoteNode 5 3]⟩ :: List.replicate 5 (Action.merger i) ++
    [Action.claim k ⟨1, 3, 7, 0, 7001, [(10, 0, 0, 1)], 5⟩, Action.merger i]

theorem merge_clears_claimed_slot :
    ¬ ∀ (n m : Nat) (s : State n m), Reach step anyStep (start n m) s → s.trespassed = false := by
  intro h
  have hrun : ∃ (k : Fin 1) (i : Fin 1), ((run step (claimsFoundSlot k i) (start 1 1)).any
      fun s : State 1 1 => decide (s.trespassed = true)) = true := by decide +kernel
  obtain ⟨k, i, hki⟩ := hrun
  obtain ⟨s, hs, hbad⟩ := exists_of_any hki
  rw [h 1 1 s (reach_of_run hs fun _ _ _ => trivial)] at hbad
  cases hbad

end RmwAxon.SlotRun
