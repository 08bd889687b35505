import RmwAxon.SlotProtocol

namespace RmwAxon.SlotOwnership

open NodeTable SlotProtocol SlotSteps Function List Option
open DaemonRun (Registration)

variable {n m : Nat} {s s' : State n m}

/-- The slot whose state the monitor has loaded and has not yet acted on, or
that it is clearing. -/
def monitorFocus : Monitor n → Option (Fin n)
  | .activating k _ => some k
  | .tested _ k _ _ => some k
  | .clearing _ k _ _ _ => some k
  | .retested _ k _ _ => some k
  | _ => none

def mergerFocus : Merger n → Option (Fin n)
  | .clearing _ k _ _ => some k
  | .filling _ k _ _ => some k
  | _ => none

def comparesOthers (s : State n m) : Merger n → Prop
  | .compare _ node _ k _ => (s.tenants k).isSome = true → (s.table k).nodeId ≠ node.nodeId
  | _ => True

/-- A held slot that the monitor looks at is not old while it is pending, and
its process is found alive. -/
def findsAlive (s : State n m) (alive : Bool) : Monitor n → Prop
  | .tested now k st _ => (s.tenants k).isSome = true →
      (st = .pending → 0 < (s.table k).lastSeenSecs → now - (s.table k).lastSeenSecs ≤ 2) ∧
      (st = .active → alive = true)
  | _ => True

def careful (s : State n m) : Action n m → Prop
  | .claim k _ => monitorFocus s.monitor ≠ some k ∧ (∀ i, mergerFocus (s.mergers i) ≠ some k) ∧
      (s.table k).daemonOrigin = 0
  | .startMerge _ op => op.origin ≠ 0
  | .merger i => comparesOthers s (s.mergers i)
  | .monitor alive => findsAlive s alive s.monitor
  | _ => True

instance (s : State n m) (t : Merger n) : Decidable (comparesOthers s t) := by
  unfold comparesOthers
  split <;> infer_instance

instance (s : State n m) (alive : Bool) (mon : Monitor n) : Decidable (findsAlive s alive mon) := by
  unfold findsAlive
  split <;> infer_instance

instance (s : State n m) (a : Action n m) : Decidable (careful s a) := by
  unfold careful
  split <;> infer_instance

def Ordinary : FieldWrite → Prop
  | .state _ => False
  | .daemonOrigin _ => False
  | .pid p => 0 < p
  | _ => True

inductive Housed : Tenant → NodeTableEntry → Prop
  | registering {fields : List FieldWrite} {e : NodeTableEntry} (origin : e.daemonOrigin = 0)
      (state : e.state = .claiming) (ordinary : ∀ w ∈ fields, Ordinary w)
      (pid : 0 < e.pid ∨ ∃ p, .pid p ∈ fields) : Housed (.registering fields) e
  | registered {e : NodeTableEntry} (origin : e.daemonOrigin = 0)
      (state : e.state = .pending ∨ e.state = .active) (pid : 0 < e.pid) : Housed .registered e

variable {e : NodeTableEntry} {k : Fin n}

theorem Housed.origin {tn : Tenant} (h : Housed tn e) : e.daemonOrigin = 0 := by
  cases h with
  | registering origin => exact origin
  | registered origin => exact origin

theorem Housed.occupied {tn : Tenant} (h : Housed tn e) : e.state ≠ .empty := by
  cases h with
  | registering _ state => simp [state]
  | registered _ state =>
    rcases state with state | state <;> simp [state]

def MonitorOk (tenants : Fin n → Option Tenant) (table : Table n) : Monitor n → Prop
  | .activating k _ => (tenants k).isSome = true → (table k).state = .pending
  | .tested _ k st _ => (tenants k).isSome = true → st ≠ .leaving ∧
      (st = .active ↔ (table k).state = .active)
  | .clearing _ k _ _ _ => (tenants k).isSome = false
  | .retest now k _ => (tenants k).isSome = true → (table k).state = .active →
      (table k).lastSeenSecs = now
  | .retested now k st _ => (tenants k).isSome = true → st = .active →
      (table k).state = .active ∧ (table k).lastSeenSecs = now
  | _ => True

def operation : Merger n → Option MergeOp
  | .idle => none
  | .scan op _ => some op
  | .judge op _ _ => some op
  | .clearing op _ _ _ => some op
  | .find op _ _ _ => some op
  | .compare op _ _ _ _ => some op
  | .findFree op _ _ _ => some op
  | .filling op _ _ _ => some op

structure MergerOk (tenants : Fin n → Option Tenant) (t : Merger n) : Prop where
  origin : ∀ op, operation t = some op → op.origin ≠ 0
  focus : ∀ k, mergerFocus t = some k → (tenants k).isSome = false

structure Inv (s : State n m) : Prop where
  housed : ∀ k tn, s.tenants k = some tn → Housed tn (s.table k)
  monitor : MonitorOk s.tenants s.table s.monitor
  mergers : ∀ i, MergerOk s.tenants (s.mergers i)
  clean : s.trespassed = false

def Quiet (mon : Monitor n) (tenants : Fin n → Option Tenant) (e e' : NodeTableEntry) (k : Fin n) : Prop :=
  (tenants k).isSome = true ∧ e'.state = e.state ∧ e'.lastSeenSecs = e.lastSeenSecs ∨
    (tenants k).isSome = true ∧ e.state = .claiming ∧ e'.state ≠ .active ∨
    monitorFocus mon ≠ some k ∧ e'.state ≠ .active

theorem monitorOk_frame {mon : Monitor n} {tenants tenants' : Fin n → Option Tenant}
    {table table' : Table n} (h : MonitorOk tenants table mon)
    (hquiet : ∀ k, (tenants' k).isSome = true → Quiet mon tenants (table k) (table' k) k) :
    MonitorOk tenants' table' mon := by
  cases mon with
  | idle | pendingScan | departedScan | noting => trivial
  | activating k ks =>
    intro hk
    rcases hquiet k hk with ⟨ho, hst, _⟩ | ⟨ho, hst, _⟩ | ⟨hf, _⟩
    · rw [hst]
      exact h ho
    · exact absurd (h ho) (by simp [hst])
    · exact absurd rfl hf
  | tested now k st ks =>
    intro hk
    rcases hquiet k hk with ⟨ho, hst, _⟩ | ⟨ho, hst, hst'⟩ | ⟨hf, _⟩
    · rw [hst]
      exact h ho
    · refine ⟨(h ho).1, fun hact => ?_, fun hact => absurd hact hst'⟩
      exact absurd ((h ho).2.mp hact) (by simp [hst])
    · exact absurd rfl hf
  | clearing now k ws again ks =>
    show (tenants' k).isSome = false
    rw [Bool.eq_false_iff]
    intro hk
    have hnone : (tenants k).isSome = false := h
    rcases hquiet k hk with ⟨ho, _⟩ | ⟨ho, _⟩ | ⟨hf, _⟩
    · rw [hnone] at ho
      cases ho
    · rw [hnone] at ho
      cases ho
    · exact absurd rfl hf
  | retest now k ks =>
    intro hk hact
    rcases hquiet k hk with ⟨ho, hst, hseen⟩ | ⟨_, _, hst'⟩ | ⟨_, hst'⟩
    · rw [hseen]
      exact h ho (hst.symm.trans hact)
    · exact absurd hact hst'
    · exact absurd hact hst'
  | retested now k st ks =>
    intro hk hact
    rcases hquiet k hk with ⟨ho, hst, hseen⟩ | ⟨ho, hst, _⟩ | ⟨hf, _⟩
    · rw [hst, hseen]
      exact h ho hact
    · exact absurd (h ho hact).1 (by simp [hst])
    · exact absurd rfl hf

theorem quiet_refl (mon : Monitor n) {tenants : Fin n → Option Tenant}
    (hk : (tenants k).isSome = true) (e : NodeTableEntry) : Quiet mon tenants e e k :=
  .inl ⟨hk, rfl, rfl⟩

theorem inv_session (h : Inv s) {tn : Option Tenant} (hhoused : ∀ t, tn = some t → Housed t e)
    (hquiet : tn.isSome = true → Quiet s.monitor s.tenants (s.table k) e k)
    (hfocus : tn.isSome = true → (s.tenants k).isSome = true ∨ ∀ i, mergerFocus (s.mergers i) ≠ some k) :
    Inv { s with table := update s.table k e, tenants := update s.tenants k tn } where
  housed := by
    intro j t
    simp only [update_apply]
    split_ifs
    · exact hhoused t
    · exact h.housed j t
  monitor := by
    refine monitorOk_frame h.monitor fun j => ?_
    simp only [update_apply]
    split_ifs with hj
    · exact hj ▸ hquiet
    · exact fun hocc => quiet_refl _ hocc _
  mergers := by
    refine fun i => ⟨(h.mergers i).origin, fun j hj => ?_⟩
    simp only [update_apply]
    split_ifs with hjk
    · subst hjk
      rw [Bool.eq_false_iff]
      intro hsome
      rcases hfocus hsome with ho | hf
      · rw [(h.mergers i).focus j hj] at ho
        cases ho
      · exact hf i hj
    · exact (h.mergers i).focus j hj
  clean := h.clean

theorem inv_daemonWrite (h : Inv s) (hk : (s.tenants k).isSome = false) (w : FieldWrite) :
    Inv (daemonWrite s k w) := by
  have hne : ∀ j, (s.tenants j).isSome = true → j ≠ k := by
    rintro j hj rfl
    rw [hk] at hj
    cases hj
  refine ⟨fun j t ht => ?_, monitorOk_frame h.monitor fun j hj => ?_, h.mergers, ?_⟩
  · have hj := hne j (isSome_iff_exists.mpr ⟨t, ht⟩)
    simpa only [daemonWrite, update_of_ne hj] using h.housed j t ht
  · simp only [daemonWrite, update_of_ne (hne j hj)]
    exact quiet_refl _ hj _
  · simp [daemonWrite, h.clean, trespass, hk]

theorem inv_setMonitor (h : Inv s) {mon : Monitor n} (hmon : MonitorOk s.tenants s.table mon) :
    Inv { s with monitor := mon } :=
  ⟨h.housed, hmon, h.mergers, h.clean⟩

theorem inv_setMerger (h : Inv s) (i : Fin m) {t : Merger n} (ht : MergerOk s.tenants t) :
    Inv (setMerger s i t) := by
  refine ⟨h.housed, h.monitor, fun j => ?_, h.clean⟩
  simp only [setMerger, update_apply]
  split_ifs
  · exact ht
  · exact h.mergers j

section Sessions

theorem assign_ordinary (e : NodeTableEntry) {w : FieldWrite} (hw : Ordinary w) :
    (assign e w).state = e.state ∧ (assign e w).daemonOrigin = e.daemonOrigin ∧
      ((∃ p, w = .pid p ∧ (assign e w).pid = p ∧ 0 < p) ∨ (∀ p, w ≠ .pid p) ∧ (assign e w).pid = e.pid) := by
  cases w with
  | state | daemonOrigin => exact absurd hw id
  | pid p => exact ⟨rfl, rfl, .inl ⟨p, rfl, rfl, hw⟩⟩
  | _ => exact ⟨rfl, rfl, .inr ⟨by simp, rfl⟩⟩

theorem claim_inv (h : Inv s) {k : Fin n} {r : Registration} (hok : careful s (.claim k r))
    (hpid : 0 < r.pid) :
    Inv (tenantWrite s k (.state .claiming) (some (.registering (registerWrites r)))) := by
  refine inv_session h ?_ (fun _ => .inr (.inr ⟨hok.1, by simp [assign]⟩)) fun _ => .inr hok.2.1
  rintro t ⟨rfl⟩
  exact .registering hok.2.2 rfl (by simp [registerWrites, Ordinary, hpid])
    (.inr ⟨r.pid, by simp [registerWrites]⟩)

theorem registerStep_inv (h : Inv s) {k : Fin n} (hs : registerStep s k = some s') : Inv s' := by
  cases htn : s.tenants k with
  | none => simp [registerStep, htn] at hs
  | some tn =>
    have hheld : (s.tenants k).isSome = true := by simp [htn]
    cases h.housed k tn htn with
    | registered origin state pid => simp [registerStep, htn] at hs
    | @registering fields _ origin state ordinary pid =>
      cases fields with
      | nil =>
        simp only [registerStep, htn, some.injEq] at hs
        refine hs ▸ inv_session h ?_ (fun _ => .inr (.inl ⟨hheld, state, by simp [assign]⟩))
          fun _ => .inl hheld
        rintro t ⟨rfl⟩
        exact .registered origin (.inl rfl) (by simpa [assign] using pid)
      | cons w ws =>
        simp only [registerStep, htn, some.injEq] at hs
        obtain ⟨hst, ho, hp⟩ := assign_ordinary (s.table k) (ordinary w mem_cons_self)
        refine hs ▸ inv_session h ?_ (fun _ => .inr (.inl ⟨hheld, state, by simp [hst, state]⟩))
          fun _ => .inl hheld
        rintro t ⟨rfl⟩
        refine .registering (ho.trans origin) (hst.trans state)
          (fun v hv => ordinary v (mem_cons_of_mem w hv)) ?_
        rcases hp with ⟨p, rfl, hpid, hpos⟩ | ⟨hne, hpid⟩
        · exact .inl (by rw [hpid]; exact hpos)
        rw [hpid]
        refine pid.imp_right ?_
        rintro ⟨p, hp⟩
        exact ⟨p, (mem_cons.mp hp).resolve_left fun heq => hne p heq.symm⟩

theorem announce_inv (h : Inv s) {k : Fin n} {w : FieldWrite} (htn : s.tenants k = some .registered)
    (hw : announces w = true) : Inv (tenantWrite s k w (some .registered)) := by
  have hheld : (s.tenants k).isSome = true := by simp [htn]
  have hsame : (assign (s.table k) w).state = (s.table k).state ∧
      (assign (s.table k) w).lastSeenSecs = (s.table k).lastSeenSecs ∧
      (assign (s.table k) w).daemonOrigin = (s.table k).daemonOrigin ∧
      (assign (s.table k) w).pid = (s.table k).pid := by
    cases w with
    | publishedTopics | subscribedTopics | nodeName | nodeNamespace => exact ⟨rfl, rfl, rfl, rfl⟩
    | _ => cases hw
  obtain ⟨hst, hseen, ho, hpid⟩ := hsame
  refine inv_session h ?_ (fun _ => .inl ⟨hheld, hst, hseen⟩) fun _ => .inl hheld
  rintro t ⟨rfl⟩
  cases h.housed k _ htn with
  | registered origin state pid => exact .registered (ho.trans origin) (hst ▸ state) (hpid ▸ pid)

theorem vacate_inv (h : Inv s) (k : Fin n) (e : NodeTableEntry) :
    Inv { s with table := update s.table k e, tenants := update s.tenants k none } :=
  inv_session h (by simp) (by simp) (by simp)

end Sessions

end RmwAxon.SlotOwnership
