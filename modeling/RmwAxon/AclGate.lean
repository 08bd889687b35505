import RmwAxon.AclRoutes

namespace RmwAxon.AclGate

open Qos Registry Acl AclSession AclEffect AclRoutes Transition List Session LocalPubSub
open Endpoints (Creation sender receiver)
open RingBuffer (Bytes Ring)
open Session (Topic)

variable {glob : Glob} {channelOf : Nat → Nat} {st st' : State} {ev : Event}

structure Inv (glob : Glob) (channelOf : Nat → Nat) (st : State) : Prop where
  faithful : Faithful glob st.acl st.rules
  routed : Routed channelOf st.nextHandle st.records
  tasks : ∀ task ∈ st.tasks, Leads channelOf st.nextHandle st.world task.2 task.1

/-- Publish rules are valid patterns that allow, no pattern reaches a named
topic by its hash text alone, and the paths that check nothing are taken
only where the rules permit it. -/
def careful (glob : Glob) (channelOf : Nat → Nat) (st : State) : Event → Prop
  | .addAcl direction pattern allowed => direction = .publish → allowed = true ∧ glob.valid pattern = true
  | .publish t _ _ _ _ => HexNamed glob st.rules st.records.topicNameCache t
  | .request serviceId _ _ _ _ =>
    HexNamed glob st.rules st.records.topicNameCache (serviceRequestTopic serviceId)
  | .response serviceId _ _ _ _ =>
    HexNamed glob st.rules st.records.topicNameCache (serviceResponseTopic serviceId)
  | .store h _ _ => permitted glob st (channelOf (st.world.handles h).segment) = true
  | .commit t _ _ => permitted glob st t = true
  | .deliver i _ _ => ∀ task ∈ st.tasks[i]?, permitted glob st task.1 = true
  | _ => True

theorem frame_inv (h : Inv glob channelOf st) (hf : Frame st st') : Inv glob channelOf st' := by
  have hleads (k t : Nat) (hk : Leads channelOf st.nextHandle st.world k t) :
      Leads channelOf st'.nextHandle st'.world k t := by
    unfold Leads
    rwa [hf.nextHandle, hf.segments]
  refine ⟨by rw [hf.acl, hf.rules]; exact h.faithful, fun route k hk => ?_, fun task ht => ?_⟩
  · exact hleads k _ (h.routed route k (hk.imp (hf.senders route k) (hf.receivers route k)))
  rcases hf.tasks task ht with ht | ⟨s, htopic, hsub⟩
  · exact hleads _ _ (h.tasks task ht)
  · rw [htopic]
    exact hleads _ _ (h.routed (.response s) _ (.inr hsub))

variable {c : Creation}

theorem create_inv (h : Inv glob channelOf st)
    (hc : placed channelOf st.nextHandle c = true) : Inv glob channelOf (create glob st c) := by
  have hs := create_settled h.routed ((placed_gated glob st.acl c).trans hc)
  refine ⟨h.faithful, hs.routed, fun task ht => ?_⟩
  rcases mem_append.mp ht with ht | ht
  · exact hs.old _ _ (h.tasks task ht)
  · cases c with
    | service s name type qos openedReq openedRes =>
      simp only [handlers] at ht
      split at ht
      · rename_i hq hsub
        rw [mem_singleton.mp ht]
        exact hs.routed (.request s) _ (.inr hsub)
      · cases ht
    | publisher | subscription | client => cases ht

theorem elsewhere_frame (rings : Nat → Ring) : Frame st (setWorld st { st.world with rings := rings }) :=
  ⟨rfl, rfl, rfl, fun _ => rfl, fun route _ ha => by cases route <;> exact ha,
    fun route _ ha => by cases route <;> exact ha, fun _ ht => .inl ht⟩

section

variable (h : Inv glob channelOf st)
include h

theorem effect_inv (he : Frame st st' ∧ Confined glob st ev st') :
    Inv glob channelOf st' ∧ (ev.own = true → Confined glob st ev st') :=
  ⟨frame_inv h he.1, fun _ => he.2⟩

/-- One step keeps the invariant, and an own one writes only through the
handles that its operation is entitled to. -/
theorem step_effect (hok : careful glob channelOf st ev) (hs : step glob channelOf st ev = some st') :
    Inv glob channelOf st' ∧ (ev.own = true → Confined glob st ev st') := by
  cases ev with
  | addAcl direction pattern allowed =>
    cases hs
    exact ⟨⟨addAcl_faithful h.faithful hok, h.routed, h.tasks⟩, fun _ => confined_of_eq rfl⟩
  | create c =>
    simp only [step] at hs
    split_ifs at hs with hc
    cases hs
    have hs := create_settled h.routed ((placed_gated glob st.acl c).trans hc)
    exact ⟨create_inv h hc, fun _ g => .inl (hides_of_slots (hs.rings g))⟩
  | destroy e =>
    cases hs
    exact effect_inv h (destroy_effect e)
  | publish t now data gid inBudget =>
    cases hs
    exact effect_inv h (publish_effect t now data gid inBudget)
  | borrow t maxSize =>
    cases hs
    exact effect_inv h (borrow_effect t maxSize)
  | store k ptr data =>
    simp only [step] at hs
    split_ifs at hs
    cases hs
    have hw := setRing_wrote st.world k (storeLoan (ringOf st.world k) ptr data)
    exact effect_inv h ⟨setWorld_frame hw, confined_of_wrote hw rfl⟩
  | commit t ptr size =>
    cases hs
    exact effect_inv h (commit_effect t ptr size)
  | request s clientGid now data peers =>
    cases hs
    exact effect_inv h (request_effect s clientGid now data peers)
  | response s clientGid seq now data =>
    cases hs
    exact effect_inv h (response_effect s clientGid seq now data)
  | deliver i now data =>
    cases hs
    exact effect_inv h (deliver_effect i now data)
  | elsewhere rings =>
    cases hs
    exact ⟨frame_inv h (elsewhere_frame rings), fun hown => by cases hown⟩

theorem Inv.channel (route : Endpoints.Route) {k : Nat} (hk : sender st.records route = some k) :
    channelOf (st.world.handles k).segment = topicOf route :=
  (h.routed route k (.inl hk)).2

theorem writes_permitted (hok : careful glob channelOf st ev) {k : Nat} (hw : writes glob st ev k) :
    permitted glob st (channelOf (st.world.handles k).segment) = true := by
  cases ev with
  | publish t now data gid inBudget =>
    rw [h.channel (.topic t) hw.2]
    exact aclAllows_permits h.faithful hok hw.1
  | store h' ptr data =>
    cases hw
    exact hok
  | commit t ptr size =>
    rw [h.channel (.topic t) hw]
    exact hok
  | request s clientGid now data peers =>
    rw [h.channel (.request s) hw.2]
    exact aclAllows_permits h.faithful hok hw.1
  | response s clientGid seq now data =>
    rw [h.channel (.response s) hw.2]
    exact aclAllows_permits h.faithful hok hw.1
  | deliver i now data =>
    obtain ⟨t, ht⟩ := hw
    rw [(h.tasks (t, k) (mem_of_getElem? ht)).2]
    exact hok (t, k) ht
  | addAcl | create | destroy | borrow | elsewhere => cases hw

end

theorem start_inv {publish : Option Text} (henv : ∀ p ∈ envPatterns publish, glob.valid p = true)
    (subscribe : Option Text) (rings : Nat → Ring) (handles : Nat → Session.Handle) (nodeId : Nat)
    (quic : Bool) :
    Inv glob channelOf (start glob publish subscribe rings handles nodeId quic) := by
  refine ⟨fromEnv_faithful henv subscribe, fun route k hk => ?_, fun task ht => by cases ht⟩
  rcases hk with hk | hk <;> cases route <;> cases hk

section Runs

variable {publish subscribe : Option Text} {rings : Nat → Ring} {handles : Nat → Session.Handle}
  {nodeId : Nat} {quic : Bool}

theorem careful_run_exposes_permitted (henv : ∀ p ∈ envPatterns publish, glob.valid p = true)
    (h : Reach (step glob channelOf) (careful glob channelOf)
      (start glob publish subscribe rings handles nodeId quic) st) :
    (st.acl.allowPublish = [] → publishRules st.rules = []) ∧
    ∀ ev st' g, ev.own = true → careful glob channelOf st ev → step glob channelOf st ev = some st' →
      Exposes st st' g → permitted glob st (channelOf g) = true := by
  have hinv : Inv glob channelOf st := h.invariant (I := Inv glob channelOf) (start_inv henv ..)
    fun _ _ _ hi hok hs => (step_effect hi hok hs).1
  refine ⟨fun hnil => ?_, fun ev st' g hown hok hs hx => ?_⟩
  · rw [hinv.faithful.patterns] at hnil
    exact map_eq_nil_iff.mp hnil
  obtain ⟨s, p, hnew, hold⟩ := hx
  rcases (step_effect hinv hok hs).2 hown g with hhide | ⟨k, hw, rfl⟩
  · exact absurd (hhide s p hnew) hold
  · exact writes_permitted hinv hok hw

end Runs

instance (ev : Event) : Decidable (careful glob channelOf st ev) := by
  unfold careful
  split <;> infer_instance

def literal : Glob := ⟨fun p => !p.contains '[', fun p name => decide (p = name)⟩

def secret : Topic := ⟨"/secret", "std_msgs/msg/String", 5⟩

def firstSession (publish : Option Text) : State :=
  start literal publish none (fun _ => RingBuffer.create RingHistory.twoSlots)
    (fun _ => ⟨0, fun _ => none, fun _ => none⟩) 7 false

def openSecret : Event := .create (.publisher none secret defaultSensor (.ok (0, 0)))

/-- A rule that denies the topic is entered as one that allows it. -/
theorem denied_topic_published :
    ¬ ∀ (glob : Glob) (channelOf : Nat → Nat) (publish subscribe : Option Text) (rings : Nat → Ring)
      (handles : Nat → Session.Handle) (nodeId : Nat) (quic : Bool) (st st' : State) (ev : Event) (g : Nat),
      Reach (step glob channelOf) anyStep (start glob publish subscribe rings handles nodeId quic) st →
      ev.own = true → step glob channelOf st ev = some st' → Exposes st st' g →
      permitted glob st (channelOf g) = true := by
  intro hall
  have hrun : (run (step literal fun _ => 5) [openSecret, .addAcl .publish "/secret".toList false]
      (firstSession none)).any (fun st => decide ((step literal (fun _ => 5) st
        (.publish 5 0 [1] 0 true)).any (fun st' => decide (shown (st'.world.rings 0) 0 = some [1] ∧
          shown (st.world.rings 0) 0 ≠ some [1] ∧ permitted literal st 5 = false)) = true)) = true := by
    decide +kernel
  obtain ⟨st, hst, hnext⟩ := exists_of_any hrun
  obtain ⟨st', hst', hnew, hold, hdeny⟩ := exists_of_any hnext
  have hper := hall literal (fun _ => 5) none none _ _ 7 false st st' _ 0
    (reach_of_run hst fun _ _ _ => trivial) rfl hst' ⟨0, [1], hnew, hold⟩
  rw [hdeny] at hper
  cases hper

/-- A topic that the environment allows is published on. -/
theorem allowed_topic_published :
    ∃ st st' : State, Exposes st st' 0 ∧ permitted literal st 5 = true := by
  have hrun : (guardedRun (step literal fun _ => 5) (careful literal fun _ => 5) [openSecret]
      (firstSession (some "/other, /secret".toList))).any (fun st => decide (
        careful literal (fun _ => 5) st (.publish 5 0 [1] 0 true) ∧
        (step literal (fun _ => 5) st (.publish 5 0 [1] 0 true)).any (fun st' => decide (
          shown (st'.world.rings 0) 0 = some [1] ∧ shown (st.world.rings 0) 0 ≠ some [1])) = true)) =
      true := by
    decide +kernel
  obtain ⟨st, hst, hok, hnext⟩ := exists_of_any hrun
  obtain ⟨st', hst', hnew, hold⟩ := exists_of_any hnext
  have hx : Exposes st st' 0 := ⟨0, [1], hnew, hold⟩
  exact ⟨st, st', hx, (careful_run_exposes_permitted (by decide +kernel)
    (reach_of_guardedRun hst)).2 _ st' 0 rfl hok hst' hx⟩

end RmwAxon.AclGate
