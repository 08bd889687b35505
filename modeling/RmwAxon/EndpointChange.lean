import RmwAxon.Endpoints

namespace RmwAxon.EndpointChange

open Qos Registry Endpoints Function
open Session (World Topic Tables Opened addPublisher addSubscription increment cacheQos forgetQos)
open SessionFrame (chooseHandle_frame)

def Unmoved (r r' : Records) : Prop :=
  r'.world.rings = r.world.rings ∧ r'.world.handles = r.world.handles

structure Added (e : Endpoint) (r r' : Records) : Prop where
  counted : ∀ e', count r' e' = if e' = e then some ((count r e).getD 0 + 1) else count r e'
  present : ∀ T k, has r' T k = true ↔ has r T k = true ∨ Needs e T k
  routes : Shared r → Shared r'

structure Released (e : Endpoint) (r r' : Records) : Prop where
  counted : ∀ e', count r' e' = if e' = e then (count r e).map (· - 1) else count r e'
  present : ∀ T k, has r' T k = has r T k
  senders : sender r' = sender r
  receivers : receiver r' = receiver r
  unmoved : Unmoved r r'

/-- What the destroy of the last endpoint does: caches that the partner uses stay. -/
structure Removed (e : Endpoint) (r r' : Records) : Prop where
  counted : ∀ e', count r' e' = if e' = e then none else count r e'
  present : ∀ T k, has r' T k = true ↔
    has r T k = true ∧ (Needs e T k → T.isCache = true ∧ registered r e.partner = true)
  senders : ∀ route a, sender r' route = some a → sender r route = some a
  receivers : ∀ route a, receiver r' route = some a → receiver r route = some a
  unmoved : Unmoved r r'

/-- A topic is counted in a direction exactly when the handle table has it. -/
structure Linked (s : Tables) : Prop where
  publishers : ∀ t, (s.publisherCounts t).isSome = (s.publishers t).isSome
  subscriptions : ∀ t, (s.subscriptionCounts t).isSome = (s.subscriptions t).isSome

@[simp] theorem isSome_insert {α : Type} (f : Nat → Option α) (a k : Nat) (v : α) :
    (update f a (some v) k).isSome = true ↔ (f k).isSome = true ∨ a = k := by
  by_cases hk : a = k
  · simp [hk]
  · simp [hk, Ne.symm hk]

@[simp] theorem isSome_remove {α : Type} (f : Nat → Option α) (a k : Nat) :
    (update f a none k).isSome = true ↔ (f k).isSome = true ∧ a ≠ k := by
  by_cases hk : a = k
  · simp [hk]
  · simp [hk, Ne.symm hk]

@[simp] theorem mem_addTopic (topics : List Nat) (t k : Nat) :
    k ∈ addTopic topics t ↔ k ∈ topics ∨ t = k := by
  unfold addTopic
  split_ifs with ht
  · constructor
    · exact .inl
    · rintro (hk | rfl)
      · exact hk
      · exact ht
  · simp [eq_comm]

@[simp] theorem mem_retainOthers (topics : List Nat) (t k : Nat) :
    k ∈ retainOthers topics t ↔ k ∈ topics ∧ t ≠ k := by
  simp [retainOthers, ne_comm]

theorem increment_apply (counts : Nat → Option Nat) (t k : Nat) :
    increment counts t k = if k = t then some ((counts t).getD 0 + 1) else counts k := by
  rw [increment, update_apply]

@[simp] theorem cacheQos_isSome (s : Tables) (t k : Nat) (qos : QosProfile) :
    (cacheQos s t qos s.nodeId k).isSome = true ↔
      (s.topicQosCache s.nodeId k).isSome = true ∨ t = k := by
  rw [cacheQos, update_self, isSome_insert]

@[simp] theorem forgetQos_isSome (s : Tables) (t k : Nat) :
    (forgetQos s t s.nodeId k).isSome = true ↔
      (s.topicQosCache s.nodeId k).isSome = true ∧ t ≠ k := by
  rw [forgetQos, update_self, isSome_remove]

variable {f g : Nat → Option Nat} {t s n : Nat} {r r' : Records} {env : Option Nat} {topic : Topic}
    {qos : QosProfile} {opened openedReq openedRes : Opened} {name type : String} {e : Endpoint}
variable {allowed counted : Bool}

theorem isSome_replace (h : counted = (f t).isSome) (a k : Nat) :
    ((if counted then update f t (some a) else f) k).isSome = (f k).isSome := by
  subst h
  split_ifs with hc
  · rw [Bool.eq_iff_iff, isSome_insert]
    constructor
    · rintro (hk | rfl)
      · exact hk
      · exact hc
    · exact .inl
  · rfl

theorem serviceHandle_frame {w w' : World} {existing : Option Nat} {k : Nat}
    (h : serviceHandle w existing opened = .ok (k, w')) :
    w'.session = w.session ∧ ∀ a, existing = some a → a = k := by
  refine ⟨(chooseHandle_frame h).2, ?_⟩
  rintro a rfl
  simp only [serviceHandle, Session.chooseHandle, Nat.zero_le, decide_true, Option.filter_some,
    if_true, Except.ok.injEq, Prod.mk.injEq] at h
  exact h.1

def Agree (f g : Nat → Option Nat) : Prop := ∀ t a b, f t = some a → g t = some b → a = b

theorem Agree.symm (h : Agree f g) : Agree g f :=
  fun t a b ha hb => (h t b a hb ha).symm

theorem Agree.insert (h : Agree f g) {k : Nat} (hk : ∀ a, g t = some a → a = k) :
    Agree (update f t (some k)) g := by
  intro x a b ha hb
  rw [update_apply] at ha
  split_ifs at ha with hx
  · cases ha
    exact (hk b (hx ▸ hb)).symm
  · exact h x a b ha hb

theorem Agree.replace (h : Agree f g) (hc : counted = (g t).isSome) (k : Nat) :
    Agree (update f t (some k)) (if counted then update g t (some k) else g) := by
  subst hc
  split_ifs with hg
  · intro x a b ha hb
    rw [update_apply] at ha hb
    split_ifs at ha hb
    · exact Option.some.inj (ha.symm.trans hb)
    · exact h x a b ha hb
  · exact h.insert fun a ha => absurd (by rw [ha]; rfl) hg

theorem shared_iff (r : Records) : Shared r ↔ Agree r.world.session.publishers r.world.session.subscriptions ∧
    Agree r.serviceRequestPubs r.serviceRequestSubs ∧
    Agree r.serviceResponsePubs r.serviceResponseSubs := by
  constructor
  · intro h
    exact ⟨fun t => h (.topic t), fun s => h (.request s), fun s => h (.response s)⟩
  rintro ⟨ht, hreq, hres⟩ (t | s | s)
  · exact ht t
  · exact hreq s
  · exact hres s

theorem create_added (hl : Linked r.world.session) {c : Creation} (h : create r c = (true, r')) :
    Added c.endpoint r r' := by
  cases c with
  | publisher env topic qos opened =>
    simp only [create, createPublisher, Session.createPublisher, outcome, Creation.endpoint] at h ⊢
    split at h
    · simp [Except.isOk, Except.toBool] at h
    rename_i w' hw
    split at hw
    · cases hw
    rename_i k w hc
    cases hw
    simp only [Prod.mk.injEq, apply_ite World.session, Session.setRing, ite_self,
      (chooseHandle_frame hc).2] at h
    obtain ⟨_, rfl⟩ := h
    refine ⟨fun e' => ?_, fun T x => ?_, fun hsh => ?_⟩
    · cases e' <;> simp [cacheTopic, addPublisher, increment_apply]
    · cases T <;> simp [cacheTopic, addPublisher, isSome_replace (hl.subscriptions _)]
    · rw [shared_iff] at hsh ⊢
      exact ⟨hsh.1.replace (hl.subscriptions _) k, hsh.2⟩
  | subscription env allowed topic qos opened =>
    simp only [create, createSubscription, outcome, Creation.endpoint] at h ⊢
    split at h
    · simp [Except.isOk, Except.toBool] at h
    rename_i seq w' hw
    obtain ⟨k, w, hs, _, rfl⟩ := SessionFrame.createSubscription_ok hw
    simp only [Prod.mk.injEq, hs] at h
    obtain ⟨_, rfl⟩ := h
    refine ⟨fun e' => ?_, fun T x => ?_, fun hsh => ?_⟩
    · cases e' <;> simp [cacheTopic, addSubscription, increment_apply]
    · cases T <;> simp [cacheTopic, addSubscription, isSome_replace (hl.publishers _)]
    · rw [shared_iff] at hsh ⊢
      exact ⟨(hsh.1.symm.replace (hl.publishers _) k).symm, hsh.2⟩
  | service s name type qos openedReq openedRes | client s name type qos openedReq openedRes =>
    simp only [create, createNamedService, createNamedClient, outcome, Creation.endpoint] at h ⊢
    split at h
    · simp [Except.isOk, Except.toBool] at h
    rename_i k w hk
    obtain ⟨hs, hreq⟩ := serviceHandle_frame hk
    split at h
    · simp [Except.isOk, Except.toBool] at h
    rename_i k' w' hk'
    obtain ⟨hs', hres⟩ := serviceHandle_frame hk'
    have hw := hs'.trans hs
    simp only [Prod.mk.injEq] at h
    obtain ⟨_, rfl⟩ := h
    refine ⟨fun e' => ?_, fun T x => ?_, fun hsh => ?_⟩
    · cases e' <;> simp [announce, cacheTopic, increment_apply, hw]
    · cases T <;> simp [announce, cacheTopic, hw, or_assoc, or_left_comm, or_comm]
    rw [shared_iff] at hsh ⊢
    refine ⟨by simpa only [announce, cacheTopic, hw] using hsh.1, ?_⟩
    first
    | exact ⟨(hsh.2.1.symm.insert hreq).symm, hsh.2.2.insert hres⟩
    | exact ⟨hsh.2.1.insert hreq, (hsh.2.2.symm.insert hres).symm⟩

theorem destroy_absent (h : count r e = none) : destroy r e = (false, r) := by
  cases e <;> simp only [count] at h <;>
    simp [destroy, outcome, destroyPublisher, Session.destroyPublisher, destroySubscription,
      Session.destroySubscription, destroyService, destroyClient, h, Except.isOk, Except.toBool]

theorem destroy_released (h : count r e = some n) (hn : 1 < n) :
    ∃ r', destroy r e = (true, r') ∧ Released e r r' := by
  cases e <;> simp only [count] at h <;>
    simp only [destroy, outcome, destroyPublisher, Session.destroyPublisher, destroySubscription,
      Session.destroySubscription, destroyService, destroyClient, h, hn, if_true,
      update_self, Option.isSome_some, Except.isOk, Except.toBool] <;>
    refine ⟨_, rfl, fun e' => ?_, fun T k => by cases T <;> rfl, rfl, rfl, rfl, rfl⟩ <;>
    cases e' <;> simp [update_apply, h]

theorem some_of_remove {x a : Nat} (h : update f t none x = some a) : f x = some a := by
  rw [update_apply] at h
  split_ifs at h
  exact h

theorem destroy_removed (h : count r e = some n) (hn : ¬ 1 < n) :
    ∃ r', destroy r e = (true, r') ∧ Removed e r r' := by
  cases e <;> simp only [count] at h <;>
    simp only [destroy, outcome, destroyPublisher, Session.destroyPublisher, destroySubscription,
      Session.destroySubscription, destroyService, destroyClient, h, hn, if_false, withdraw,
      update_self, Option.isSome_none, Bool.false_eq_true, Except.isOk, Except.toBool] <;>
    exact ⟨_, rfl, {
      counted := fun e' => by split <;> cases e' <;> simp [uncacheTopic, update_apply]
      present := fun T k => by
        split_ifs with hp <;> cases T <;> simp [uncacheTopic, hp, and_assoc, and_left_comm, and_comm]
      senders := fun route a ha => by
        split_ifs at ha <;> cases route <;> first | exact ha | exact some_of_remove ha
      receivers := fun route a ha => by
        split_ifs at ha <;> cases route <;> first | exact ha | exact some_of_remove ha
      unmoved := by split <;> exact ⟨rfl, rfl⟩ }⟩

end RmwAxon.EndpointChange
