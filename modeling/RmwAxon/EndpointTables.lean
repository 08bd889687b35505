import RmwAxon.EndpointChange

namespace RmwAxon.EndpointTables

open Qos Registry Endpoints EndpointChange Roster Transition List Option
open Session (Topic newTables)

inductive Channel
  | topic (name : String)
  | request (service : String)
  | response (service : String)

structure Names where
  topicHash : String → Nat
  serviceId : String → Nat
  topics : Set String
  services : Set String

def Names.hash (N : Names) : Channel → Nat
  | .topic name => N.topicHash name
  | .request service => serviceRequestTopic (N.serviceId service)
  | .response service => serviceResponseTopic (N.serviceId service)

def Names.used (N : Names) : Set Channel
  | .topic name => name ∈ N.topics
  | .request service | .response service => service ∈ N.services

def Names.Apart (N : Names) : Prop := Set.InjOn N.hash N.used

def Known (N : Names) : Endpoint → Prop
  | .publisher t | .subscription t => ∃ name ∈ N.topics, N.topicHash name = t
  | .server s | .client s => ∃ service ∈ N.services, N.serviceId service = s

def Names.publisherOf (N : Names) : Channel → Endpoint
  | .topic name => .publisher (N.topicHash name)
  | .request service => .client (N.serviceId service)
  | .response service => .server (N.serviceId service)

def Names.subscriberOf (N : Names) : Channel → Endpoint
  | .topic name => .subscription (N.topicHash name)
  | .request service => .server (N.serviceId service)
  | .response service => .client (N.serviceId service)

variable {N : Names} {e e' : Endpoint} {T : Table} {k : Nat}

theorem known_channel (he : Known N e) :
    (e.published = some k → ∃ c ∈ N.used, e = N.publisherOf c ∧ N.hash c = k) ∧
      (e.subscribed = some k → ∃ c ∈ N.used, e = N.subscriberOf c ∧ N.hash c = k) := by
  cases e with
  | publisher t =>
    obtain ⟨name, hn, rfl⟩ := he
    exact ⟨fun hk => ⟨.topic name, hn, rfl, some.inj hk⟩, by rintro ⟨⟩⟩
  | subscription t =>
    obtain ⟨name, hn, rfl⟩ := he
    exact ⟨by rintro ⟨⟩, fun hk => ⟨.topic name, hn, rfl, some.inj hk⟩⟩
  | server s =>
    obtain ⟨v, hs, rfl⟩ := he
    exact ⟨fun hk => ⟨.response v, hs, rfl, some.inj hk⟩, fun hk => ⟨.request v, hs, rfl, some.inj hk⟩⟩
  | client s =>
    obtain ⟨v, hs, rfl⟩ := he
    exact ⟨fun hk => ⟨.request v, hs, rfl, some.inj hk⟩, fun hk => ⟨.response v, hs, rfl, some.inj hk⟩⟩

section Apart

variable (hN : N.Apart) (he : Known N e) (he' : Known N e')
include hN he he'

theorem published_inj (hk : e.published = some k) (hk' : e'.published = some k) : e' = e := by
  obtain ⟨c, hc, rfl, hh⟩ := (known_channel he).1 hk
  obtain ⟨c', hc', rfl, hh'⟩ := (known_channel he').1 hk'
  rw [hN hc' hc (hh'.trans hh.symm)]

theorem subscribed_inj (hk : e.subscribed = some k) (hk' : e'.subscribed = some k) : e' = e := by
  obtain ⟨c, hc, rfl, hh⟩ := (known_channel he).2 hk
  obtain ⟨c', hc', rfl, hh'⟩ := (known_channel he').2 hk'
  rw [hN hc' hc (hh'.trans hh.symm)]

theorem subscriber_partner (hk : e.published = some k) (hk' : e'.subscribed = some k) : e' = e.partner := by
  obtain ⟨c, hc, rfl, hh⟩ := (known_channel he).1 hk
  obtain ⟨c', hc', rfl, hh'⟩ := (known_channel he').2 hk'
  rw [hN hc' hc (hh'.trans hh.symm)]
  cases c <;> rfl

theorem needs_overlap (hk : Needs e T k) (hk' : Needs e' T k) :
    e' = e ∨ e' = e.partner ∧ T.isCache = true := by
  cases T with
  | publishers | subscriptions | localServices | localClients | serviceRequestSubs
  | serviceRequestPubs | serviceResponseSubs | serviceResponsePubs => exact .inl (hk'.trans hk.symm)
  | localPublishers | publishedTopics => exact .inl (published_inj hN he he' hk hk')
  | localSubscriptions | subscribedTopics => exact .inl (subscribed_inj hN he he' hk hk')
  | topicNameCache | topicTypeCache | topicQosCache =>
    rcases hk with hk | hk <;> rcases hk' with hk' | hk'
    · exact .inl (published_inj hN he he' hk hk')
    · exact .inr ⟨subscriber_partner hN he he' hk hk', rfl⟩
    · exact .inr ⟨by rw [subscriber_partner hN he' he hk' hk]; cases e' <;> rfl, rfl⟩
    · exact .inl (subscribed_inj hN he he' hk hk')

end Apart

theorem needs_partner (hc : T.isCache = true) (h : Needs e T k) : Needs e.partner T k := by
  cases T with
  | topicNameCache | topicTypeCache | topicQosCache => cases e <;> simpa [or_comm] using h
  | _ => cases hc

def Names.gives (N : Names) : Creation → Prop
  | .publisher _ topic _ _ | .subscription _ _ topic _ _ =>
    topic.name ∈ N.topics ∧ N.topicHash topic.name = topic.hash
  | .service serviceId name _ _ _ _ | .client serviceId name _ _ _ _ =>
    name ∈ N.services ∧ N.serviceId name = serviceId

def granted (N : Names) (st : State) : Event → Prop
  | .create c => N.gives c ∧ (create st.records c).1 = true
  | .destroy _ => True

structure Exact (st : State) : Prop where
  counts : ∀ e, count st.records e = tally (st.live.count e)
  entries : ∀ T k, has st.records T k = true ↔ ∃ e ∈ st.live, Needs e T k
  shared : Shared st.records
  destroys : ∀ e, (destroy st.records e).1 = true ↔ e ∈ st.live

structure Inv (N : Names) (st : State) : Prop where
  known : ∀ e ∈ st.live, Known N e
  counts : ∀ e, count st.records e = tally (st.live.count e)
  entries : ∀ T k, has st.records T k = true ↔ ∃ e ∈ st.live, Needs e T k
  shared : Shared st.records

variable {st : State}

theorem Inv.counted (h : Inv N st) (e : Endpoint) : (count st.records e).isSome = true ↔ e ∈ st.live := by
  rw [h.counts, ← ne_none_iff_isSome, ne_eq, tally_none, count_eq_zero, not_not]

theorem Inv.linked (h : Inv N st) : Linked st.records.world.session := by
  constructor
  · intro t
    rw [Bool.eq_iff_iff]
    refine (h.counted (.publisher t)).trans (Iff.trans ?_ (h.entries .publishers t).symm)
    simp
  · intro t
    rw [Bool.eq_iff_iff]
    refine (h.counted (.subscription t)).trans (Iff.trans ?_ (h.entries .subscriptions t).symm)
    simp

theorem Inv.registered (h : Inv N st) (e : Endpoint) : registered st.records e = true ↔ e ∈ st.live := by
  cases e with
  | publisher t => exact h.counted (.publisher t)
  | subscription t => exact h.counted (.subscription t)
  | server s => exact (h.entries .localServices s).trans (by simp)
  | client s => exact (h.entries .localClients s).trans (by simp)

variable {r : Records}

theorem added_inv (h : Inv N st) (he : Known N e) (ha : Added e st.records r) : Inv N ⟨r, e :: st.live⟩ := by
  refine ⟨?_, fun e' => ?_, fun T k => ?_, ha.routes h.shared⟩
  · intro e' he'
    rcases mem_cons.mp he' with rfl | he'
    · exact he
    · exact h.known e' he'
  · rw [ha.counted e', h.counts, h.counts]
    split_ifs with hee
    · subst hee
      rw [count_cons_self, tally_succ]
    · rw [count_cons_of_ne (Ne.symm hee)]
  · rw [ha.present, h.entries]
    simp [or_comm]

theorem released_inv (h : Inv N st) {n : Nat} (hc : count st.records e = some n) (hn : 1 < n)
    (hr : Released e st.records r) : Inv N ⟨r, st.live.erase e⟩ := by
  have hcount : st.live.count e = n := (tally_some.mp ((h.counts e).symm.trans hc)).1
  have hmem (e' : Endpoint) : e' ∈ st.live.erase e ↔ e' ∈ st.live := by
    by_cases hee : e' = e
    · subst hee
      rw [← count_pos_iff, count_erase_self, ← count_pos_iff]
      omega
    · exact mem_erase_of_ne hee
  refine ⟨fun e' he' => h.known e' ((hmem e').mp he'), fun e' => ?_, fun T k => ?_, ?_⟩
  · rw [hr.counted e', h.counts e']
    split_ifs with hee
    · subst hee
      rw [hc, count_erase_self, hcount]
      exact tally_pred hn
    · rw [count_erase_of_ne hee]
  · simp only [hr.present, h.entries, hmem]
  · unfold Shared
    rw [hr.senders, hr.receivers]
    exact h.shared

theorem removed_inv (hN : N.Apart) (h : Inv N st) {n : Nat} (hc : count st.records e = some n)
    (hn : ¬ 1 < n) (hr : Removed e st.records r) : Inv N ⟨r, st.live.erase e⟩ := by
  obtain ⟨hcount, hpos⟩ := tally_some.mp ((h.counts e).symm.trans hc)
  have hlive : e ∈ st.live := count_pos_iff.mp (by omega)
  have hmem (e' : Endpoint) : e' ∈ st.live.erase e ↔ e' ∈ st.live ∧ e' ≠ e := by
    by_cases hee : e' = e
    · subst hee
      rw [← count_pos_iff, count_erase_self]
      simp only [ne_eq, not_true_eq_false, and_false, iff_false]
      omega
    · rw [mem_erase_of_ne hee]
      simp [hee]
  refine ⟨fun e' he' => h.known e' ((hmem e').mp he').1, fun e' => ?_, fun T k => ?_, ?_⟩
  · rw [hr.counted e', h.counts e']
    split_ifs with hee
    · subst hee
      rw [count_erase_self, hcount]
      exact tally_last hn
    · rw [count_erase_of_ne hee]
  · rw [hr.present, h.entries, h.registered]
    constructor
    · rintro ⟨⟨e', he', hk'⟩, hkeep⟩
      by_cases hee : e' = e
      · subst hee
        obtain ⟨hcache, hpartner⟩ := hkeep hk'
        refine ⟨e'.partner, (hmem _).mpr ⟨hpartner, ?_⟩, needs_partner hcache hk'⟩
        cases e' <;> simp
      · exact ⟨e', (hmem e').mpr ⟨he', hee⟩, hk'⟩
    · rintro ⟨e', he', hk'⟩
      obtain ⟨hl', hee⟩ := (hmem e').mp he'
      refine ⟨⟨e', hl', hk'⟩, fun hk => ?_⟩
      rcases needs_overlap hN (h.known e hlive) (h.known e' hl') hk hk' with heq | ⟨rfl, hcache⟩
      · exact absurd heq hee
      · exact ⟨hcache, hl'⟩
  · intro route a b ha hb
    exact h.shared route a b (hr.senders route a ha) (hr.receivers route b hb)

theorem step_inv (hN : N.Apart) (h : Inv N st) {ev : Event} {st' : State} (hok : granted N st ev)
    (hs : step st ev = some st') : Inv N st' := by
  cases ev with
  | create c =>
    obtain ⟨hgive, hcreate⟩ := hok
    simp only [step, hcreate, if_true, some.injEq] at hs
    subst hs
    exact added_inv h (by cases c <;> exact ⟨_, hgive⟩) (create_added h.linked (Prod.ext hcreate rfl))
  | destroy e =>
    cases hc : count st.records e with
    | none =>
      simp only [step, destroy_absent hc, Bool.false_eq_true, if_false, some.injEq] at hs
      exact hs ▸ h
    | some n =>
      by_cases hn : 1 < n
      · obtain ⟨r, hd, hr⟩ := destroy_released hc hn
        simp only [step, hd, if_true, some.injEq] at hs
        exact hs ▸ released_inv h hc hn hr
      · obtain ⟨r, hd, hr⟩ := destroy_removed hc hn
        simp only [step, hd, if_true, some.injEq] at hs
        exact hs ▸ removed_inv hN h hc hn hr

theorem start_inv (rings : Nat → RingBuffer.Ring) (handles : Nat → Session.Handle) (nodeId : Nat)
    (quic : Bool) : Inv N (start rings handles nodeId quic) := by
  refine ⟨by simp [start], fun e => ?_, fun T k => ?_, fun route a b ha _ => ?_⟩
  · cases e <;> rfl
  · cases T <;> simp [start, newRecords, newTables]
  · cases route <;> cases ha

theorem destroy_isOk (r : Records) (e : Endpoint) : (destroy r e).1 = true ↔ (count r e).isSome = true := by
  cases hc : count r e with
  | none => simp [destroy_absent hc]
  | some n =>
    by_cases hn : 1 < n
    · obtain ⟨r', hd, _⟩ := destroy_released hc hn
      simp [hd]
    · obtain ⟨r', hd, _⟩ := destroy_removed hc hn
      simp [hd]

theorem tables_mirror_live (hN : N.Apart) {rings : Nat → RingBuffer.Ring}
    {handles : Nat → Session.Handle} {nodeId : Nat} {quic : Bool}
    (h : Reach step (granted N) (start rings handles nodeId quic) st) : Exact st := by
  have hinv : Inv N st := h.invariant (I := Inv N) (start_inv ..) fun _ _ _ hi hok hs =>
    step_inv hN hi hok hs
  exact ⟨hinv.counts, hinv.entries, hinv.shared, fun e => (destroy_isOk _ e).trans (hinv.counted e)⟩

def oneOfEach : Names where
  topicHash := fun _ => 1
  serviceId := fun _ => 2
  topics := {"/chatter"}
  services := {"/add"}

theorem oneOfEach_used {c : Channel} (hc : c ∈ oneOfEach.used) :
    c = .topic "/chatter" ∨ c = .request "/add" ∨ c = .response "/add" := by
  cases c with
  | topic name => exact .inl (congrArg Channel.topic hc)
  | request service => exact .inr (.inl (congrArg Channel.request hc))
  | response service => exact .inr (.inr (congrArg Channel.response hc))

theorem oneOfEach_apart : oneOfEach.Apart := by
  intro c hc c' hc' hh
  rcases oneOfEach_used hc with rfl | rfl | rfl <;> rcases oneOfEach_used hc' with rfl | rfl | rfl
  all_goals first
    | rfl
    | exact absurd hh (by decide)

instance (st : State) (ev : Event) : Decidable (granted oneOfEach st ev) :=
  match ev with
  | .create (.publisher _ topic _ _) | .create (.subscription _ _ topic _ _) =>
    inferInstanceAs (Decidable ((topic.name = "/chatter" ∧ 1 = topic.hash) ∧ _ = true))
  | .create (.service serviceId name _ _ _ _) | .create (.client serviceId name _ _ _ _) =>
    inferInstanceAs (Decidable ((name = "/add" ∧ 2 = serviceId) ∧ _ = true))
  | .destroy _ => inferInstanceAs (Decidable True)

def chatter : Topic := ⟨"/chatter", "std_msgs/msg/String", 1⟩

/-- The subscription needs larger slots than the publisher's handle has, and
the publisher is destroyed while the subscription stays. -/
def mixedRun : List Event :=
  [.create (.publisher none chatter defaultSensor (.ok (0, 0))),
    .create (.subscription none true chatter defaultSensor (.ok (1, 1))),
    .create (.service 2 "/add" "add" defaultSensor (.ok (2, 2)) (.ok (3, 3))),
    .create (.client 2 "/add" "add" defaultSensor (.ok (4, 4)) (.ok (5, 5))),
    .destroy (.publisher 1)]

theorem mixed_run_mirrored :
    ∃ st : State, st.live = [.client 2, .server 2, .subscription 1] ∧ Exact st := by
  have hrun : (guardedRun step (granted oneOfEach) mixedRun
      (start (fun _ => RingBuffer.create RingHistory.twoSlots)
        (fun _ => ⟨0, fun _ => none, fun _ => none⟩) 7 false)).any
          (fun st => decide (st.live = [.client 2, .server 2, .subscription 1])) = true := by
    decide +kernel
  obtain ⟨st, hst, hlive⟩ := exists_of_any hrun
  exact ⟨st, hlive, tables_mirror_live oneOfEach_apart (reach_of_guardedRun hst)⟩

end RmwAxon.EndpointTables
