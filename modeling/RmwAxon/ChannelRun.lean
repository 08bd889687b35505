import RmwAxon.Channels

namespace RmwAxon.ChannelRun

open List Option
open Channels Departure DomainSync LocalSlots Matching MatchPass MergeRounds NodeTable Transition Function
open Advertised (Advert Live Owner)
open DaemonRun (Pass Registration runPass)
open PeerSync (PeerNodeInfo)

variable {n : Nat} {st st' : State n} {table table' : Table n}

def NoOrigin (e : NodeTableEntry) : Prop := e.state = .empty → e.daemonOrigin = 0

structure Seated (table : Table n) (s : LiveSession n) : Prop where
  held : ∀ k, s.slot = some k → Held s (table k)
  idle : s.slot = none → s.topics = []

def Apart (a b : Option (Fin n)) : Prop := ∀ k, a = some k → b ≠ some k

structure Inv (st : State n) : Prop where
  seated : ∀ s ∈ st.sessions, Seated st.table s
  slots : (st.sessions.map LiveSession.slot).Pairwise Apart
  noOrigin : ∀ k, NoOrigin (st.table k)

theorem NoOrigin.congr {e e' : NodeTableEntry} (h : NoOrigin e) (hsame : SameNode e e') : NoOrigin e' :=
  fun hstate => hsame.daemonOrigin.trans (h (hsame.state ▸ hstate))

theorem noOrigin_blank {e : NodeTableEntry} (h : Blank e) : NoOrigin e := by
  obtain ⟨port, start, rfl⟩ := h
  exact fun _ => rfl

theorem noOrigin_lasting (nodes : List PeerNodeInfo) : Lasting nodes NoOrigin where
  blank := fun _ => noOrigin_blank
  pruned := fun _ _ _ hp h => h.congr hp.same
  filled := by
    intro origin now node _ e start _ hstate
    cases hstate

variable {p : Pass} {s : LiveSession n} {k : Fin n} {i : Nat}

theorem runPass_noOrigin (h : ∀ k, NoOrigin (table k)) (hp : runPass table p = some table')
    (k : Fin n) : NoOrigin (table' k) := by
  cases p with
  | pendingRegistrations =>
    refine NoOrigin.congr (fun hstate => ?_) (processPendingRegistrations_seats hp k)
    apply h k
    simp only [seat] at hstate
    split_ifs at hstate
    exact hstate
  | topicUpdates => exact (h k).congr (processTopicUpdates_sameNodes hp k)
  | departedNodes alive now =>
    cases hp
    obtain ⟨_, ⟨e, hblank, hpruned⟩ | ⟨seen, hpruned⟩⟩ := DaemonRun.processDepartedNodes_cases table k
    · exact (noOrigin_blank hblank).congr hpruned.same
    · refine NoOrigin.congr ?_ hpruned.same
      exact h k
  | removeMatches deadNodeId =>
    cases hp
    exact (h k).congr (daemon_removeMatches_pruned table deadNodeId k).same
  | mergeRemote origin now nodes =>
    cases hp
    exact mergeRemoteNodes_lasting (noOrigin_lasting nodes) h k
  | mergeInline origin now nodes =>
    cases hp
    exact (inlineMerge_merged nodes table).lasting (noOrigin_lasting nodes) h k

theorem merge_held (side : Side) {origin : Nat} (horigin : origin ≠ 0) (now : Nat)
    {nodes : List PeerNodeInfo} (h : Held s (table k)) (hid : Unlisted nodes (table k)) :
    Held s (merge side origin now nodes table k) := by
  obtain ⟨t, hthin, hrounds⟩ := merge_merged side horigin now nodes table
  rcases hthin k with ⟨hgone, _⟩ | ⟨_, hpruned⟩
  · rw [gone_local side horigin h.daemonOrigin] at hgone
    cases hgone
  · have hmid := h.congr hpruned.same
    exact hmid.congr (rounds_unnamed hrounds (List.Subset.refl nodes) hmid.occupied
      (by rw [hpruned.same.nodeId]; exact hid)).same

theorem departed_held {alive : Nat → Nat → Bool} {now : Nat} (h : Held s (table k))
    (halive : alive s.pid s.procStarttime = true) (hgrace : NotOverdue now (table k)) :
    Held s (processDepartedNodes alive now table k) := by
  obtain ⟨_, hpruned⟩ := processDepartedNodes_pruned alive now table k
  exact (h.testDeparted halive hgrace).congr hpruned.same

theorem pass_held (hok : careful st (.pass p)) (hs : step st (.pass p) = some st')
    (hmem : s ∈ st.sessions) (hk : s.slot = some k) (h : Held s (st.table k)) : Held s (st'.table k) := by
  cases p with
  | pendingRegistrations =>
    obtain ⟨table', hp, rfl⟩ := map_eq_some_iff.mp hs
    exact h.seat.congr (processPendingRegistrations_seats hp k)
  | topicUpdates =>
    obtain ⟨table', hp, rfl⟩ := map_eq_some_iff.mp hs
    exact h.congr (processTopicUpdates_sameNodes hp k)
  | departedNodes alive now =>
    cases hs
    exact departed_held h (hok.1 s hmem) (hok.2 s hmem k hk)
  | removeMatches deadNodeId =>
    cases hs
    exact h.congr (daemon_removeMatches_pruned st.table deadNodeId k).same
  | mergeRemote origin now nodes =>
    cases hs
    by_cases horigin : origin = 0
    · simpa [PeerSync.mergeRemoteNodes, horigin] using h
    · exact merge_held .receiving horigin now h (hok.resolve_left horigin s hmem k hk)
  | mergeInline origin now nodes =>
    cases hs
    exact merge_held .requesting hok.1 now h (hok.2 s hmem k hk)

theorem step_pass_cases (hs : step st (.pass p) = some st') :
    st'.sessions = st.sessions ∧ runPass st.table p = some st'.table := by
  obtain ⟨table', hp, rfl⟩ := map_eq_some_iff.mp hs
  exact ⟨rfl, hp⟩

section Create

variable {owner : Owner} {e : NodeTableEntry} {l : Live}

theorem mem_take_append {topics : List TopicEntry} (h : topics.length < maxTopicsPerNode) (a : Advert) :
    Advertised.topicEntry owner a ∈ (Advertised.append owner topics a).take maxTopicsPerNode := by
  rw [Advertised.append, if_pos h, take_of_length_le (by rw [length_append]; exact h)]
  exact mem_append_right _ (mem_singleton_self _)

theorem mem_advertisedHashes {t : Nat} :
    t ∈ advertisedHashes e ↔ (∃ p ∈ e.publishedTopics.take maxTopicsPerNode, p.hash = t) ∨
      ∃ p ∈ e.subscribedTopics.take maxTopicsPerNode, p.hash = t := by
  simp only [advertisedHashes, List.mem_map, mem_append, or_and_right, exists_or]

theorem register_mono (owner : Owner) (l : Live) : advertisedHashes e ⊆
    advertisedHashes (Advertised.register owner e l) := by
  have hmono : ∀ (announced : Option Advert) (topics : List TopicEntry), topics.take maxTopicsPerNode ⊆
      (announced.elim topics (Advertised.append owner topics)).take maxTopicsPerNode := by
    intro announced topics
    cases announced with
    | none => exact List.Subset.refl _
    | some a =>
      simp only [Option.elim_some, Advertised.append]
      split_ifs
      · rw [take_append]
        exact subset_append_left ..
      · exact List.Subset.refl _
  intro t ht
  rw [mem_advertisedHashes, Advertised.register_publishedTopics, Advertised.register_subscribedTopics]
  rcases mem_advertisedHashes.mp ht with ⟨p, hp, rfl⟩ | ⟨p, hp, rfl⟩
  · exact .inl ⟨p, hmono _ _ hp, rfl⟩
  · exact .inr ⟨p, hmono _ _ hp, rfl⟩

theorem register_announces (hpub : ∀ a ∈ l.published, Fits e.publishedTopics e a)
    (hsub : ∀ a ∈ l.subscribed, Fits e.subscribedTopics e a) {t : Nat} (ht : t ∈ endpointTopics l) :
    t ∈ advertisedHashes (Advertised.register owner e l) := by
  rcases mem_append.mp ht with ht | ht
  · obtain ⟨a, ha, rfl⟩ := map_eq_some_iff.mp (mem_toList.mp ht)
    rcases hpub a ha with hlt | hmem
    · refine mem_advertisedHashes.mpr (.inl ⟨Advertised.topicEntry owner a, ?_, rfl⟩)
      rw [Advertised.register_publishedTopics, ha]
      exact mem_take_append hlt a
    · exact register_mono owner l hmem
  · obtain ⟨a, ha, rfl⟩ := map_eq_some_iff.mp (mem_toList.mp ht)
    rcases hsub a ha with hlt | hmem
    · refine mem_advertisedHashes.mpr (.inr ⟨Advertised.topicEntry owner a, ?_, rfl⟩)
      rw [Advertised.register_subscribedTopics, ha]
      exact mem_take_append hlt a
    · exact register_mono owner l hmem

theorem held_create {s : LiveSession n} (h : Held s e) (hfits : Announces l e) (owner : Owner) :
    Held { s with endpoints := l :: s.endpoints } (Advertised.register owner e l) := by
  have htopics : ∀ t ∈ LiveSession.topics { s with endpoints := l :: s.endpoints },
      t ∈ advertisedHashes (Advertised.register owner e l) := by
    intro t ht
    rw [LiveSession.topics, flatMap_cons, mem_append] at ht
    rcases ht with ht | ht
    · exact register_announces hfits.1 hfits.2 ht
    · exact register_mono owner l (h.topics t ht)
  revert htopics
  unfold Advertised.register
  cases l.published <;> cases l.subscribed <;>
    exact fun htopics => ⟨h.state, h.daemonOrigin, h.domainId, h.pid, h.procStarttime, h.running, htopics⟩

end Create

section Sessions

variable {i : Nat} {s s' : LiveSession n} {f : NodeTableEntry → NodeTableEntry}

theorem noOrigin_update {e : NodeTableEntry} (h : ∀ k, NoOrigin (table k)) {k : Fin n} (he : NoOrigin e)
    (j : Fin n) : NoOrigin (update table k e j) :=
  (forall_update_iff table fun _ => NoOrigin).mpr ⟨he, fun j _ => h j⟩ j

theorem noOrigin_writeSlot (h : ∀ k, NoOrigin (table k)) (slot : Option (Fin n))
    (hf : ∀ k, slot = some k → NoOrigin (f (table k))) (j : Fin n) :
    NoOrigin (writeSlot table slot f j) := by
  cases slot with
  | none => exact h j
  | some k => exact noOrigin_update h (hf k rfl) j

theorem slot_ne {sessions : List (LiveSession n)} (h : (sessions.map LiveSession.slot).Pairwise Apart)
    {j : Nat} (hi : sessions[i]? = some s) (hj : sessions[j]? = some s') (hij : j ≠ i) {k : Fin n}
    (hk : s'.slot = some k) : s.slot ≠ some k := by
  obtain ⟨hi', rfl⟩ := List.getElem?_eq_some_iff.mp hi
  obtain ⟨hj', rfl⟩ := List.getElem?_eq_some_iff.mp hj
  have hpair := pairwise_iff_getElem.mp (pairwise_map.mp h)
  rcases Nat.lt_or_gt_of_ne hij with hlt | hlt
  · exact hpair j i hj' hi' hlt k hk
  · exact fun hs => hpair i j hi' hj' hlt k hs hk

theorem Seated.write (h : Seated table s') (hne : ∀ k, s'.slot = some k → s.slot ≠ some k) :
    Seated (writeSlot table s.slot f) s' := by
  refine ⟨fun k hk => ?_, h.idle⟩
  have hsame : writeSlot table s.slot f k = table k := by
    cases hs : s.slot with
    | none => rfl
    | some j =>
      refine update_of_ne ?_ _ _
      rintro rfl
      exact hne k hk hs
  rw [hsame]
  exact h.held k hk

theorem Inv.replace (h : Inv st) (hi : st.sessions[i]? = some s) (hslot : s'.slot = s.slot)
    (hseated : Seated (writeSlot st.table s.slot f) s')
    (hf : ∀ k, s.slot = some k → NoOrigin (f (st.table k))) :
    Inv ⟨writeSlot st.table s.slot f, st.sessions.set i s'⟩ where
  seated := by
    intro a ha
    obtain ⟨j, hj⟩ := mem_iff_getElem?.mp ha
    rw [getElem?_set] at hj
    split_ifs at hj with hij hlt
    · cases hj
      exact hseated
    · exact (h.seated a (mem_of_getElem? hj)).write fun k => slot_ne h.slots hi hj (Ne.symm hij)
  slots := by
    obtain ⟨hlt, rfl⟩ := List.getElem?_eq_some_iff.mp hi
    rw [map_set, hslot]
    have hself : (st.sessions.map LiveSession.slot).set i st.sessions[i].slot =
        st.sessions.map LiveSession.slot := by
      rw [← getElem_map LiveSession.slot (h := by simpa using hlt), set_getElem_self]
    rw [hself]
    exact h.slots
  noOrigin := noOrigin_writeSlot h.noOrigin s.slot hf

theorem Inv.remove (h : Inv st) (hi : st.sessions[i]? = some s)
    (hf : ∀ k, s.slot = some k → NoOrigin (f (st.table k))) :
    Inv ⟨writeSlot st.table s.slot f, st.sessions.eraseIdx i⟩ where
  seated := by
    intro a ha
    obtain ⟨j, hji, hj⟩ := mem_eraseIdx_iff_getElem?.mp ha
    exact (h.seated a (mem_of_getElem? hj)).write fun k => slot_ne h.slots hi hj hji
  slots := h.slots.sublist ((eraseIdx_sublist ..).map _)
  noOrigin := noOrigin_writeSlot h.noOrigin s.slot hf

theorem writeSlot_self (table : Table n) (k : Fin n) : writeSlot table (some k) f k = f (table k) :=
  update_self ..

theorem writeSlot_id (table : Table n) (slot : Option (Fin n)) : writeSlot table slot id = table := by
  cases slot with
  | none => rfl
  | some k => exact update_eq_self k table

theorem Inv.append (h : Inv ⟨table, st.sessions⟩) (hs : Seated table s)
    (hnew : ∀ a ∈ st.sessions, Apart a.slot s.slot) : Inv ⟨table, st.sessions ++ [s]⟩ where
  seated := by
    intro a ha
    rcases mem_append.mp ha with ha | ha
    · exact h.seated a ha
    · rw [mem_singleton.mp ha]
      exact hs
  slots := by
    rw [map_append, map_singleton, pairwise_append]
    refine ⟨h.slots, pairwise_singleton .., fun slot hslot b hb => ?_⟩
    obtain ⟨a, ha, rfl⟩ := List.mem_map.mp hslot
    rw [mem_singleton.mp hb]
    exact hnew a ha
  noOrigin := h.noOrigin

end Sessions

theorem Inv.register (h : Inv st) (hempty : (st.table k).state = .empty) {r : Registration}
    (hpid : 0 < r.pid) :
    Inv ⟨update st.table k (DaemonRun.register r (st.table k)),
      st.sessions ++ [⟨some k, r.domainId, r.pid, r.procStarttime, []⟩]⟩ := by
  have hnew : Held (n := n) ⟨some k, r.domainId, r.pid, r.procStarttime, []⟩
      (DaemonRun.register r (st.table k)) :=
    ⟨.inl rfl, h.noOrigin k hempty, rfl, rfl, rfl, hpid, fun _ ht => (not_mem_nil ht).elim⟩
  have hother : ∀ s ∈ st.sessions, s.slot ≠ some k := by
    intro s hs hk
    have hocc := ((h.seated s hs).held k hk).occupied
    rw [isOccupied, hempty] at hocc
    cases hocc
  refine Inv.append ⟨fun s hs => ⟨fun j hj => ?_, (h.seated s hs).idle⟩, h.slots,
    noOrigin_update h.noOrigin fun hstate => by cases hstate⟩ ⟨fun j hj => ?_, fun hnone => by cases hnone⟩
    fun s hs j hj hk => hother s hs (hj.trans hk.symm)
  · change Held s (update st.table k (DaemonRun.register r (st.table k)) j)
    rw [update_of_ne (by rintro rfl; exact hother s hs hj)]
    exact (h.seated s hs).held j hj
  · cases hj
    rw [update_self]
    exact hnew

theorem Inv.create (h : Inv st) (hi : st.sessions[i]? = some s) (hk : s.slot = some k)
    {owner : Owner} {l : Live} (hfits : Announces l (st.table k)) :
    Inv ⟨writeSlot st.table s.slot fun e => Advertised.register owner e l,
      st.sessions.set i { s with endpoints := l :: s.endpoints }⟩ := by
  have hheld := held_create ((h.seated s (mem_of_getElem? hi)).held k hk) hfits owner
  refine h.replace hi rfl ⟨fun j hj => ?_, fun hnone => ?_⟩ fun j hj _ => ?_
  · rw [some.inj (hj.symm.trans hk)]
    have hself : writeSlot st.table s.slot (fun e => Advertised.register owner e l) k =
        Advertised.register owner (st.table k) l := by rw [hk, writeSlot_self]
    rw [hself]
    exact hheld
  · cases hnone.symm.trans hk
  · rw [some.inj (hj.symm.trans hk)]
    exact hheld.daemonOrigin

theorem Inv.destroy (h : Inv st) (hi : st.sessions[i]? = some s) (l : Live) :
    Inv ⟨st.table, st.sessions.set i { s with endpoints := s.endpoints.erase l }⟩ := by
  have hseated := h.seated s (mem_of_getElem? hi)
  have hfewer : LiveSession.topics { s with endpoints := s.endpoints.erase l } ⊆ s.topics := by
    intro t ht
    obtain ⟨l', hl', ht⟩ := mem_flatMap.mp ht
    exact mem_flatMap.mpr ⟨l', mem_of_mem_erase hl', ht⟩
  have hset : Inv ⟨writeSlot st.table s.slot id,
      st.sessions.set i { s with endpoints := s.endpoints.erase l }⟩ := by
    refine h.replace hi rfl ⟨fun k hk => ?_, fun hnone => ?_⟩ fun k _ => h.noOrigin k
    · have hheld := hseated.held k hk
      rw [writeSlot_id]
      exact ⟨hheld.state, hheld.daemonOrigin, hheld.domainId, hheld.pid, hheld.procStarttime,
        hheld.running, fun t ht => hheld.topics t (hfewer ht)⟩
    · exact subset_nil.mp (hseated.idle hnone ▸ hfewer)
  rwa [writeSlot_id] at hset

theorem Inv.setNodeName (h : Inv st) (hi : st.sessions[i]? = some s) (name namespace_ : Text) :
    Inv ⟨writeSlot st.table s.slot fun e => { e with
      nodeName := copyStr maxNodeNameLen name, nodeNamespace := copyStr maxNodeNsLen namespace_ },
      st.sessions⟩ := by
  have hseated := h.seated s (mem_of_getElem? hi)
  have hset := h.replace hi rfl (f := fun e => { e with
      nodeName := copyStr maxNodeNameLen name, nodeNamespace := copyStr maxNodeNsLen namespace_ })
    ⟨fun k hk => ?_, hseated.idle⟩ fun k _ => h.noOrigin k
  · obtain ⟨hlt, rfl⟩ := List.getElem?_eq_some_iff.mp hi
    rwa [set_getElem_self] at hset
  have hheld := hseated.held k hk
  rw [hk, writeSlot_self]
  exact ⟨hheld.state, hheld.daemonOrigin, hheld.domainId, hheld.pid, hheld.procStarttime, hheld.running,
    hheld.topics⟩

theorem step_inv {ev : Event n} (h : Inv st) (hok : careful st ev) (hs : step st ev = some st') :
    Inv st' := by
  cases ev with
  | register k r =>
    simp only [step] at hs
    split_ifs at hs with hfree
    cases hs
    exact h.register hfree.1 hfree.2
  | fallBack domainId pid procStarttime =>
    cases hs
    exact h.append ⟨fun k hk => (by cases hk), fun _ => rfl⟩ fun _ _ _ _ hnone => by cases hnone
  | create i owner l =>
    obtain ⟨s, hi, rfl⟩ := map_eq_some_iff.mp hs
    obtain ⟨k, hk, hfits⟩ := hok s hi
    exact h.create hi hk hfits
  | destroy i l =>
    obtain ⟨s, hi, rfl⟩ := map_eq_some_iff.mp hs
    exact h.destroy hi l
  | setNodeName i name namespace_ =>
    obtain ⟨s, hi, rfl⟩ := map_eq_some_iff.mp hs
    exact h.setNodeName hi name namespace_
  | close i =>
    obtain ⟨s, hi, rfl⟩ := map_eq_some_iff.mp hs
    exact h.remove hi fun _ _ hstate => by cases hstate
  | crash i =>
    obtain ⟨s, hi, rfl⟩ := map_eq_some_iff.mp hs
    have hrest : Inv ⟨writeSlot st.table s.slot id, st.sessions.eraseIdx i⟩ :=
      h.remove hi fun k _ => h.noOrigin k
    rwa [writeSlot_id] at hrest
  | pass p =>
    obtain ⟨hsessions, hp⟩ := step_pass_cases hs
    refine ⟨fun s hmem => ?_, hsessions ▸ h.slots, runPass_noOrigin h.noOrigin hp⟩
    rw [hsessions] at hmem
    have hseated := h.seated s hmem
    exact ⟨fun k hk => pass_held hok hs hmem hk (hseated.held k hk), hseated.idle⟩

/-- Along a run that meets the guard no departure pass unlinks the ring of a
topic that a session which runs has an endpoint on. -/
theorem careful_run_keeps_rings (h : Reach step careful (start n) st) {alive : Nat → Nat → Bool}
    {now : Nat} (hok : careful st (.pass (.departedNodes alive now))) {c : Channel}
    (hc : c ∈ unlinkedChannels alive now st.table) {s : LiveSession n} (hs : s ∈ st.sessions)
    (hdomain : c.1 = s.domainId) : c.2 ∉ s.topics := by
  obtain ⟨hbefore, hafter⟩ := mem_unlinkedChannels hc
  obtain ⟨_, _, _, _, hne, _⟩ := mem_localChannels.mp hbefore
  intro ht
  have hinv : Inv st := h.invariant
    ⟨fun _ hs => (not_mem_nil hs).elim, List.Pairwise.nil, fun _ _ => rfl⟩ fun _ _ _ => step_inv
  have hseated := hinv.seated s hs
  cases hslot : s.slot with
  | none =>
    rw [hseated.idle hslot] at ht
    cases ht
  | some k =>
    have hheld := departed_held (hseated.held k hslot) (hok.1 s hs) (hok.2 s hs k hslot)
    exact hafter (mem_localChannels.mpr ⟨k, hheld.occupied, hheld.daemonOrigin,
      hdomain.trans hheld.domainId.symm, hne, hheld.topics _ ht⟩)

instance (st : State n) (ev : Event n) : Decidable (careful st ev) := by
  unfold careful
  split <;> infer_instance

def publisherOn (hash : Nat) : Live := ⟨.publisher hash, "/topic", "std_msgs/msg/String", Qos.defaultSensor⟩

def registration (nodeId pid : Nat) : Registration := ⟨nodeId, 0, pid, 0, 7000, [(10, 0, 0, 1)], 5⟩

/-- Two sessions share topic 5. The second one leaves, and with it topic 9. -/
def secondLeaves (j k : Fin n) : List (Event n) :=
  [.register j (registration 1 71), .create 0 ⟨"talker", "/"⟩ (publisherOn 5),
    .register k (registration 2 72), .create 1 ⟨"camera", "/"⟩ (publisherOn 5),
    .create 1 ⟨"camera", "/"⟩ (publisherOn 9), .close 1]

theorem shared_ring_stays :
    ∃ (st : State 2) (s : LiveSession 2), Reach step careful (start 2) st ∧ s ∈ st.sessions ∧
      (0, 9) ∈ unlinkedChannels everyProcess 6 st.table ∧ 5 ∈ s.topics ∧ 9 ∉ s.topics := by
  have hrun : ∃ j k : Fin 2, (guardedRun step careful (secondLeaves j k) (start 2)).any (fun st =>
      decide ((∃ s ∈ st.sessions, s.domainId = 0 ∧ 5 ∈ s.topics) ∧
        (0, 9) ∈ unlinkedChannels everyProcess 6 st.table ∧
        careful st (.pass (.departedNodes everyProcess 6)))) = true := by
    decide +kernel
  obtain ⟨j, k, hrun⟩ := hrun
  obtain ⟨st, hst, ⟨s, hs, hdomain, hfive⟩, hnine, hok⟩ := exists_of_any hrun
  have hreach := reach_of_guardedRun hst
  exact ⟨st, s, hreach, hs, hnine, hfive, careful_run_keeps_rings hreach hok hnine hs hdomain.symm⟩

/-- The first session fills its list before it creates a publisher on topic 9.
The second one announces topic 9 and leaves. -/
def crowdedOut (j k : Fin n) : List (Event n) :=
  .register j (registration 1 71) ::
    (List.replicate maxTopicsPerNode (.create 0 ⟨"talker", "/"⟩ (publisherOn 5)) ++
      [.create 0 ⟨"talker", "/"⟩ (publisherOn 9), .register k (registration 2 72),
        .create 1 ⟨"camera", "/"⟩ (publisherOn 9), .close 1])

/-- The ring of a topic that found no room in its session's list is unlinked. -/
theorem crowded_topic_unlinked :
    ¬ ∀ (n : Nat) (st : State n), Reach step anyStep (start n) st → ∀ alive now,
      allAlive alive st.sessions → ∀ c ∈ unlinkedChannels alive now st.table,
        ∀ s ∈ st.sessions, c.1 = s.domainId → c.2 ∉ s.topics := by
  intro hall
  have hrun : ∃ j k : Fin 2, (run step (crowdedOut j k) (start 2)).any (fun st =>
      decide ((∃ s ∈ st.sessions, s.domainId = 0 ∧ 9 ∈ s.topics) ∧
        (0, 9) ∈ unlinkedChannels everyProcess 6 st.table ∧ allAlive everyProcess st.sessions)) = true := by
    decide +kernel
  obtain ⟨j, k, hrun⟩ := hrun
  obtain ⟨st, hst, ⟨s, hs, hdomain, hnine⟩, hmem, halive⟩ := exists_of_any hrun
  exact hall 2 st (reach_of_run hst fun _ _ _ => trivial) everyProcess 6 halive (0, 9) hmem s hs
    hdomain.symm hnine

end RmwAxon.ChannelRun
