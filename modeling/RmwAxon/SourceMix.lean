import RmwAxon.TwoSources

namespace RmwAxon.SourceMix

open Compress Qos Session SubscriberQueue QueueHistory QueueSelect Cursor List Option
open TwoSources Transition
open SessionFrame (setQueue)

variable {codec : Codec} {t : Nat}

structure OneSource (t initial : Nat) (src : Source) (st : State) : Prop where
  same : st.obtained = st.arrived
  only : ∀ m ∈ st.arrived, m.source = src
  cursor : st.subscriber.cursor = initial + st.arrived.length
  ring : ∃ h, st.subscriber.world.session.subscriptions t = some h ∧
    (ringOf st.subscriber.world h).writeIndex =
      if src = .ring then st.subscriber.cursor else initial
  queue : ∃ q, Drained t st.subscriber q ∧
    q.nextSeq = if src = .queue then st.subscriber.cursor else initial

structure Lost (st : State) : Prop where
  fewer : st.obtained.length < st.arrived.length
  mixed : ∃ m ∈ st.arrived, ∃ m' ∈ st.arrived, m.source ≠ m'.source

variable {st st' : State} {a : Arrival} {initial : Nat} {src : Source}

theorem step_lost (h : Lost st) (hs : step codec t st a = some st') : Lost st' := by
  unfold step at hs
  split at hs
  · cases hs
  rename_i m w _
  obtain rfl := (some.inj hs).symm
  constructor
  · have := h.fewer
    cases hr : (receive codec t { st.subscriber with world := w } a.later a.out).1 with
    | none | some => simp; omega
  · obtain ⟨m₁, h₁, m₂, h₂, hne⟩ := h.mixed
    exact ⟨m₁, mem_append_left _ h₁, m₂, mem_append_left _ h₂, hne⟩

theorem OneSource.switch (h : OneSource t initial src st) (hnil : st.arrived = []) (src' : Source) :
    OneSource t initial src' st := by
  have hc : st.subscriber.cursor = initial := by simp [h.cursor, hnil]
  obtain ⟨k, hk, hring⟩ := h.ring
  obtain ⟨q, hq, hnext⟩ := h.queue
  refine ⟨h.same, by simp [hnil], h.cursor, ⟨k, hk, ?_⟩, ⟨q, hq, ?_⟩⟩
  · simpa [hc] using hring
  · simpa [hc] using hnext

theorem ring_step (h : OneSource t initial .ring st) (hd : deliverable t st a)
    (ho : a.origin.source = .ring) (hs : step codec t st a = some st') :
    OneSource t initial .ring st' := by
  obtain ⟨⟨hne, _, hout⟩, hdel⟩ := hd
  simp only [ho] at hdel
  obtain ⟨k, hsub, hcur⟩ := h.ring
  obtain ⟨q, hq, hnext⟩ := h.queue
  rw [if_pos rfl] at hcur
  obtain ⟨hon, hqos, hlive⟩ := hdel k hsub
  obtain ⟨w', hp, rfl⟩ := step_ring hs ho hsub hon
  have hsel := hq.selected
  rw [← hcur] at hsel
  obtain ⟨w'', hr⟩ := ring_obtained codec hp hsub hsel hqos hlive hne hout.le
  have hk := receive_kept codec t ⟨w', (ringOf st.subscriber.world k).writeIndex⟩ a.later a.out
  rw [hr] at hk
  obtain ⟨ts, hts⟩ := hp.tables
  obtain ⟨ts', hts'⟩ := hk.tables
  obtain ⟨lo, hw⟩ := hq.window
  rw [← hcur, hr]
  refine ⟨?_, ?_, ?_, ⟨k, ?_, ?_⟩, ⟨q, ⟨?_, hq.window, ?_⟩, ?_⟩⟩
  · simp [h.same]
  · simpa [or_imp, forall_and] using h.only
  · simp [hcur, h.cursor, Nat.add_assoc]
  · rw [hts', hts]
    exact hsub
  · rw [if_pos rfl, (hk.ringOf k).writeIndex]
    exact hp.index
  · rw [hts', hts]
    exact hq.queue
  · exact select_none_mono hw.numbered hq.read (by simp [hcur])
  · simpa using hnext

theorem queue_step (h : OneSource t initial .queue st) (hd : deliverable t st a)
    (ho : a.origin.source = .queue) (hs : step codec t st a = some st') :
    OneSource t initial .queue st' := by
  obtain ⟨⟨_, hshort, hout⟩, hdel⟩ := hd
  simp only [ho] at hdel
  obtain ⟨k, hsub, hring⟩ := h.ring
  obtain ⟨q, ⟨hq, ⟨lo, hw⟩, hread⟩, hnext⟩ := h.queue
  rw [if_pos rfl] at hnext
  obtain ⟨hr, hlive⟩ := hdel q hq
  obtain rfl := step_queue hs ho hq
  rw [queue_obtained hr hw hread hnext.ge hshort hlive hout]
  refine ⟨?_, ?_, ?_, ⟨k, hsub, hring⟩, ⟨(push q a.now (compress codec a.payload)).2,
    ⟨by simp [setQueue], push_window hw hr _ _, ?_⟩, ?_⟩⟩
  · simp [h.same]
  · simpa [or_imp, forall_and] using h.only
  · simp [hnext, h.cursor, Nat.add_assoc]
  · exact push_select_none hr (Nat.lt_succ_self _) _ _
  · simp [push_accepted hr]

theorem OneSource.lost (h : OneSource t initial src st) (hsome : st.arrived ≠ []) {s : Subscriber}
    {m : Message} (hm : m.source ≠ src) :
    Lost ⟨s, st.arrived ++ [m], st.obtained⟩ := by
  obtain ⟨m', hm'⟩ := exists_mem_of_ne_nil _ hsome
  exact ⟨by simp [h.same], m, by simp, m', mem_append_left _ hm', by rwa [h.only m' hm']⟩

theorem ring_lost (h : OneSource t initial .queue st) (hsome : st.arrived ≠ [])
    (hd : deliverable t st a) (ho : a.origin.source = .ring) (hs : step codec t st a = some st') :
    Lost st' := by
  have hdel := hd.2
  simp only [ho] at hdel
  obtain ⟨k, hsub, hring⟩ := h.ring
  obtain ⟨q, hq, _⟩ := h.queue
  obtain ⟨hon, _, _⟩ := hdel k hsub
  obtain ⟨w', hp, rfl⟩ := step_ring hs ho hsub hon
  have hpos := length_pos_iff.mpr hsome
  have hahead : (ringOf st.subscriber.world k).writeIndex < st.subscriber.cursor := by
    rw [hring, h.cursor, if_neg (by decide)]
    omega
  rw [ring_missed hp hsub hq.selected hahead, toList_none, append_nil]
  exact h.lost hsome (by simp)

theorem queue_lost (h : OneSource t initial .ring st) (hsome : st.arrived ≠ [])
    (hd : deliverable t st a) (ho : a.origin.source = .queue) (hs : step codec t st a = some st') :
    Lost st' := by
  have hdel := hd.2
  simp only [ho] at hdel
  obtain ⟨k, hsub, hring⟩ := h.ring
  obtain ⟨q, hq, hnext⟩ := h.queue
  obtain ⟨hr, _⟩ := hdel q hq.queue
  obtain rfl := step_queue hs ho hq.queue
  have hpos := length_pos_iff.mpr hsome
  have hahead : q.nextSeq < st.subscriber.cursor := by
    rw [hnext, h.cursor, if_neg (by decide)]
    omega
  rw [if_pos rfl] at hring
  rw [queue_missed hr hsub hahead hring.le, toList_none, append_nil]
  exact h.lost hsome (by simp)

theorem step_oneSource (h : OneSource t initial src st) (hd : deliverable t st a)
    (hs : step codec t st a = some st') :
    (∃ src', OneSource t initial src' st') ∨ Lost st' := by
  by_cases hnil : st.arrived = []
  · cases ho : a.origin.source with
    | ring => exact .inl ⟨_, ring_step (h.switch hnil .ring) hd ho hs⟩
    | queue => exact .inl ⟨_, queue_step (h.switch hnil .queue) hd ho hs⟩
  cases src with
  | ring =>
    cases ho : a.origin.source with
    | ring => exact .inl ⟨_, ring_step h hd ho hs⟩
    | queue => exact .inr (queue_lost h hnil hd ho hs)
  | queue =>
    cases ho : a.origin.source with
    | ring => exact .inr (ring_lost h hnil hd ho hs)
    | queue => exact .inl ⟨_, queue_step h hd ho hs⟩

/-- A subscription that starts at the end of the ring and has opened the
queue of its topic obtains every message exactly if they all come from one
source. -/
theorem exactly_once_iff_one_source {w₀ w : World} {env : Option Nat} {allowed : Bool}
    {topic : Topic} {qos : QosProfile} {opened : Opened}
    (hc : createSubscription w₀ env allowed topic qos opened = (.ok initial, w))
    (hquic : w₀.session.quicTransport = true) (hnew : w₀.session.remoteRecvQueues topic.hash = none)
    (hvolatile : qos.durability ≠ .transientLocal)
    (h : Reach (step codec topic.hash) (deliverable topic.hash) (start w initial) st) :
    st.obtained.Perm st.arrived ↔ ∃ src, ∀ m ∈ st.arrived, m.source = src := by
  have hstart : OneSource topic.hash initial .ring (start w initial) := by
    obtain ⟨k, w₁, _, hseq, rfl⟩ := SessionFrame.createSubscription_ok hc
    rw [initialSeq, if_neg hvolatile] at hseq
    refine ⟨rfl, by simp [start], rfl, ⟨k, by simp [start, addSubscription], hseq.symm⟩,
      ⟨_, ⟨SessionFrame.createSubscription_opens hc hquic hnew, ⟨_, fresh_window ..⟩, rfl⟩, rfl⟩⟩
  have hinv : (∃ src, OneSource topic.hash initial src st) ∨ Lost st := by
    refine h.invariant (I := fun st => (∃ src, OneSource topic.hash initial src st) ∨ Lost st)
      (.inl ⟨_, hstart⟩) ?_
    intro s a u hi hd hs
    rcases hi with ⟨src, hi⟩ | hi
    · exact step_oneSource hi hd hs
    · exact .inr (step_lost hi hs)
  rcases hinv with ⟨src, hone⟩ | hlost
  · exact iff_of_true (by rw [hone.same]) ⟨src, hone.only⟩
  refine iff_of_false (fun hperm => Nat.ne_of_lt hlost.fewer hperm.length_eq) ?_
  rintro ⟨src, hall⟩
  obtain ⟨m, hm, m', hm', hne⟩ := hlost.mixed
  exact hne ((hall m hm).trans (hall m' hm').symm)

/-- Two messages from the network, and nothing from the host. -/
theorem network_alone_obtained : ∃ st : State, st.arrived.length = 2 ∧ st.obtained.Perm st.arrived := by
  have hproper : proper fromNetwork := ⟨by decide, by decide, by decide⟩
  have hfirst : deliverable 5 (start subscribed 0) fromNetwork := by
    refine ⟨hproper, ?_⟩
    rintro q ⟨⟩
    exact ⟨by decide +kernel, by decide +kernel⟩
  have hone : Reach (step plain 5) (deliverable 5) (start subscribed 0) _ :=
    .tail fromNetwork .refl hfirst rfl
  refine ⟨_, ?_, (exactly_once_iff_one_source subscribed_created rfl rfl (by decide)
    (.tail fromNetwork hone ⟨hproper, ?_⟩ rfl)).mpr ⟨.queue, ?_⟩⟩
  · decide +kernel
  · rintro q ⟨⟩
    exact ⟨by decide +kernel, by decide +kernel⟩
  · decide +kernel

end RmwAxon.SourceMix
