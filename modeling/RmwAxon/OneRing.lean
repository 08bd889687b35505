import RmwAxon.HostCount
import RmwAxon.SessionRun

namespace RmwAxon.OneRing

open Function
open Cells Compress Qos Session Segment Host HostFrame HostCreate HostRun HostInv HostChange HostCount
open Transition
open RingBuffer (Bytes Ring currentSeq readSlot)
open RingHistory (readMessage)
open SessionRun (chatter)

variable {codec : Codec} {x x' : Machine}

/-- All endpoints of a topic, in whatever session, use the same segment. -/
def Shared (x : Machine) : Prop :=
  ∀ t, ∃ g, ∀ i h, Entry (x.processes i).tables t h → ((x.processes i).handles h).segment = g

theorem shared_of_entries (hx : Shared x)
    (he : ∀ i t h, Entry (x'.processes i).tables t h → Entry (x.processes i).tables t h ∧
      ((x'.processes i).handles h).segment = ((x.processes i).handles h).segment) : Shared x' := by
  intro t
  obtain ⟨g, hg⟩ := hx t
  refine ⟨g, fun i h hh => ?_⟩
  obtain ⟨hold, hseg⟩ := he i t h hh
  exact hseg.trans (hg i h hold)

def Found (x : Machine) (r : Request) : Prop :=
  reused (world x r.session) r.existing r.slotSize = none →
    ∀ j k, j ≠ r.session → Entry (x.processes j).tables r.topic k →
      x.shm.linked r.topic = some ((x.processes j).handles k).segment ∧
      alignedStride r.slotSize ≤ (x.shm.rings ((x.processes j).handles k).segment).geometry.slotSize

variable {t k n : Nat} {st : State} {data : Bytes}

theorem opened_found {os : Os} {s shm : Shm} {depth slotSize seg g : Nat}
    (ho : createOrOpen os s t depth slotSize = (.ok seg, shm)) (hl : s.linked t = some g)
    (hfit : alignedStride slotSize ≤ (s.rings g).geometry.slotSize) : g = seg := by
  cases ho ▸ createOrOpen_cases os s t depth slotSize with
  | found hl' => exact Option.some.inj (hl.symm.trans hl')
  | made _ hlt => exact absurd (hlt g hl) (Nat.not_lt.mpr hfit)

theorem attached_shared {os : Os} {x₁ : Machine} {r : Request} {h : Nat} {w : World}
    (hx : Shared x) (ht : AllTidy x) (hf : Found x r)
    (ha : Attach os x r.session r.existing r.topic r.depth r.slotSize h x₁)
    (hex : ∀ k, r.existing = some k → Entry (x.processes r.session).tables r.topic k)
    (hh : w.handles = (x₁.processes r.session).handles)
    (hs : Moved w.session (x.processes r.session).tables r.topic h) :
    Shared (put x₁ r.session w) := by
  cases ha with
  | reuse hr =>
    refine shared_of_entries hx fun j u k hk => ?_
    simp only [put, update_apply] at hk ⊢
    split_ifs at hk ⊢ with hj
    · subst hj
      refine ⟨?_, by rw [hh]⟩
      rcases hs.entry u k hk with ⟨rfl, rfl⟩ | ⟨_, hk⟩
      · exact hex k (reused_mem hr)
      · exact hk
    · exact ⟨hk, rfl⟩
  | fresh hr ho =>
    rename_i seg shm
    simp only [attached, update_self] at hh
    intro u
    by_cases hu : u = r.topic
    · refine ⟨seg, fun j k hk => ?_⟩
      simp only [put, attached, update_apply] at hk ⊢
      split_ifs at hk ⊢ with hj
      · rcases hs.entry u k hk with ⟨_, rfl⟩ | ⟨hne, _⟩
        · simp only [hh, update_self]
        · exact absurd hu hne
      · obtain ⟨hl, hfit⟩ := hf hr j k hj (hu ▸ hk)
        exact opened_found ho hl hfit
    · obtain ⟨g, hg⟩ := hx u
      refine ⟨g, fun j k hk => ?_⟩
      simp only [put, attached, update_apply] at hk ⊢
      split_ifs at hk ⊢ with hj
      · rcases hs.entry u k hk with ⟨he, _⟩ | ⟨_, hk⟩
        · exact absurd he hu
        · simp only [hh, update_of_ne (Nat.ne_of_lt ((ht _).named u k hk))]
          exact hg _ k hk
      · exact hg j k hk

theorem change_shared {r : Option Request} (hx : Shared x) (ht : AllTidy x)
    (hf : ∀ q, r = some q → Found x q) (hc : Change x r x') : Shared x' := by
  cases hc with
  | quiet hq =>
    refine shared_of_entries hx fun i t h hh => ?_
    exact ⟨(TablesKept.entry (hq.processes i).tables).mp hh, (hq.processes i).segments h⟩
  | unlinked t => exact hx
  | shrunk hs =>
    refine shared_of_entries hx fun i t h hh => ?_
    simp only [put, update_apply] at hh ⊢
    split_ifs at hh ⊢ with hi
    · subst hi
      exact ⟨hs.entry t h hh, rfl⟩
    · exact ⟨hh, rfl⟩
  | attached hr ha hex _ hh hs => exact attached_shared hx ht (hf _ hr) ha hex hh hs

def onNamedRing (st : State) (r : Request) (p : Endpoint) : Prop :=
  p.session ≠ r.session → p.topic = r.topic →
    ∀ k ∈ handleOf (tables st p.session) p.publisher p.topic,
      st.machine.shm.linked r.topic = some (segment st p.session k) ∧
      alignedStride r.slotSize ≤ (st.machine.shm.rings (segment st p.session k)).geometry.slotSize

def findsRing (st : State) (ev : Event) : Prop :=
  ∀ r ∈ request st ev, reused (world st.machine r.session) r.existing r.slotSize = none →
    ∀ e < st.named, ∀ p ∈ st.endpoints e, onNamedRing st r p

theorem handle_entry {s : Tables} {b : Bool} (h : handleOf s b t = some k) : Entry s t k := by
  cases b
  · exact .inr h
  · exact .inl h

structure Inv (st : State) : Prop where
  tidy : AllTidy st.machine
  counted : Counted st
  shared : Shared st.machine

theorem step_inv {st' : State} {ev : Event} (h : Inv st) (hf : findsRing st ev)
    (hs : step codec st ev = some st') : Inv st' where
  tidy := step_tidy h.tidy hs
  counted := step_counted h.counted h.tidy hs
  shared := by
    refine change_shared h.shared h.tidy (fun r hr hnone j k hj hk => ?_) (step_change h.tidy hs)
    obtain ⟨b, hb⟩ : ∃ b, handleOf _ b _ = some k := hk.elim (⟨true, ·⟩) (⟨false, ·⟩)
    obtain ⟨e, p, hlt, hp, rfl, rfl, ht⟩ := h.counted.endpoint hb
    exact hf r hr hnone e hlt p hp hj ht k (ht ▸ hb)

theorem start_inv (quicTransport : Nat → Bool) : Inv (start quicTransport) := by
  refine ⟨start_tidy quicTransport, start_counted quicTransport, fun t => ⟨0, fun i h hh => ?_⟩⟩
  rcases hh with hh | hh <;> cases hh

theorem write_shown {m r : Ring} (h : RingBuffer.write m data = (.ok n, r)) (out : Bytes) :
    n = currentSeq m ∧ readSlot r n out = readMessage data out := by
  obtain ⟨rfl, hfit, k, rfl⟩ := RingHistory.write_ok h
  have hnone : RingHistory.Tracks m fun _ => none := ⟨by simp, by simp, by simp⟩
  have ht := RingHistory.publish_tracks hnone hfit k
  have hd := update_self (β := fun _ => Option Bytes) m.writeIndex (some data) fun _ => none
  refine ⟨rfl, RingHistory.readSlot_of_holds (ht.held _ data hd ?_) ?_ ?_ out⟩
  all_goals
    have := m.geometry.slotCount_pos
    simp only [RingBuffer.fillSlot_writeIndex, RingBuffer.slotCount, RingBuffer.fillSlot_geometry]
    omega

theorem publish_ring {i now gid : Nat} (h : (Host.publishWithGid x i t now data gid).1 = .ok n) :
    ∃ k r, (x.processes i).tables.publishers t = some k ∧
      RingBuffer.write (x.shm.rings ((x.processes i).handles k).segment) data = (.ok n, r) ∧
      (Host.publishWithGid x i t now data gid).2.shm.rings ((x.processes i).handles k).segment = r := by
  unfold Host.publishWithGid at h ⊢
  rcases publishWithGid_cases (world x i) t now data gid with ⟨e, he⟩ | ⟨k, r, gids, hp, hw, he | he⟩
  · rw [he] at h
    cases h
  all_goals
    rw [he] at h ⊢
    cases h
    refine ⟨k, r, hp, hw, ?_⟩
    exact update_self (β := fun _ => Ring) ((x.processes i).handles k).segment r x.shm.rings

theorem Inv.visible (h : Inv st) {i now gid j : Nat}
    (hp : (Host.publishWithGid st.machine i t now data gid).1 = .ok n)
    (hk : (tables st j).subscriptions t = some k) (out : Bytes) :
    n = currentSeq (ringOf (world st.machine j) k) ∧
    readSlot (ringOf (world (Host.publishWithGid st.machine i t now data gid).2 j) k) n out =
      readMessage data out := by
  obtain ⟨k', r, hk', hw, hr⟩ := publish_ring hp
  obtain ⟨g, hg⟩ := h.shared t
  have hseg : (((Host.publishWithGid st.machine i t now data gid).2.processes j).handles k).segment =
      ((st.machine.processes i).handles k').segment := by
    rw [((publishWithGid_quiet st.machine i t now data gid).processes j).segments k,
      hg j k (.inr hk), hg i k' (.inl hk')]
  obtain ⟨hn, hread⟩ := write_shown hw out
  refine ⟨?_, ?_⟩
  · rw [hn, ringOf, world, hg i k' (.inl hk'), hg j k (.inr hk)]
  · simp only [ringOf, world, hseg, hr]
    exact hread

/-- In every run in which each created endpoint finds the ring of the others,
all endpoints of a topic are attached to one ring, and a published message is
shown under the next number to every subscription. -/
theorem found_ring_shared {quicTransport : Nat → Bool} {st : State}
    (h : Reach (step codec) findsRing (start quicTransport) st) :
    (∀ e e' p p', st.endpoints e = some p → st.endpoints e' = some p' → p.topic = p'.topic →
      ∃ k k', handleOf (tables st p.session) p.publisher p.topic = some k ∧
        handleOf (tables st p'.session) p'.publisher p'.topic = some k' ∧
        segment st p.session k = segment st p'.session k') ∧
    ∀ e e' p p' data gid n, publisherOf st e = some p →
      (Host.publishWithGid st.machine p.session p.topic st.clock data gid).1 = .ok n → data ≠ [] →
      st.endpoints e' = some p' → p'.publisher = false → p'.topic = p.topic →
      ∃ k, (tables st p'.session).subscriptions p'.topic = some k ∧
        n = currentSeq (ringOf (world st.machine p'.session) k) ∧
        ∀ out, data.length ≤ out.length →
          readSlot (ringOf (world (Host.publishWithGid st.machine p.session p.topic st.clock data gid).2
            p'.session) k) n out = (.ok data.length, copyOut data out) := by
  have hi := h.invariant (I := Inv) (start_inv quicTransport) fun _ _ _ => step_inv
  refine ⟨?_, ?_⟩
  · intro e e' p p' he he' ht
    obtain ⟨k, hk⟩ := hi.counted.handle_some he
    obtain ⟨k', hk'⟩ := hi.counted.handle_some he'
    obtain ⟨g, hg⟩ := hi.shared p.topic
    refine ⟨k, k', hk, hk', ?_⟩
    exact (hg _ k (handle_entry hk)).trans (hg _ k' (ht ▸ handle_entry hk')).symm
  · intro e e' p p' data gid n _ hn hne he' hsub ht
    obtain ⟨k, hk⟩ := hi.counted.handle_some he'
    rw [hsub, ht] at hk
    have hk : (tables st p'.session).subscriptions p.topic = some k := hk
    refine ⟨k, ht ▸ hk, (hi.visible hn hk []).1, fun out hout => ?_⟩
    rw [(hi.visible hn hk out).2, RingHistory.readMessage_ok hne hout]

instance (st : State) (r : Request) (p : Endpoint) : Decidable (onNamedRing st r p) :=
  inferInstanceAs (Decidable (_ → _ → ∀ k ∈ handleOf (tables st p.session) p.publisher p.topic, _))

instance (st : State) (ev : Event) : Decidable (findsRing st ev) :=
  inferInstanceAs (Decidable (∀ r ∈ request st ev, _ → ∀ e < st.named, ∀ p ∈ st.endpoints e, _))

def sized (n : Nat) : QosProfile := { defaultSensor with maxMessageSize := n }

def twoSessions (published requested : Nat) : List Event :=
  [.createPublisher roomyOs none 0 chatter (sized published),
    .createSubscription roomyOs none true 1 chatter (sized requested)]

theorem larger_request_splits :
    ¬ ∀ codec quicTransport st, Reach (step codec) anyStep (start quicTransport) st →
      ∀ e e' p p' k k', st.endpoints e = some p → st.endpoints e' = some p' → p.topic = p'.topic →
        handleOf (tables st p.session) p.publisher p.topic = some k →
        handleOf (tables st p'.session) p'.publisher p'.topic = some k' →
        segment st p.session k = segment st p'.session k' := by
  intro hall
  have hrun : (run (step plain) (twoSessions 64 128) (start fun _ => false)).any (fun st => decide (
      st.endpoints 0 = some ⟨true, 0, 5, sized 64⟩ ∧ st.endpoints 1 = some ⟨false, 1, 5, sized 128⟩ ∧
      (tables st 0).publishers 5 = some 0 ∧ (tables st 1).subscriptions 5 = some 0 ∧
      segment st 0 0 = 0 ∧ segment st 1 0 = 1)) = true := by
    decide +kernel
  obtain ⟨st, hst, hp, hp', hk, hk', h₀, h₁⟩ := exists_of_any hrun
  have hsame := hall plain _ st (reach_of_run hst fun _ _ _ => trivial) 0 1 _ _ 0 0 hp hp' rfl hk hk'
  simp [h₀, h₁] at hsame

/-- A subscription that asks for no more than the publisher did is shown what
session 0 publishes. -/
theorem smaller_request_shares :
    ∃ st, segment st 0 0 = segment st 1 0 ∧
      readSlot (ringOf (world (Host.publishWithGid st.machine 0 5 st.clock [7] 0).2 1) 0) 0 [0] =
        (.ok 1, [7]) := by
  have hrun : (guardedRun (step plain) findsRing (twoSessions 128 64) (start fun _ => false)).any
      (fun st => decide (publisherOf st 0 = some ⟨true, 0, 5, sized 128⟩ ∧
        st.endpoints 0 = some ⟨true, 0, 5, sized 128⟩ ∧ st.endpoints 1 = some ⟨false, 1, 5, sized 64⟩ ∧
        (tables st 0).publishers 5 = some 0 ∧ (tables st 1).subscriptions 5 = some 0 ∧
        (Host.publishWithGid st.machine 0 5 st.clock [7] 0).1 = .ok 0)) = true := by
    decide +kernel
  obtain ⟨st, hst, hq, hp, hp', hk, hk', hok⟩ := exists_of_any hrun
  obtain ⟨hshare, hshow⟩ := found_ring_shared (reach_of_guardedRun hst)
  refine ⟨st, ?_, ?_⟩
  · obtain ⟨k, k', hpk, hpk', hseg⟩ := hshare 0 1 _ _ hp hp' rfl
    cases hk.symm.trans hpk
    cases hk'.symm.trans hpk'
    exact hseg
  · obtain ⟨k, hsub, _, hread⟩ := hshow 0 1 _ _ [7] 0 0 hq hok (by simp) hp' rfl rfl
    cases hk'.symm.trans hsub
    exact hread [0] (by simp)

end RmwAxon.OneRing
