import RmwAxon.HostCount
import RmwAxon.HostEpoch
import RmwAxon.HostStamp

namespace RmwAxon.Generation

open Compress Qos Session Segment Host HostFrame HostCreate HostRun HostInv HostChange HostCount Function
open HostOnward HostEpoch HostStamp Option
open RingBuffer (Bytes Ring oldestAvailableSeq generationStart)

variable {codec : Codec} {st st' : State}

def historyStart (m : Ring) : Nat := max (oldestAvailableSeq m) (generationStart m)

def ring (st : State) (g : Nat) : Ring := st.machine.shm.rings g

/-- The frames of a dead process are before the start of the history, those
that a live publisher has on the ring are not. -/
structure Inv (st : State) : Prop where
  tidy : AllTidy st.machine
  counted : Counted st
  loans : LoansBelow st.machine
  marked : ∀ g, g < st.machine.shm.created → generationStart (ring st g) ≤ (ring st g).writeIndex
  frame : ∀ g s f, st.frames g s = some f →
    g < st.machine.shm.created ∧ s < (ring st g).writeIndex ∧ f.publisher < st.named
  dead : ∀ g s f, st.frames g s = some f → st.alive f.session = false → s < historyStart (ring st g)
  live : ∀ g s f, st.frames g s = some f → st.endpoints f.publisher ≠ none →
    oldestAvailableSeq (ring st g) ≤ s → generationStart (ring st g) ≤ s

/-- What a step may do to frames and generation marks: a new frame is written
by a live process at or after the mark, a process dies whose frames are before
the start of the history, and a ring is marked on which no live publisher has
a retained frame. -/
structure Orderly (st' st : State) : Prop where
  onward : Onward st'.machine st.machine
  named : st.named ≤ st'.named
  endpoints : ∀ e, e < st.named → st'.endpoints e ≠ none → st.endpoints e ≠ none
  alive : ∀ g s f, st.frames g s = some f → st'.alive f.session = false →
    st.alive f.session = false ∨ s < historyStart (ring st g)
  frame : ∀ g s f, st'.frames g s = some f → st.frames g s = some f ∨
    (g < st.machine.shm.created ∧ s < (ring st' g).writeIndex ∧ f.publisher < st.named ∧
      st'.alive f.session = true ∧ generationStart (ring st' g) ≤ s)
  mark : ∀ g, g < st.machine.shm.created → generationStart (ring st' g) = generationStart (ring st g) ∨
    (generationStart (ring st' g) = (ring st' g).writeIndex ∧
      ∀ s f, st.frames g s = some f → oldestAvailableSeq (ring st g) ≤ s →
        st.endpoints f.publisher = none)
  fresh : ∀ g, ¬ g < st.machine.shm.created → g < st'.machine.shm.created →
    generationStart (ring st' g) ≤ (ring st' g).writeIndex

theorem orderly_inv (h : Inv st) (ho : Orderly st' st) (ht : AllTidy st'.machine) (hc : Counted st')
    (hl : LoansBelow st'.machine) : Inv st' := by
  have hahead {g : Nat} (hg : g < st.machine.shm.created) : Ahead (ring st' g) (ring st g) :=
    ho.onward.rings g hg
  refine ⟨ht, hc, hl, fun g hg => ?_, fun g s f hf => ?_, fun g s f hf hd => ?_, fun g s f hf he hold => ?_⟩
  · by_cases hlt : g < st.machine.shm.created
    · rcases ho.mark g hlt with he | ⟨he, _⟩
      · rw [he]
        exact (h.marked g hlt).trans (hahead hlt).writeIndex
      · exact he.le
    · exact ho.fresh g hlt hg
  · rcases ho.frame g s f hf with hf | ⟨hg, hs, hp, _, _⟩
    · obtain ⟨hg, hs, hp⟩ := h.frame g s f hf
      exact ⟨hg.trans_le ho.onward.created, hs.trans_le (hahead hg).writeIndex, hp.trans_le ho.named⟩
    · exact ⟨hg.trans_le ho.onward.created, hs, hp.trans_le ho.named⟩
  · rcases ho.frame g s f hf with hf | ⟨_, _, _, halive, _⟩
    · obtain ⟨hg, hs, _⟩ := h.frame g s f hf
      have hbefore : s < historyStart (ring st g) := by
        rcases ho.alive g s f hf hd with hd | hlt
        · exact h.dead g s f hf hd
        · exact hlt
      rcases ho.mark g hg with he | ⟨he, _⟩
      · unfold historyStart at hbefore ⊢
        rw [he]
        exact hbefore.trans_le (max_le_max_right _ (oldest_mono (hahead hg)))
      · unfold historyStart
        rw [he]
        exact (hs.trans_le (hahead hg).writeIndex).trans_le (le_max_right _ _)
    · rw [hd] at halive
      cases halive
  · rcases ho.frame g s f hf with hf | ⟨_, _, _, _, hmark⟩
    · obtain ⟨hg, _, hp⟩ := h.frame g s f hf
      have he := ho.endpoints f.publisher hp he
      have hold := (oldest_mono (hahead hg)).trans hold
      rcases ho.mark g hg with hsame | ⟨_, hnone⟩
      · rw [hsame]
        exact h.live g s f hf he hold
      · exact absurd (hnone s f hf hold) he
    · exact hmark

variable {os : Os} {x x₁ : Machine} {i t depth slotSize h e : Nat} {existing : Option Nat}
    {p : Endpoint}

theorem attach_rings (ha : Attach os x i existing t depth slotSize h x₁) {g : Nat} (hg : g < x.shm.created) :
    x₁.shm.rings g = x.shm.rings g := by
  cases ha with
  | reuse => rfl
  | fresh _ ho => exact createOrOpen_rings ho hg

theorem attach_fresh (ha : Attach os x i existing t depth slotSize h x₁) {g : Nat}
    (hg : ¬ g < x.shm.created) (hg' : g < x₁.shm.created) :
    (x₁.shm.rings g).epoch ≤ (x₁.shm.rings g).writeIndex := by
  cases ha with
  | reuse => exact absurd hg' hg
  | fresh _ ho =>
    cases ho ▸ createOrOpen_cases os x.shm t depth slotSize with
    | found => exact absurd hg' hg
    | made =>
      obtain rfl : g = x.shm.created := Nat.le_antisymm (Nat.le_of_lt_succ hg') (Nat.le_of_not_lt hg)
      simp [attached, link, RingBuffer.create]

theorem marked_ring (w : World) (h : Nat) (first : Bool) (g : Nat) : (marked w h first).rings g = w.rings g ∨
      (first = true ∧ g = (w.handles h).segment ∧
        (marked w h first).rings g = RingBuffer.markGeneration (w.rings g)) := by
  unfold marked
  split_ifs with hf
  · simp only [setRing, update_apply]
    split_ifs with hg
    · exact .inr ⟨hf, hg, by rw [hg]; rfl⟩
    · exact .inl rfl
  · exact .inl rfl

def keepsGeneration (st : State) : Event → Prop
  | .createPublisher _ _ i topic _ => (tables st i).publishers topic.hash = none →
      ∀ g < st.machine.shm.created, st.machine.shm.channel g = topic.hash →
        ∀ s < (ring st g).writeIndex, oldestAvailableSeq (ring st g) ≤ s →
          ∀ f ∈ st.frames g s, st.endpoints f.publisher = none
  | .commit e ptr _ => ∀ p ∈ publisherOf st e, ∀ h ∈ (tables st p.session).publishers p.topic,
      ∀ s ∈ (st.machine.processes p.session).loans h ptr,
        generationStart (ring st (segment st p.session h)) ≤ s
  | .die i => ∀ g < st.machine.shm.created, ∀ s < (ring st g).writeIndex,
      ∀ f ∈ st.frames g s, f.session = i → s < historyStart (ring st g)
  | _ => True

theorem orderly_of_same (ho : Onward st'.machine st.machine) (hn : st.named ≤ st'.named)
    (he : ∀ e, e < st.named → st'.endpoints e ≠ none → st.endpoints e ≠ none)
    (ha : st'.alive = st.alive) (hf : st'.frames = st.frames)
    (hm : ∀ g, g < st.machine.shm.created → generationStart (ring st' g) = generationStart (ring st g))
    (hfresh : ∀ g, ¬ g < st.machine.shm.created → g < st'.machine.shm.created →
      generationStart (ring st' g) ≤ (ring st' g).writeIndex) : Orderly st' st where
  onward := ho
  named := hn
  endpoints := he
  alive _ _ _ _ h := .inl (ha ▸ h)
  frame _ _ _ h := .inl (hf ▸ h)
  mark g hg := .inl (hm g hg)
  fresh := hfresh

theorem orderly_of_quiet (hq : Quiet st'.machine st.machine) (hn : st'.named = st.named)
    (he : st'.endpoints = st.endpoints) (ha : st'.alive = st.alive) (hf : st'.frames = st.frames)
    (hm : SameEpochs st'.machine.shm.rings st.machine.shm.rings) : Orderly st' st :=
  orderly_of_same (change_onward (r := none) (.quiet hq)) hn.ge (fun _ _ h => he ▸ h) ha hf
    (fun g _ => hm g) fun _ hg hg' => absurd (hq.created ▸ hg') hg

theorem addEndpoint_endpoints (st : State) (x : Machine) (created : Bool) (e : Endpoint) :
    st.named ≤ (addEndpoint st x created e).named ∧
    ∀ k, k < st.named → (addEndpoint st x created e).endpoints k = st.endpoints k := by
  unfold addEndpoint
  split_ifs
  · exact ⟨Nat.le_succ _, fun k hk => update_of_ne (Nat.ne_of_lt hk) _ _⟩
  · exact ⟨le_rfl, fun _ _ => rfl⟩

theorem failed_orderly {x' : Machine} {c : Bool} {e : Endpoint} (hf : Failed st.machine x' t) :
    Orderly (addEndpoint st x' c e) st := by
  obtain ⟨ha, hfr, -, -⟩ := addEndpoint_kept st x' c e
  obtain ⟨hn, he⟩ := addEndpoint_endpoints st x' c e
  have hm := addEndpoint_machine st x' c e
  refine orderly_of_same ?_ hn (fun k hk h => he k hk ▸ h) ha hfr (fun g _ => ?_) fun g hg hg' => ?_
  · rw [hm]
    exact change_onward (failed_change none hf)
  · rw [ring, ring, hm]
    rcases hf with rfl | rfl <;> rfl
  · rw [hm] at hg'
    rcases hf with rfl | rfl <;> exact absurd hg' hg

theorem attached_orderly (ha : Attach os st.machine i existing t depth slotSize h x₁) {w : World}
    (hh : w.handles = (x₁.processes i).handles) (hr : ∀ g, Ahead (w.rings g) (x₁.shm.rings g))
    (hm : ∀ g, w.rings g = x₁.shm.rings g ∨ (w.rings g = RingBuffer.markGeneration (x₁.shm.rings g) ∧
      (g < st.machine.shm.created → ∀ s f, st.frames g s = some f →
        oldestAvailableSeq (ring st g) ≤ s → st.endpoints f.publisher = none))) (c : Bool)
    (e : Endpoint) : Orderly (addEndpoint st (put x₁ i w) c e) st := by
  obtain ⟨hal, hfr, -, -⟩ := addEndpoint_kept st (put x₁ i w) c e
  obtain ⟨hn, hend⟩ := addEndpoint_endpoints st (put x₁ i w) c e
  have hmach := addEndpoint_machine st (put x₁ i w) c e
  have hring (g : Nat) : ring (addEndpoint st (put x₁ i w) c e) g = w.rings g := by
    rw [ring, hmach]
    rfl
  refine ⟨?_, hn, fun j hj h => hend j hj ▸ h, fun _ _ _ _ hd => .inl (hal ▸ hd),
    fun _ _ _ hf => .inl (hfr ▸ hf), fun g hg => ?_, fun g hg hg' => ?_⟩
  · rw [hmach]
    exact put_onward (attach_onward ha) hr hh
  · rw [hring]
    rcases hm g with hsame | ⟨hmark, hnone⟩
    · rw [hsame]
      exact .inl (congrArg Ring.epoch (attach_rings ha hg))
    · rw [hmark]
      exact .inr ⟨rfl, hnone hg⟩
  · rw [hmach] at hg'
    rw [hring]
    rcases hm g with hsame | ⟨hmark, _⟩
    · rw [hsame]
      exact attach_fresh ha hg hg'
    · rw [hmark]
      exact le_rfl

theorem createSubscription_orderly (hx : AllTidy st.machine) (os : Os) (env : Option Nat)
    (allowed : Bool) (i : Nat) (topic : Topic) (qos : QosProfile) (e : Endpoint) :
    Orderly (addEndpoint st (Host.createSubscription os env allowed st.machine i topic qos).2
      (isOk (Host.createSubscription os env allowed st.machine i topic qos).1) e) st := by
  rcases createSubscription_cases os env allowed st.machine i topic qos fun k hk =>
    existing_created hx (existingSubscription_entry hk) with ⟨er, x', he, hf⟩ | ⟨k, x₁, ha, he⟩
  · rw [he]
    exact failed_orderly hf
  · rw [he]
    exact attached_orderly ha rfl (fun _ => .refl _) (fun _ => .inl rfl) _ e

theorem createPublisher_orderly (h : Inv st) (os : Os) (env : Option Nat) (i : Nat) (topic : Topic)
    (qos : QosProfile) (hok : keepsGeneration st (.createPublisher os env i topic qos)) (e : Endpoint) :
    Orderly (addEndpoint st (Host.createPublisher os env st.machine i topic qos).2
      (isOk (Host.createPublisher os env st.machine i topic qos).1) e) st := by
  rcases createPublisher_cases os env st.machine i topic qos fun k hk =>
    existing_created h.tidy (existingPublisher_entry hk) with ⟨er, x', he, hf⟩ | ⟨k, x₁, ha, he⟩
  · rw [he]
    exact failed_orderly hf
  rw [he]
  refine attached_orderly ha (marked_handles _ k _) (marked_ahead _ k _) (fun g => ?_) _ e
  refine (marked_ring (world x₁ i) k (isFirst st.machine i topic.hash) g).imp_right ?_
  rintro ⟨hfirst, hseg, hr⟩
  refine ⟨hr, fun hg s f hf hold => ?_⟩
  have hseg : g = ((x₁.processes i).handles k).segment := hseg
  have hch : st.machine.shm.channel g = topic.hash := by
    rw [hseg] at hg ⊢
    rw [← (attach_onward ha).channel _ hg]
    cases ha with
    | reuse hkept => exact (h.tidy i).channel _ _ (existingPublisher_entry (reused_mem hkept))
    | fresh _ ho =>
      simp only [attached, update_self]
      exact (createOrOpen_ok ho).2.2
  exact hok (isNone_iff_eq_none.mp hfirst) g hg hch s (h.frame g s f hf).2.1 hold f hf

theorem publisher_live (hp : publisherOf st e = some p) :
    st.endpoints e = some p ∧ st.alive p.session = true := by
  have hlive := (filter_eq_some_iff.mp hp).1
  exact filter_eq_some_iff.mp hlive

theorem publish_orderly (h : Inv st) (hp : publisherOf st e = some p) (data : Bytes) (gid : Nat) :
    Orderly (applyPublish st e p data gid) st := by
  obtain ⟨he, halive⟩ := publisher_live hp
  have hepoch : SameEpochs (applyPublish st e p data gid).machine.shm.rings st.machine.shm.rings :=
    publishWithGid_epochs (world st.machine p.session) p.topic st.clock data gid
  rcases applyPublish_cases st e p data gid with hsame | ⟨k, n, hpub⟩
  · rw [hsame]
    exact orderly_of_quiet (.refl _) rfl rfl rfl rfl (.refl _)
  have hk := (h.tidy p.session).named p.topic k (.inl hpub.entry)
  have hg := (h.tidy p.session).created k hk
  refine ⟨hpub.onward, le_rfl, fun _ _ h => h, fun _ _ _ _ hd => .inl hd, fun g s f hf => ?_,
    fun g _ => .inl (hepoch g), fun g hg hg' => ?_⟩
  · rcases hpub.frame_cases hf with ⟨rfl, rfl, rfl⟩ | ⟨_, hf⟩
    · refine .inr ⟨hg, ?_, h.counted.named_lt he, halive, ?_⟩
      · exact hpub.next ▸ Nat.lt_succ_self _
      · rw [hpub.number]
        exact (hepoch _).le.trans (h.marked _ hg)
    · exact .inl hf
  · exact absurd ((publishWithGid_quiet ..).created ▸ hg') hg

theorem commit_orderly (h : Inv st) (hp : publisherOf st e = some p) (ptr size : Nat)
    (hok : keepsGeneration st (.commit e ptr size)) :
    Orderly (applyCommit st e p ptr size) st := by
  obtain ⟨he, halive⟩ := publisher_live hp
  have hq : Quiet (applyCommit st e p ptr size).machine st.machine := commitLoaned_quiet ..
  have hepoch : SameEpochs (applyCommit st e p ptr size).machine.shm.rings st.machine.shm.rings :=
    commitLoaned_epochs st.machine p.session p.topic ptr size
  refine ⟨change_onward (r := none) (.quiet hq), le_rfl, fun _ _ h => h, fun _ _ _ _ hd => .inl hd,
    fun g s f hf => ?_, fun g _ => .inl (hepoch g), fun g hg hg' => absurd (hq.created ▸ hg') hg⟩
  rcases recordFrame_cases hf with hf | ⟨rfl, k, hk, rfl, hseq⟩
  · exact .inl hf
  right
  have hloan : (st.machine.processes p.session).loans k ptr = some s := by
    split_ifs at hseq
    simpa [loanNumber, hk] using hseq
  have hlt := (h.loans p.session k ptr s hloan).2
  refine ⟨(h.tidy p.session).created k ((h.tidy p.session).named p.topic k (.inl hk)),
    hlt.trans_le (hq.rings _).writeIndex, h.counted.named_lt he, halive, ?_⟩
  exact (hepoch _).le.trans (hok p hp k hk s hloan)

theorem die_orderly (h : Inv st) (i : Nat) (hok : keepsGeneration st (.die i)) :
    Orderly (applyDeath st i) st := by
  refine ⟨?_, le_rfl, fun e _ he => ?_, fun g s f hf hd => ?_, fun _ _ _ hf => .inl hf,
    fun _ _ => .inl rfl, fun _ hg hg' => absurd hg' hg⟩
  · exact change_onward (r := none) (.shrunk (newTables_shrunk _ (tables st i).nodeId
      (tables st i).quicTransport))
  · intro hnone
    simp [applyDeath, hnone] at he
  by_cases hfi : f.session = i
  · obtain ⟨hg, hs, _⟩ := h.frame g s f hf
    exact .inr (hok g hg s hs f hf hfi)
  · left
    simpa [applyDeath, update_of_ne hfi] using hd

end RmwAxon.Generation
