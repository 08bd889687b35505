import RmwAxon.HostCreate

namespace RmwAxon.HostInv

open Session Segment Host HostFrame HostCreate HostRun Function

def Entry (s : Tables) (t h : Nat) : Prop := s.publishers t = some h ∨ s.subscriptions t = some h

/-- The bookkeeping of one process: its handles are opened ones, a handle in
use for a topic maps a segment of that topic, and none that the process opened
for it is newer. -/
structure Tidy (shm : Shm) (p : Process) : Prop where
  named : ∀ t h, Entry p.tables t h → h < p.opened
  created : ∀ h, h < p.opened → (p.handles h).segment < shm.created
  channel : ∀ t h, Entry p.tables t h → shm.channel (p.handles h).segment = t
  publisherCounted : ∀ t h, p.tables.publishers t = some h → p.tables.publisherCounts t ≠ none
  subscriptionCounted : ∀ t h, p.tables.subscriptions t = some h →
    p.tables.subscriptionCounts t ≠ none
  linked : ∀ h g, h < p.opened → shm.linked (shm.channel (p.handles h).segment) = some g →
    (p.handles h).segment ≤ g
  latest : ∀ t h k, Entry p.tables t h → k < p.opened → shm.channel (p.handles k).segment = t →
    (p.handles k).segment ≤ (p.handles h).segment

def AllTidy (x : Machine) : Prop := ∀ i, Tidy x.shm (x.processes i)

variable {s : Tables} {t depth slotSize h : Nat} {shm : Shm} {p : Process} {x : Machine} {os : Os}
    {w : World}

theorem TablesKept.entry {s' : Tables} (h : TablesKept s' s) {k : Nat} : Entry s' t k ↔ Entry s t k := by
  obtain ⟨q, ts, rfl⟩ := h
  exact Iff.rfl

theorem tidy_of_kept {shm' : Shm} {p' : Process} (h : Tidy shm p) (hp : ProcessKept p' p)
    (hl : shm'.linked = shm.linked) (hc : shm'.created = shm.created)
    (hch : shm'.channel = shm.channel) : Tidy shm' p' := by
  obtain ⟨q, ts, ht⟩ := hp.tables
  obtain ⟨h₁, h₂, h₃, h₄, h₅, h₆, h₇⟩ := h
  constructor
  · simpa only [hp.opened, Entry, ht] using h₁
  · simpa only [hp.opened, hp.segments, hc] using h₂
  · simpa only [hp.segments, hch, Entry, ht] using h₃
  · simpa only [ht] using h₄
  · simpa only [ht] using h₅
  · simpa only [hp.opened, hp.segments, hl, hch] using h₆
  · simpa only [hp.opened, hp.segments, hch, Entry, ht] using h₇

theorem unlink_tidy (h : Tidy shm p) (t : Nat) : Tidy (unlink shm t) p := by
  refine ⟨h.named, h.created, h.channel, h.publisherCounted, h.subscriptionCounted, ?_, h.latest⟩
  intro k g hk hg
  simp only [unlink, update_apply] at hg
  split_ifs at hg
  exact h.linked k g hk hg

theorem link_tidy (h : Tidy shm p) (t : Nat) (g : RingBuffer.Geometry) : Tidy (link shm t g) p := by
  have hch (k : Nat) (hk : k < p.opened) :
      (link shm t g).channel (p.handles k).segment = shm.channel (p.handles k).segment :=
    update_of_ne (Nat.ne_of_lt (h.created k hk)) _ _
  refine ⟨h.named, fun k hk => Nat.lt_succ_of_lt (h.created k hk), fun u k he => ?_,
    h.publisherCounted, h.subscriptionCounted, fun k g' hk hg => ?_, fun u k k' he hk' hu => ?_⟩
  · rw [hch k (h.named u k he)]
    exact h.channel u k he
  · rw [hch k hk] at hg
    simp only [link, update_apply] at hg
    split_ifs at hg
    · cases hg
      exact Nat.le_of_lt (h.created k hk)
    · exact h.linked k g' hk hg
  · rw [hch k' hk'] at hu
    exact h.latest u k k' he hk' hu

theorem createOrOpen_tidy {s : Shm} {r : Except String Nat}
    (ho : createOrOpen os s t depth slotSize = (r, shm)) (h : Tidy s p) :
    Tidy shm p := by
  cases ho ▸ createOrOpen_cases os s t depth slotSize with
  | failed | found => exact h
  | removed => exact unlink_tidy h t
  | made => exact link_tidy h t _

variable {i seg : Nat}

theorem createOrOpen_ok {s : Shm} (ho : createOrOpen os s t depth slotSize = (.ok seg, shm)) :
    shm.linked t = some seg ∧ seg < shm.created ∧ shm.channel seg = t := by
  have hl : shm.linked t = some seg := by
    cases ho ▸ createOrOpen_cases os s t depth slotSize with
    | found hl => exact hl
    | made => exact update_self ..
  exact ⟨hl, shm.linked_lt t seg hl, shm.channel_linked t seg hl⟩

variable {existing : Option Nat}

theorem reused_mem (hr : reused w existing slotSize = some h) : existing = some h :=
  (Option.filter_eq_some_iff.mp hr).1

structure Moved (s' s : Tables) (t h : Nat) : Prop where
  entry : ∀ u k, Entry s' u k → (u = t ∧ k = h) ∨ (u ≠ t ∧ Entry s u k)
  publisherCounted : ∀ u k, s'.publishers u = some k → s'.publisherCounts u ≠ none
  subscriptionCounted : ∀ u k, s'.subscriptions u = some k → s'.subscriptionCounts u ≠ none

theorem fresh_tidy (h : Tidy shm p) (hl : shm.linked t = some seg) (hs : Moved s p.tables t p.opened) :
    Tidy shm { p with
      opened := p.opened + 1
      handles := update p.handles p.opened ⟨seg, fun _ => none, fun _ => none⟩
      tables := s } := by
  have hch : shm.channel seg = t := shm.channel_linked t seg hl
  have hold (k : Nat) (hk : k < p.opened) : update p.handles p.opened
      ⟨seg, fun _ => none, fun _ => none⟩ k = p.handles k :=
    update_of_ne (Nat.ne_of_lt hk) _ _
  have hnew : update p.handles p.opened ⟨seg, fun _ => none, fun _ => none⟩ p.opened =
      ⟨seg, fun _ => none, fun _ => none⟩ := update_self ..
  refine ⟨fun u k he => ?_, fun k hk => ?_, fun u k he => ?_, hs.publisherCounted,
    hs.subscriptionCounted, fun k g hk hg => ?_, fun u k k' he hk' hu => ?_⟩
  · rcases hs.entry u k he with ⟨_, rfl⟩ | ⟨_, he⟩
    · exact Nat.lt_succ_self _
    · exact Nat.lt_succ_of_lt (h.named u k he)
  · rcases Nat.lt_succ_iff_lt_or_eq.mp hk with hk | rfl
    · simpa only [hold k hk] using h.created k hk
    · simpa only [hnew] using shm.linked_lt t seg hl
  · rcases hs.entry u k he with ⟨rfl, rfl⟩ | ⟨_, he⟩
    · simpa only [hnew] using hch
    · simpa only [hold k (h.named u k he)] using h.channel u k he
  · rcases Nat.lt_succ_iff_lt_or_eq.mp hk with hk | rfl
    · simp only [hold k hk] at hg ⊢
      exact h.linked k g hk hg
    · simp only [hnew, hch, hl, Option.some.injEq] at hg ⊢
      exact le_of_eq hg
  · rcases Nat.lt_succ_iff_lt_or_eq.mp hk' with hk' | rfl
    · simp only [hold k' hk'] at hu ⊢
      rcases hs.entry u k he with ⟨rfl, rfl⟩ | ⟨_, he⟩
      · simp only [hnew]
        exact h.linked k' seg hk' (hu.symm ▸ hl)
      · simpa only [hold k (h.named u k he)] using h.latest u k k' he hk' hu
    · simp only [hnew] at hu
      rcases hs.entry u k he with ⟨_, rfl⟩ | ⟨hne, _⟩
      · exact le_rfl
      · exact absurd (hu.symm.trans hch) hne

theorem moved_tidy (hp : Tidy shm p) (he : Entry p.tables t h) (hs : Moved s p.tables t h) :
    Tidy shm { p with tables := s } := by
  have hentry (u k : Nat) (hk : Entry s u k) : Entry p.tables u k := by
    rcases hs.entry u k hk with ⟨rfl, rfl⟩ | ⟨_, hk⟩
    · exact he
    · exact hk
  exact ⟨fun u k hk => hp.named u k (hentry u k hk), hp.created,
    fun u k hk => hp.channel u k (hentry u k hk), hs.publisherCounted, hs.subscriptionCounted,
    hp.linked, fun u k k' hk => hp.latest u k k' (hentry u k hk)⟩

theorem put_tidy (ho : ∀ j, j ≠ i → Tidy x.shm (x.processes j))
    (hi : Tidy x.shm { x.processes i with handles := w.handles, tables := w.session }) :
    AllTidy (put x i w) := by
  intro j
  have h : Tidy x.shm ((put x i w).processes j) := by
    simp only [put, update_apply]
    split_ifs with hj
    · exact hi
    · exact ho j hj
  exact tidy_of_kept h (.refl _) rfl rfl rfl

structure Shrunk (s' s : Tables) : Prop where
  entry : ∀ u k, Entry s' u k → Entry s u k
  publisherCounted : ∀ u k, s'.publishers u = some k → s'.publisherCounts u ≠ none
  subscriptionCounted : ∀ u k, s'.subscriptions u = some k → s'.subscriptionCounts u ≠ none

theorem shrunk_tidy (hp : Tidy shm p) (hs : Shrunk s p.tables) : Tidy shm { p with tables := s } :=
  ⟨fun u k hk => hp.named u k (hs.entry u k hk), hp.created,
    fun u k hk => hp.channel u k (hs.entry u k hk), hs.publisherCounted, hs.subscriptionCounted,
    hp.linked, fun u k k' hk => hp.latest u k k' (hs.entry u k hk)⟩

structure Request where
  session : Nat
  topic : Nat
  existing : Option Nat
  depth : Nat
  slotSize : Nat

def request (st : State) : Event → Option Request
  | .createPublisher _ env i topic qos =>
    some ⟨i, topic.hash, existingPublisher (tables st i) topic.hash, topicRingDepth topic qos,
      slotSizeFor env topic qos⟩
  | .createSubscription _ env _ i topic qos =>
    some ⟨i, topic.hash, existingSubscription (tables st i) topic.hash, topicRingDepth topic qos,
      slotSizeFor env topic qos⟩
  | _ => none

inductive Change (x : Machine) (request : Option Request) : Machine → Prop
  | quiet {x' : Machine} : Quiet x' x → Change x request x'
  | unlinked (t : Nat) : Change x request { x with shm := unlink x.shm t }
  | shrunk {i : Nat} {s : Tables} : Shrunk s (x.processes i).tables →
      Change x request (put x i { world x i with session := s })
  | attached {os : Os} {r : Request} {h : Nat} {x₁ : Machine} {w : World} : request = some r →
      Attach os x r.session r.existing r.topic r.depth r.slotSize h x₁ →
      (∀ k, r.existing = some k → Entry (x.processes r.session).tables r.topic k) →
      (∀ seg, Ahead (w.rings seg) (x₁.shm.rings seg)) →
      w.handles = (x₁.processes r.session).handles →
      Moved w.session (x.processes r.session).tables r.topic h →
      Change x request (put x₁ r.session w)

theorem change_tidy {x' : Machine} {r : Option Request} (hx : AllTidy x) (hc : Change x r x') :
    AllTidy x' := by
  cases hc with
  | quiet hq => exact fun i => tidy_of_kept (hx i) (hq.processes i) hq.linked hq.created hq.channel
  | unlinked t => exact fun i => unlink_tidy (hx i) t
  | shrunk hs => exact put_tidy (fun j _ => hx j) (shrunk_tidy (hx _) hs)
  | attached _ ha hex _ hh hs =>
    cases ha with
    | reuse hr =>
      refine put_tidy (fun j _ => hx j) ?_
      rw [hh]
      exact moved_tidy (hx _) (hex _ (reused_mem hr)) hs
    | fresh hr ho =>
      have ht (j : Nat) := createOrOpen_tidy ho (hx j)
      refine put_tidy (fun j hj => ?_) ?_
      · simpa only [attached, update_of_ne hj] using ht j
      · rw [hh]
        simpa only [attached, update_self] using fresh_tidy (ht _) (createOrOpen_ok ho).1 hs

end RmwAxon.HostInv
