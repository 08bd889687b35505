import RmwAxon.Transition
import Mathlib.Logic.Function.Basic

namespace RmwAxon.EventFds

open Transition List Option

/-- A handle on the ring: its number names the event descriptor that it created. `cross` is the
descriptor that it was sent, and `bound` says that it serves the topic's socket. -/
structure Handle where
  id : Nat
  cross : Option Nat
  bound : Bool
  deriving DecidableEq

def Handle.eventFd (h : Handle) : Nat := h.cross.getD h.id

/-- The live handles of all processes, the number of the next one, and the counters of the
descriptors, which live on as long as anybody has them. -/
structure State where
  live : List Handle
  next : Nat
  counter : Nat → Nat

def start : State := ⟨[], 0, fun _ => 0⟩

def server (s : State) : Option Handle := s.live.find? (·.bound)

/-- Either the socket can be bound, or the descriptor of its owner is received. Without a thread
to serve it the socket is closed again. -/
def createOrOpen (s : State) (served : Bool) : Handle :=
  match server s with
  | none => ⟨s.next, none, served⟩
  | some h => ⟨s.next, some h.id, false⟩

/-- The other constructor never asks for a descriptor. -/
def new (s : State) (served : Bool) : Handle := ⟨s.next, none, served && (server s).isNone⟩

def write (counter : Nat → Nat) (fd : Nat) : Nat → Nat := Function.update counter fd (counter fd + 1)

def signal (counter : Nat → Nat) (h : Handle) : Nat → Nat :=
  let counter := write counter h.id
  match h.cross with
  | none => counter
  | some fd => if fd = h.id then counter else write counter fd

/-- A successful commit writes only the handle's own descriptor. -/
def commitSignal (counter : Nat → Nat) (h : Handle) : Nat → Nat := write counter h.id

inductive Action
  | createOrOpen (served : Bool)
  | new (served : Bool)
  | drop (h : Handle)
  | publish (h : Handle)
  | commit (h : Handle)
  deriving DecidableEq

def add (s : State) (h : Handle) : State := { s with live := s.live ++ [h], next := s.next + 1 }

def step (s : State) : Action → Option State
  | .createOrOpen served => some (add s (createOrOpen s served))
  | .new served => some (add s (new s served))
  | .drop h => if h ∈ s.live then some { s with live := s.live.erase h } else none
  | .publish h => if h ∈ s.live then some { s with counter := signal s.counter h } else none
  | .commit h => if h ∈ s.live then some { s with counter := commitSignal s.counter h } else none

variable {s t : State} {h : Handle}

structure Linked (s : State) : Prop where
  used : ∀ g ∈ s.live, g.id < s.next
  unique : ∀ g ∈ s.live, ∀ k ∈ s.live, g.id = k.id → g = k
  earlier : ∀ g ∈ s.live, ∀ c ∈ g.cross, c < g.id
  source : ∀ g ∈ s.live, ∀ c ∈ g.cross, ∀ k ∈ s.live, k.id = c → k.cross = none
  bound : ∀ g ∈ s.live, g.bound = true → g.cross = none

theorem server_mem (hs : server s = some h) : h ∈ s.live ∧ h.bound = true :=
  ⟨mem_of_find?_eq_some hs, by simpa using find?_some hs⟩

theorem Linked.add (hl : Linked s) (hid : h.id = s.next)
    (hc : ∀ c ∈ h.cross, c < s.next ∧ ∀ k ∈ s.live, k.id = c → k.cross = none)
    (hb : h.bound = true → h.cross = none) : Linked (add s h) := by
  have hmem : ∀ g ∈ s.live ++ [h], g ∈ s.live ∨ g = h := by simp
  constructor
  · intro g hg
    simp only [EventFds.add]
    rcases hmem g hg with hg | rfl
    · exact Nat.lt_succ_of_lt (hl.used g hg)
    · omega
  · intro g hg k hk he
    rcases hmem g hg with hgs | rfl
    · rcases hmem k hk with hks | rfl
      · exact hl.unique g hgs k hks he
      · have := hl.used g hgs
        omega
    · rcases hmem k hk with hks | rfl
      · have := hl.used k hks
        omega
      · rfl
  · intro g hg c hgc
    rcases hmem g hg with hg | rfl
    · exact hl.earlier g hg c hgc
    · exact hid ▸ (hc c hgc).1
  · intro g hg c hgc k hk he
    have hlt : c < s.next := by
      rcases hmem g hg with hgs | rfl
      · exact Nat.lt_trans (hl.earlier g hgs c hgc) (hl.used g hgs)
      · exact (hc c hgc).1
    rcases hmem k hk with hks | rfl
    · rcases hmem g hg with hgs | rfl
      · exact hl.source g hgs c hgc k hks he
      · exact (hc c hgc).2 k hks he
    · omega
  · intro g hg
    rcases hmem g hg with hg | rfl
    · exact hl.bound g hg
    · exact hb

theorem Linked.step (hl : Linked s) {a : Action} (hs : step s a = some t) : Linked t := by
  cases a with
  | createOrOpen served =>
    obtain rfl := some.inj hs
    unfold EventFds.createOrOpen
    split
    next => exact hl.add rfl (by simp) fun _ => rfl
    next g hsrv =>
      obtain ⟨hg, hb⟩ := server_mem hsrv
      refine hl.add rfl ?_ (by simp)
      rintro c ⟨⟩
      exact ⟨hl.used g hg, fun k hk he => hl.unique k hk g hg he ▸ hl.bound g hg hb⟩
  | new served =>
    obtain rfl := some.inj hs
    exact hl.add rfl (by simp [new]) fun _ => rfl
  | drop h =>
    simp only [EventFds.step, ite_none_right_eq_some] at hs
    obtain rfl := some.inj hs.2
    have hsub : ∀ g ∈ s.live.erase h, g ∈ s.live := fun g hg => mem_of_mem_erase hg
    exact ⟨fun g hg => hl.used g (hsub g hg), fun g hg k hk => hl.unique g (hsub g hg) k (hsub k hk),
      fun g hg => hl.earlier g (hsub g hg),
      fun g hg c hc k hk => hl.source g (hsub g hg) c hc k (hsub k hk),
      fun g hg => hl.bound g (hsub g hg)⟩
  | publish h | commit h =>
    simp only [EventFds.step, ite_none_right_eq_some] at hs
    obtain rfl := some.inj hs.2
    exact ⟨hl.used, hl.unique, hl.earlier, hl.source, hl.bound⟩

theorem linked_of_reach {ok : State → Action → Prop} (hr : Reach step ok start s) : Linked s :=
  hr.invariant ⟨by simp [start], by simp [start], by simp [start], by simp [start], by simp [start]⟩
    fun _ _ _ hi _ hs => hi.step hs

theorem write_eq_succ_iff {counter : Nat → Nat} {fd x : Nat} :
    write counter fd x = counter x + 1 ↔ x = fd := by
  by_cases hx : x = fd <;> simp [write, hx]

/-- A commit reaches those who wait on the handle's own descriptor. -/
theorem commit_wakes_iff (counter : Nat → Nat) (g h : Handle) :
    commitSignal counter h g.eventFd = counter g.eventFd + 1 ↔ g.eventFd = h.id := write_eq_succ_iff

/-- A publish reaches those who wait on the same descriptor as its handle. -/
theorem publish_wakes_iff (hl : Linked s) {g : Handle} (hg : g ∈ s.live) (hh : h ∈ s.live) :
    signal s.counter h g.eventFd = s.counter g.eventFd + 1 ↔ g.eventFd = h.eventFd := by
  cases hc : h.cross with
  | none =>
    have hfd : h.eventFd = h.id := by simp [Handle.eventFd, hc]
    rw [hfd, signal, hc]
    exact write_eq_succ_iff
  | some c =>
    have hne : c ≠ h.id := Nat.ne_of_lt (hl.earlier h hh c hc)
    have hfd : h.eventFd = c := by simp [Handle.eventFd, hc]
    -- nobody waits on the own descriptor of a handle that was sent another one
    have hown : g.eventFd ≠ h.id := by
      intro he
      cases hgc : g.cross with
      | none =>
        obtain rfl := hl.unique g hg h hh (by simpa [Handle.eventFd, hgc] using he)
        simp [hc] at hgc
      | some d =>
        have hd : h.id = d := by simpa [Handle.eventFd, hgc] using he.symm
        simp [hl.source g hg d hgc h hh hd] at hc
    have hfirst : write s.counter h.id g.eventFd = s.counter g.eventFd := by simp [write, hown]
    simp only [signal, hc, if_neg hne]
    rw [hfd, ← hfirst]
    exact write_eq_succ_iff

/-- A handle is opened only while nobody has the ring or while somebody serves the socket, the
other constructor is used only by the first, and only a handle that waits on its own descriptor
commits. -/
def Orderly (s : State) : Action → Prop
  | .createOrOpen _ => s.live = [] ∨ ∃ g ∈ s.live, g.bound = true
  | .new _ => s.live = []
  | .commit h => h.cross = none
  | _ => True

def Common (s : State) : Prop := ∀ g ∈ s.live, ∀ k ∈ s.live, g.eventFd = k.eventFd

theorem common_add (hh : ∀ g ∈ s.live, g.eventFd = h.eventFd) : Common (add s h) := by
  have hmem : ∀ g ∈ s.live ++ [h], g.eventFd = h.eventFd := by
    intro g hg
    rcases mem_append.mp hg with hg | hg
    · exact hh g hg
    · rw [mem_singleton.mp hg]
  exact fun g hg k hk => (hmem g hg).trans (hmem k hk).symm

theorem common_step (hl : Linked s) (hc : Common s) {a : Action} (hok : Orderly s a)
    (hs : step s a = some t) :
    Common t := by
  cases a with
  | createOrOpen served =>
    obtain rfl := some.inj hs
    apply common_add
    intro g hg
    obtain ⟨b, hb, hbound⟩ := hok.resolve_left (ne_nil_of_mem hg)
    cases hsrv : server s with
    | none => simpa [hbound] using find?_eq_none.mp hsrv b hb
    | some k =>
      obtain ⟨hk, hkb⟩ := server_mem hsrv
      rw [hc g hg k hk]
      simp [createOrOpen, hsrv, Handle.eventFd, hl.bound k hk hkb]
  | new served =>
    obtain rfl := some.inj hs
    apply common_add
    intro g hg
    rw [show s.live = [] from hok] at hg
    cases hg
  | drop h =>
    simp only [step, ite_none_right_eq_some] at hs
    obtain rfl := some.inj hs.2
    exact fun g hg k hk => hc g (mem_of_mem_erase hg) k (mem_of_mem_erase hk)
  | publish h | commit h =>
    simp only [step, ite_none_right_eq_some] at hs
    obtain rfl := some.inj hs.2
    exact hc

theorem common_of_reach (hr : Reach step Orderly start s) : Common s := by
  have hboth : Linked s ∧ Common s := by
    apply hr.invariant
    · exact ⟨@linked_of_reach _ Orderly .refl, by simp [Common, start]⟩
    · intro s a t hi hok hs
      exact ⟨hi.1.step hs, common_step hi.1 hi.2 hok hs⟩
  exact hboth.2

/-- In an orderly run every publish and every commit wakes all who have the ring. -/
theorem everyone_woken (hr : Reach step Orderly start s) {a : Action} (ha : a = .publish h ∨ a = .commit h)
    (hok : Orderly s a) (hs : step s a = some t) :
    ∀ g ∈ s.live, t.counter g.eventFd = s.counter g.eventFd + 1 := by
  have hc := common_of_reach hr
  intro g hg
  obtain rfl | rfl := ha
  · simp only [step, ite_none_right_eq_some] at hs
    obtain ⟨hh, hs⟩ := hs
    obtain rfl := some.inj hs
    exact (publish_wakes_iff (linked_of_reach hr) hg hh).mpr (hc g hg h hh)
  · simp only [step, ite_none_right_eq_some] at hs
    obtain ⟨hh, hs⟩ := hs
    obtain rfl := some.inj hs
    have hown : h.eventFd = h.id := by simp [Handle.eventFd, show h.cross = none from hok]
    exact (commit_wakes_iff s.counter g h).mpr ((hc g hg h hh).trans hown)

instance (s : State) (a) : Decidable (Orderly s a) := by
  unfold Orderly
  split <;> infer_instance

/-- Two handles are opened, and the second one publishes. -/
theorem second_wakes_first :
    ∃ s t, Reach step Orderly start s ∧ step s (.publish ⟨1, some 0, false⟩) = some t ∧
      ⟨0, none, true⟩ ∈ s.live ∧ ∀ g ∈ s.live, t.counter g.eventFd = s.counter g.eventFd + 1 := by
  obtain ⟨s, hs, hfirst, hsecond⟩ :
      ∃ s, guardedRun step Orderly [.createOrOpen true, .createOrOpen true] start = some s ∧
        ⟨0, none, true⟩ ∈ s.live ∧ ⟨1, some 0, false⟩ ∈ s.live := exists_of_any (by decide)
  have hr := reach_of_guardedRun hs
  have ht : step s (.publish ⟨1, some 0, false⟩) = some _ := if_pos hsecond
  exact ⟨s, _, hr, ht, hfirst, everyone_woken hr (.inl rfl) trivial ht⟩

/-- The first of two handles is dropped and a third one opened. A publish on the third does not
wake the second, which still waits on the descriptor of the first. -/
theorem dropped_server_splits :
    ∃ s t, Reach step anyStep start s ∧ step s (.publish ⟨2, none, true⟩) = some t ∧
      ⟨1, some 0, false⟩ ∈ s.live ∧ (⟨1, some 0, false⟩ : Handle).eventFd = 0 ∧
      t.counter 0 = s.counter 0 := by
  obtain ⟨s, hs, hmem, hpub⟩ : ∃ s, run step
      [.createOrOpen true, .createOrOpen true, .drop ⟨0, none, true⟩, .createOrOpen true] start = some s ∧
        ⟨1, some 0, false⟩ ∈ s.live ∧
          (step s (.publish ⟨2, none, true⟩)).any (fun t => decide (t.counter 0 = s.counter 0)) = true :=
    exists_of_any (by decide)
  obtain ⟨t, ht, hcount⟩ := exists_of_any hpub
  exact ⟨s, t, reach_of_run hs fun _ _ _ => trivial, ht, hmem, rfl, hcount⟩

end RmwAxon.EventFds
