import RmwAxon.Readiness
import RmwAxon.WaitSet

namespace RmwAxon.WaitReturn

open Transition WaitSet List

variable {semaphore : Fd → Bool} {r : Request} {s t : State} {w : World} {todo : List Task}

def Counted (r : Request) (w : World) : Prop := ∃ e ∈ r.entities, w.data.available e

def Found (s : State) : Prop := ∃ i, some i ∈ s.out

def Promising (r : Request) (s : State) (todo : List Task) : Prop :=
  (∃ e ∈ r.entities, .check e ∈ todo ∧ s.world.data.available e) ∨
    ∃ g ∈ r.guardList, .exchange g ∈ todo ∧ (s.world.flag g.id = true ∨ signalled s g = true)

/-- While the call is under way no entity of the set that has data loses it and nobody clears a guard
condition of the set, and `epoll_wait` reports only if one of them is ready. -/
def Undisturbed (r : Request) (s : State) : Action → Prop
  | .other (.outside d) => s.phase = .idle ∨ ∀ e ∈ r.entities, s.world.data.available e → d.available e
  | .other (.clear i) => s.phase = .idle ∨ ∀ g ∈ r.guardList, g.id ≠ i
  | .report => (∃ e ∈ r.entities, s.world.data.available e) ∨
      ∃ g ∈ r.guardList, s.world.flag g.id = true ∨ (g.owns = true ∧ g.fd.any (· ∈ signalledFds s) = true)
  | _ => True

def Awake (r : Request) (s : State) : Phase → Prop
  | .idle => s.ready = false
  | .scan todo => (∀ i ∈ todo, i ∈ r.items) ∧ (s.ready = true → Counted r s.world)
  | .bare _ => s.registered = []
  | .poll => True
  | .probe todo => ∀ e ∈ todo, e ∈ r.entities
  | .evaluate todo => Found s ∨ Promising r s todo
  | .done c => c = .ok → s.registered ≠ [] → Found s

structure Wakeful (r : Request) (s : State) : Prop where
  remaining : s.remaining = none
  awake : Awake r s s.phase

variable {e : Event} {i : Option Item} {x : Task}

theorem available_apply (hok : Undisturbed r s (.other e)) (hp : s.phase ≠ .idle) {x : Entity}
    (hx : x ∈ r.entities) (hpos : s.world.data.available x) :
    (s.world.apply semaphore e).data.available x := by
  cases e with
  | outside d => exact hok.resolve_left hp x hx hpos
  | post fd | read fd | set i | clear i => exact hpos

theorem flag_apply (hok : Undisturbed r s (.other e)) (hp : s.phase ≠ .idle) {g : Guard}
    (hg : g ∈ r.guardList) (hf : s.world.flag g.id = true) :
    (s.world.apply semaphore e).flag g.id = true := by
  cases e with
  | set i => simp [World.apply, hf]
  | clear i => simp [World.apply, hok.resolve_left hp g hg, hf]
  | outside d | post fd | read fd => exact hf

theorem Wakeful.other (h : Wakeful r s) (hok : Undisturbed r s (.other e)) :
    Wakeful r { s with world := s.world.apply semaphore e } := by
  refine ⟨h.remaining, ?_⟩
  have ha := h.awake
  cases hp : s.phase with
  | poll => trivial
  | idle | bare t | probe t | done c => simpa [Awake, Found, hp] using ha
  | scan todo =>
    rw [hp] at ha
    refine ⟨ha.1, fun hr => ?_⟩
    obtain ⟨x, hx, hpos⟩ := ha.2 hr
    exact ⟨x, hx, available_apply hok (by simp [hp]) hx hpos⟩
  | evaluate todo =>
    rw [hp] at ha
    rcases ha with hfound | ⟨x, hx, hmem, hpos⟩ | ⟨g, hg, hmem, hready⟩
    · exact .inl hfound
    · exact .inr (.inl ⟨x, hx, hmem, available_apply hok (by simp [hp]) hx hpos⟩)
    · exact .inr (.inr ⟨g, hg, hmem, hready.imp (flag_apply hok (by simp [hp]) hg) id⟩)

theorem scanItem_counted {added : Bool} (hi : i ∈ r.items) (h : s.ready = true → Counted r s.world)
    (hr : (scanItem s added i).ready = true) :
    Counted r (scanItem s added i).world := by
  cases i with
  | none => exact h hr
  | some i =>
    cases i with
    | guard g =>
      obtain ⟨gid, fd, owns⟩ := g
      cases fd <;> exact h hr
    | data e =>
      obtain ⟨source, c, fd⟩ := e
      cases fd with
      | none => exact h hr
      | some fd =>
        simp only [scanItem, Bool.or_eq_true] at hr
        rcases hr with hr | hpos
        · exact h hr
        · exact ⟨_, data_mem_items.mp hi, hpos⟩

theorem scanItem_kept {added : Bool} :
    (scanItem s added i).remaining = s.remaining ∧ (scanItem s added i).cleared = s.cleared := by
  cases i with
  | none => exact ⟨rfl, rfl⟩
  | some i =>
    cases i with
    | guard g =>
      obtain ⟨gid, fd, owns⟩ := g
      cases fd <;> exact ⟨rfl, rfl⟩
    | data e =>
      obtain ⟨source, c, fd⟩ := e
      cases fd <;> exact ⟨rfl, rfl⟩

theorem promising_of_counted {reported : List Fd} (h : Counted r s.world) :
    Promising r s (tasks r reported) := by
  obtain ⟨e, he, hpos⟩ := h
  exact .inl ⟨e, he, List.mem_flatMap.mpr ⟨_, data_mem_items.mpr he, by simp [tasksOf]⟩, hpos⟩

theorem Promising.tail (h : Promising r s (x :: todo))
    (hc : ∀ e, x = .check e → ¬ s.world.data.available e)
    (hg : ∀ g, x = .exchange g → s.world.flag g.id = false ∧ signalled s g = false) :
    Promising r s todo := by
  rcases h with ⟨e, he, hmem, hpos⟩ | ⟨g, hgl, hmem, hready⟩
  · rcases mem_cons.mp hmem with rfl | hmem
    · exact absurd hpos (hc e rfl)
    · exact .inl ⟨e, he, hmem, hpos⟩
  · rcases mem_cons.mp hmem with rfl | hmem
    · simp [hg g rfl] at hready
    · exact .inr ⟨g, hgl, hmem, hready⟩

theorem Found.append (h : Found s) (ht : t.out = s.out ++ [i]) : Found t := by
  obtain ⟨x, hx⟩ := h
  exact ⟨x, by simp [ht, hx]⟩

/-- One task: a pointer is left, or the promise is kept by a later one. -/
theorem evaluateTask_awake (h : Found s ∨ Promising r s (x :: todo)) :
    Awake r (evaluateTask semaphore s todo x) (evaluateTask semaphore s todo x).phase := by
  cases x with
  | drain fd =>
    have htail := h.imp id fun hp => hp.tail (by simp) (by simp)
    simp only [evaluateTask]
    split <;> exact htail
  | read fd => exact h.imp id fun hp => hp.tail (by simp) (by simp)
  | null => exact h.imp (fun hf => hf.append rfl) fun hp => hp.tail (by simp) (by simp)
  | check e =>
    by_cases hpos : s.world.data.available e
    · exact .inl ⟨.data e, by simp [evaluateTask, hpos]⟩
    · refine h.imp (fun hf => hf.append rfl) fun hp => hp.tail ?_ (by simp)
      rintro e' ⟨⟩
      exact hpos
  | exchange g =>
    simp only [evaluateTask]
    split
    next => exact .inl ⟨.guard g, by simp⟩
    next hflag =>
      split
      next => exact .inl ⟨.guard g, by simp⟩
      next hsig =>
        refine h.imp (fun hf => hf.append rfl) fun hp => hp.tail (by simp) ?_
        rintro g' ⟨⟩
        exact ⟨by simpa using hflag, by simpa using hsig⟩

theorem evaluateTask_remaining : (evaluateTask semaphore s todo x).remaining = s.remaining := by
  cases x with
  | drain fd =>
    simp only [evaluateTask]
    split <;> rfl
  | exchange g =>
    simp only [evaluateTask]
    split
    · rfl
    · split <;> rfl
  | check e | read fd | null => rfl

theorem Wakeful.step (h : Wakeful r s) {a : Action} (hok : Undisturbed r s a)
    (hs : step semaphore r s a = some t) : Wakeful r t := by
  have ha := h.awake
  have hrem := h.remaining
  cases moves_of_step hs with
  | other e => exact h.other hok
  | call hp =>
    rw [hp] at ha
    exact ⟨hrem, fun i hi => hi, fun hr => absurd (ha.symm.trans hr) (by simp)⟩
  | full todo hp =>
    rw [hp] at ha
    exact ⟨hrem, by simp, ha.2⟩
  | register _ added i todo hp =>
    rw [hp] at ha
    refine ⟨scanItem_kept.1.trans hrem, fun j hj => ha.1 j (by simp [hj]), ?_⟩
    exact scanItem_counted (ha.1 i (by simp)) ha.2
  | unregistered hp hreg => exact ⟨hrem, hreg⟩
  | known hp hr =>
    rw [hp] at ha
    exact ⟨hrem, .inr (promising_of_counted (ha.2 hr))⟩
  | wait hp => exact ⟨hrem, trivial⟩
  | look i todo hp =>
    rw [hp] at ha
    exact ⟨hrem, ha⟩
  | leave hp =>
    rw [hp] at ha
    exact ⟨hrem, fun _ hreg => absurd ha hreg⟩
  | again left hp hleft => exact ⟨hleft hrem, trivial⟩
  | late m hp hm =>
    rw [hrem] at hm
    cases hm
  | hit e todo hp hpos =>
    rw [hp] at ha
    exact ⟨hrem, .inr (promising_of_counted ⟨e, ha e (by simp), hpos⟩)⟩
  | miss e todo hp =>
    rw [hp] at ha
    exact ⟨hrem, fun x hx => ha x (by simp [hx])⟩
  | task x todo hp =>
    rw [hp] at ha
    exact ⟨evaluateTask_remaining.trans hrem, evaluateTask_awake ha⟩
  | finish hp =>
    rw [hp] at ha
    refine ⟨hrem, fun _ _ => ?_⟩
    rcases ha with hf | ⟨e, -, hmem, -⟩ | ⟨g, -, hmem, -⟩
    · exact hf
    · cases hmem
    · cases hmem
  | report hp hne =>
    refine ⟨hrem, .inr ?_⟩
    rcases hok with hc | ⟨g, hg, hready⟩
    · exact promising_of_counted hc
    · refine .inr ⟨g, hg, exchange_mem_tasks.mpr hg, hready.imp id fun ho => ?_⟩
      simp [signalled, ho.1, ho.2]
  | expire hp => exact ⟨hrem, fun e he => he⟩
  | interrupt hp => exact h
  | fail hp => exact ⟨hrem, fun hc => by cases hc⟩

/-- A wait without a timeout that is left undisturbed returns with a pointer that is not null. -/
theorem no_empty_return (semaphore : Fd → Bool) (r : Request) (d : Data) (hinf : r.timeout = none) {s : State}
    (h : Reach (step semaphore r) (Undisturbed r) (start r d) s) (hd : s.phase = .done .ok)
    (hreg : s.registered ≠ []) : ∃ i, some i ∈ s.out := by
  have hw : Wakeful r s := h.invariant ⟨by simp [start, Request.userMs, hinf], rfl⟩
    fun _ _ _ hi hok hs => hi.step hok hs
  have ha := hw.awake
  rw [hd] at ha
  exact ha rfl hreg

def oneSubscription : Request := ⟨[some ⟨.topic 5, 0, some 7⟩], [], [], [], none, none⟩

/-- A subscription to the topics of a ring with such a history, and its next number. -/
def historyAt (ops : List RingHistory.Op) (next : Nat) : Data :=
  ⟨Readiness.subscriber (RingHistory.applyAll (RingBuffer.create RingHistory.twoSlots) ops), fun _ => none,
    fun _ => next⟩

/-- A message that is already there makes the wait return at once. -/
theorem message_returned : ∃ s, Reach (step (fun _ => true) oneSubscription) (Undisturbed oneSubscription)
    (start oneSubscription (historyAt [.write [1]] 0)) s ∧ s.phase = .done .ok ∧ s.registered ≠ [] ∧
      ∃ i, some i ∈ s.out := by
  obtain ⟨s, hs, hd, hreg⟩ : ∃ s, run (step (fun _ => true) oneSubscription)
      [.other (.post 7), .go, .go, .go, .go, .go] (start oneSubscription (historyAt [.write [1]] 0)) =
        some s ∧ s.phase = .done .ok ∧ s.registered ≠ [] := exists_of_any (by decide +kernel)
  have hr : Reach _ (Undisturbed oneSubscription) _ s := reach_of_run hs (by simp [Undisturbed])
  exact ⟨s, hr, hd, hreg, no_empty_return _ _ _ rfl hr hd hreg⟩

/-- Two messages have been published and taken. -/
def bothTaken : Data := historyAt [.write [1], .write [2], .read 0 [0], .read 1 [0]] 2

/-- One of the two tokens that are left ends the wait. -/
theorem stale_token_returned : ∃ s, Reach (step (fun _ => true) oneSubscription) anyStep
    (start oneSubscription bothTaken) s ∧ s.phase = .done .ok ∧ s.registered = [7] ∧ s.out = [none] := by
  obtain ⟨s, hs, h⟩ : ∃ s, run (step (fun _ => true) oneSubscription)
      [.other (.post 7), .other (.post 7), .go, .go, .go, .report, .go, .go, .go]
        (start oneSubscription bothTaken) = some s ∧
          s.phase = .done .ok ∧ s.registered = [7] ∧ s.out = [none] := exists_of_any (by decide +kernel)
  exact ⟨s, reach_of_run hs fun _ _ _ => trivial, h⟩

section Trigger

def Expired (r : Request) (s : State) : Prop := r.timeout.isSome = true ∧ s.ready = false ∧ s.reported = []
  deriving Decidable

def tasksLeft (s : State) : List Task :=
  match s.phase with
  | .evaluate todo => todo
  | _ => []

/-- No flag is set when the loop is left because of the timeout, and none is set after that until
its guard condition has been looked at. -/
def Prompt (r : Request) (s : State) : Action → Prop
  | .go => s.phase = .probe [] → (∃ m ∈ s.remaining, m ≤ slice r s) →
      ∀ g ∈ r.guardList, s.world.flag g.id = false
  | .other (.set i) => Expired r s → ∀ g ∈ r.guardList, .exchange g ∈ tasksLeft s → g.id ≠ i
  | _ => True

instance (r : Request) (s : State) (a) : Decidable (Prompt r s a) := by
  unfold Prompt
  split <;> infer_instance

def Kept (r : Request) (s : State) : Phase → Prop
  | .evaluate todo => (∀ g ∈ s.cleared, some (.guard g) ∈ s.out) ∧
      (∀ g, .exchange g ∈ todo → g ∈ r.guardList) ∧
      (Expired r s → s.cleared = [] ∧ ∀ g, .exchange g ∈ todo → s.world.flag g.id = false)
  | .done c => ∀ g ∈ s.cleared, c = .ok ∧ some (.guard g) ∈ s.out
  | _ => s.cleared = []

theorem kept_tasks {reported : List Fd} (hc : s.cleared = [])
    (h : Expired r s → ∀ g ∈ r.guardList, s.world.flag g.id = false) :
    Kept r s (.evaluate (tasks r reported)) :=
  ⟨by simp [hc], fun _ => exchange_mem_tasks.mp,
    fun he => ⟨hc, fun g hg => h he g (exchange_mem_tasks.mp hg)⟩⟩

theorem kept_other {e : Event} (h : Kept r s s.phase) (hok : Prompt r s (.other e)) :
    Kept r { s with world := s.world.apply semaphore e } s.phase := by
  cases hp : s.phase with
  | evaluate todo =>
    rw [hp] at h
    refine ⟨h.1, h.2.1, fun he => ⟨(h.2.2 he).1, fun g hg => ?_⟩⟩
    have hflag := (h.2.2 he).2 g hg
    cases e with
    | set i =>
      have hne := hok he g (h.2.1 g hg) (by simpa [tasksLeft, hp] using hg)
      simpa [World.apply, hne] using hflag
    | clear i => simp [World.apply, hflag]
    | outside d | post fd | read fd => exact hflag
  | idle | scan t | bare t | poll | probe t | done c =>
    rw [hp] at h
    exact h

theorem kept_evaluateTask {x : Task} (h : Kept r s (.evaluate (x :: todo))) :
    Kept r (evaluateTask semaphore s todo x) (evaluateTask semaphore s todo x).phase := by
  obtain ⟨hout, hlist, hexp⟩ := h
  have hrest : ∀ g, .exchange g ∈ todo → .exchange g ∈ x :: todo := fun g hg => mem_cons_of_mem x hg
  have htail : ∀ g, .exchange g ∈ todo → g ∈ r.guardList := fun g hg => hlist g (hrest g hg)
  have hflags : Expired r s → s.cleared = [] ∧ ∀ g, .exchange g ∈ todo → s.world.flag g.id = false :=
    fun he => ⟨(hexp he).1, fun g hg => (hexp he).2 g (hrest g hg)⟩
  have hmore : ∀ {i : Option Item}, ∀ g ∈ s.cleared, some (.guard g) ∈ s.out ++ [i] :=
    fun g hg => mem_append_left _ (hout g hg)
  have hread : ∀ {fds : List Fd} {g : Guard},
      .exchange g ∈ fds.map Task.read ++ todo → .exchange g ∈ todo := by
    simp
  cases x with
  | drain fd =>
    simp only [evaluateTask]
    split <;> exact ⟨hout, htail, hflags⟩
  | read fd => exact ⟨hout, htail, hflags⟩
  | null | check => exact ⟨hmore, htail, hflags⟩
  | exchange g =>
    simp only [evaluateTask]
    split
    next hset =>
      refine ⟨?_, fun g' hg' => htail g' (hread hg'), fun he => ?_⟩
      · intro g' hg'
        rcases mem_cons.mp hg' with rfl | hg'
        · simp
        · exact hmore g' hg'
      · -- a flag that is found set is not found after the timeout
        have hunset := (hexp he).2 g (by simp)
        rw [hunset] at hset
        cases hset
    next =>
      split
      next => exact ⟨hmore, fun g' hg' => htail g' (hread hg'), fun he =>
        ⟨(hflags he).1, fun g' hg' => (hflags he).2 g' (hread hg')⟩⟩
      next => exact ⟨hmore, htail, hflags⟩

theorem code_of_not_expired (h : ¬ Expired r s) : code r s = .ok := by
  unfold code
  split
  next hc =>
    split
    next ht => exact absurd ⟨ht, hc.1, hc.2.1⟩ h
    next => rfl
  next => rfl

theorem kept_step (h : Kept r s s.phase) {a : Action} (hok : Prompt r s a)
    (hs : step semaphore r s a = some t) : Kept r t t.phase := by
  cases moves_of_step hs with
  | other e => exact kept_other h hok
  | call hp | full todo hp | unregistered hp _ | wait hp | look i todo hp | again left hp _ | miss e todo hp
    | expire hp =>
      rw [hp] at h
      exact h
  | register _ added i todo hp =>
    rw [hp] at h
    exact scanItem_kept.2.trans h
  | interrupt hp => exact h
  | leave hp | fail hp =>
    rw [hp] at h
    intro g hg
    rw [show s.cleared = [] from h] at hg
    cases hg
  | known hp hr =>
    rw [hp] at h
    exact kept_tasks h fun he => absurd (he.2.1.symm.trans hr) (by simp)
  | hit e todo hp hpos =>
    rw [hp] at h
    exact kept_tasks h fun he => absurd he.2.1 (by simp)
  | report hp hne =>
    rw [hp] at h
    exact kept_tasks h fun he => absurd he.2.2 hne
  | late m hp hm hle =>
    rw [hp] at h
    exact kept_tasks h fun _ => hok hp ⟨m, hm, hle⟩
  | task x todo hp =>
    rw [hp] at h
    exact kept_evaluateTask h
  | finish hp =>
    rw [hp] at h
    intro g hg
    refine ⟨code_of_not_expired fun he => ?_, h.1 g hg⟩
    rw [(h.2.2 he).1] at hg
    cases hg

/-- A flag that the call resets is reported by the same call, as long as none is set between the
expiry of its timeout and the evaluation. -/
theorem trigger_returned (semaphore : Fd → Bool) (r : Request) (d : Data) {s : State}
    (h : Reach (step semaphore r) (Prompt r) (start r d) s) {c : Ret} (hd : s.phase = .done c) :
    ∀ g ∈ s.cleared, c = .ok ∧ some (.guard g) ∈ s.out := by
  have hk : Kept r s s.phase := h.invariant (I := fun s => Kept r s s.phase) rfl
    fun _ _ _ hi hok hs => kept_step hi hok hs
  rw [hd] at hk
  exact hk

def guardSeven : Guard := ⟨0, some 7, true⟩

def nothing : Data := historyAt [] 0

def oneGuard : Request := ⟨[], [some guardSeven], [], [], some (0, 0), none⟩

/-- A trigger before the call is reported. -/
theorem early_trigger_returned :
    ∃ s, Reach (step (fun _ => false) oneGuard) (Prompt oneGuard) (start oneGuard nothing) s ∧
      guardSeven ∈ s.cleared ∧ s.phase = .done .ok ∧ some (.guard guardSeven) ∈ s.out := by
  obtain ⟨s, hs, hd, hc⟩ : ∃ s, guardedRun (step (fun _ => false) oneGuard) (Prompt oneGuard)
      [.other (.set 0), .other (.post 7), .go, .go, .go, .report, .go, .go, .go] (start oneGuard nothing) =
        some s ∧ s.phase = .done .ok ∧ guardSeven ∈ s.cleared := exists_of_any (by decide)
  have hr := reach_of_guardedRun hs
  exact ⟨s, hr, hc, hd, (trigger_returned _ _ _ hr hd guardSeven hc).2⟩

/-- The slice ends without a report, the flag is set, and the call resets it but returns a timeout. -/
theorem late_trigger_lost : ∃ s,
    Reach (step (fun _ => false) oneGuard) anyStep (start oneGuard nothing) s ∧
      guardSeven ∈ s.cleared ∧ s.phase = .done .timeout := by
  obtain ⟨s, hs, h⟩ : ∃ s, run (step (fun _ => false) oneGuard)
      [.go, .go, .go, .expire, .go, .other (.set 0), .go, .other (.post 7), .go, .go]
      (start oneGuard nothing) = some s ∧ guardSeven ∈ s.cleared ∧ s.phase = .done .timeout :=
    exists_of_any (by decide)
  exact ⟨s, reach_of_run hs fun _ _ _ => trivial, h⟩

end Trigger

end RmwAxon.WaitReturn
