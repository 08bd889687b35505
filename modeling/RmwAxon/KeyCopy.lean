import RmwAxon.KeyCells
import RmwAxon.Transition

namespace RmwAxon.KeyCopy

open KeyCells MessageKeys SharedMemory Transition Function List Option
open NodeTable (Text)

/-- A call of the writer that has taken the state word down: the stores that
are left and, for a put, the record and the state to publish. -/
structure Writing where
  rest : Stores
  last : Option (KeyRecord × Bool)

structure State where
  memory : Memory
  writer : Option Writing
  reader : Option (Loads Cell Nat SessionKey)
  puts : List KeyRecord
  returned : List SessionKey

inductive Event
  | put (r : KeyRecord) (active : Bool)
  | remove (remoteDaemonId : Nat)
  | store
  | finish
  | copy (active : Bool)
  | load

def fresh : State := ⟨fun _ => 0, none, none, [], []⟩

def takeDown (m : Memory) : Memory := update m .state entryEmpty

theorem takeDown_state (m : Memory) : takeDown m .state = entryEmpty := update_self ..

def observe (s : State) : Loads Cell Nat SessionKey → State
  | .done result => { s with reader := none, returned := result.toList ++ s.returned }
  | p => { s with reader := some p }

theorem observe_puts (s : State) (p : Loads Cell Nat SessionKey) : (observe s p).puts = s.puts := by
  cases p <;> rfl

def step (localSaeId : Option Text) (s : State) : Event → Option State
  | .put r active =>
    if s.writer.isSome then none
    else some { s with
      memory := takeDown s.memory, writer := some ⟨putStores r, some (r, active)⟩, puts := r :: s.puts }
  | .remove remoteDaemonId =>
    if s.writer.isSome then none
    else if s.memory .state = entryEmpty ∨ s.memory .remoteDaemonId ≠ remoteDaemonId then some s
    else some { s with memory := takeDown s.memory, writer := some ⟨removeStores, none⟩ }
  | .store =>
    match s.writer with
    | some ⟨w :: rest, last⟩ => some { s with memory := update s.memory w.1 w.2, writer := some ⟨rest, last⟩ }
    | _ => none
  | .finish =>
    match s.writer with
    | some ⟨[], none⟩ => some { s with writer := none }
    | some ⟨[], some (_, active)⟩ =>
      some { s with memory := update s.memory .state (stateWord active), writer := none }
    | _ => none
  | .copy active => if s.reader.isSome then none else some (observe s (copyEntry localSaeId active))
  | .load =>
    match s.reader with
    | some (.load cell next) => some (observe s (next (s.memory cell)))
    | _ => none

/-- No put publishes its record while a copy is under way. -/
def Undisturbed (s : State) (e : Event) : Prop :=
  e = .finish → s.reader ≠ none → ∀ w, s.writer = some w → w.last = none

def Down (s : State) : Prop := s.memory .state = entryEmpty

def Shows (s : State) (r : KeyRecord) : Prop := r ∈ s.puts ∧ ∃ active, s.memory = image r active

structure Inv (s : State) : Prop where
  idle : s.writer = none → Down s ∨ ∃ r, Shows s r
  working : ∀ w, s.writer = some w → Down s ∧ (∀ v ∈ w.rest, v.1 ≠ .state) ∧
    ∀ r active, w.last = some (r, active) → r ∈ s.puts ∧
      update (applyStores s.memory w.rest) .state (stateWord active) = image r active
  reading : ∀ p, s.reader = some p → p.Guarded .state entryEmpty ∧
    (Down s ∨ ∃ r, Shows s r ∧ ∀ k, p.eval s.memory = some k → Copies k r)
  copied : ∀ k ∈ s.returned, ∃ r ∈ s.puts, Copies k r

variable {s t : State}

section

variable (h : Inv s)
include h

theorem Inv.shown : Down s ∨ ∃ r, Shows s r := by
  cases hw : s.writer with
  | none => exact h.idle hw
  | some w => exact .inl (h.working w hw).1

theorem Inv.begin {w : Writing} {puts : List KeyRecord} (hputs : ∀ r ∈ s.puts, r ∈ puts)
    (hrest : ∀ v ∈ w.rest, v.1 ≠ .state)
    (hlast : ∀ r active, w.last = some (r, active) → r ∈ puts ∧ w.rest = putStores r) :
    Inv { s with memory := takeDown s.memory, writer := some w, puts := puts } where
  idle hw := by cases hw
  working := by
    intro w' hw'
    cases hw'
    refine ⟨takeDown_state s.memory, hrest, fun r active hr => ⟨(hlast r active hr).1, ?_⟩⟩
    rw [(hlast r active hr).2]
    exact applyStores_putStores _ r active
  reading p hp := ⟨(h.reading p hp).1, .inl (takeDown_state s.memory)⟩
  copied k hk := by
    obtain ⟨r, hr, hcopy⟩ := h.copied k hk
    exact ⟨r, hputs r hr, hcopy⟩

theorem Inv.store {v : Cell × Nat} {rest : Stores} {last : Option (KeyRecord × Bool)}
    (hw : s.writer = some ⟨v :: rest, last⟩) :
    Inv { s with memory := update s.memory v.1 v.2, writer := some ⟨rest, last⟩ } := by
  obtain ⟨hdown, hrest, hlast⟩ := h.working _ hw
  have hdown' : update s.memory v.1 v.2 .state = entryEmpty := by
    rw [update_of_ne (hrest v (by simp)).symm]
    exact hdown
  constructor
  · intro hnone
    cases hnone
  · intro w' hw'
    cases hw'
    exact ⟨hdown', fun u hu => hrest u (by simp [hu]), hlast⟩
  · exact fun p hp => ⟨(h.reading p hp).1, .inl hdown'⟩
  · exact h.copied

theorem Inv.removed {w : Writing} (hw : s.writer = some w) : Inv { s with writer := none } where
  idle _ := .inl (h.working w hw).1
  working := by simp
  reading := h.reading
  copied := h.copied

theorem Inv.published {r : KeyRecord} {active : Bool}
    (hw : s.writer = some ⟨[], some (r, active)⟩) (hidle : s.reader = none) :
    Inv { s with memory := update s.memory .state (stateWord active), writer := none } := by
  obtain ⟨-, -, hlast⟩ := h.working _ hw
  obtain ⟨hr, himage⟩ := hlast r active rfl
  constructor
  · exact fun _ => .inr ⟨r, hr, active, himage⟩
  · simp
  · simp [hidle]
  · exact h.copied

theorem Inv.observe {p : Loads Cell Nat SessionKey} (hp : p.Guarded .state entryEmpty ∨ ∃ r, p = .done r)
    (hread : (Down s ∧ ∀ k, p ≠ .done (some k)) ∨
      ∃ r, Shows s r ∧ ∀ k, p.eval s.memory = some k → Copies k r) :
    Inv (observe s p) := by
  cases p with
  | done result =>
    refine ⟨h.idle, h.working, by simp [KeyCopy.observe], fun k hk => ?_⟩
    rcases mem_append.mp hk with hk | hk
    · obtain rfl := mem_toList.mp hk
      rcases hread with ⟨-, hnone⟩ | ⟨r, hr, hcopy⟩
      · exact absurd rfl (hnone k)
      · exact ⟨r, hr.1, hcopy k rfl⟩
    · exact h.copied k hk
  | load cell next =>
    refine ⟨h.idle, h.working, fun q hq => ?_, h.copied⟩
    cases hq
    refine ⟨?_, hread.imp And.left id⟩
    rcases hp with hp | ⟨r, hr⟩
    · exact hp
    · cases hr

theorem Inv.copy (localSaeId : Option Text) (active : Bool) :
    Inv (KeyCopy.observe s (copyEntry localSaeId active)) := by
  have hg := guarded_copyEntry localSaeId active
  refine h.observe (.inl hg) ?_
  rcases h.shown with hd | ⟨r, hr⟩
  · refine .inl ⟨hd, fun k hk => ?_⟩
    rw [hk] at hg
    cases hg
  refine .inr ⟨r, hr, fun k hk => ?_⟩
  obtain ⟨-, a, ha⟩ := hr
  rw [ha] at hk
  exact copies_of_eval hk

theorem Inv.load {cell : Cell} {next : Nat → Loads Cell Nat SessionKey}
    (hr : s.reader = some (.load cell next)) : Inv (KeyCopy.observe s (next (s.memory cell))) := by
  obtain ⟨hg, hread⟩ := h.reading _ hr
  obtain ⟨hnext, hnone⟩ := hg.next s.memory
  exact h.observe hnext (hread.imp (fun hd => ⟨hd, hnone hd⟩) id)

end

theorem step_inv {localSaeId : Option Text} {e : Event} (h : Inv s) (hok : Undisturbed s e)
    (hstep : step localSaeId s e = some t) : Inv t := by
  cases e with
  | put r active =>
    simp only [step] at hstep
    split_ifs at hstep
    cases hstep
    have hne : ∀ w ∈ putStores r, w.1 ≠ .state := by
      simp [putStores, clearAtomicBytes, storeAtomicBytes, or_imp, forall_and]
    refine h.begin (fun q hq => by simp [hq]) hne fun q a hq => ?_
    cases hq
    exact ⟨by simp, rfl⟩
  | remove remoteDaemonId =>
    simp only [step] at hstep
    split_ifs at hstep
    · cases hstep
      exact h
    · cases hstep
      exact h.begin (fun _ hq => hq)
        (by simp [removeStores, clearAtomicBytes, or_imp, forall_and]) fun q a hq => by cases hq
  | store =>
    simp only [step] at hstep
    split at hstep
    next v rest last hw =>
      cases hstep
      exact h.store hw
    next => cases hstep
  | finish =>
    simp only [step] at hstep
    split at hstep
    next hw =>
      cases hstep
      exact h.removed hw
    next r active hw =>
      cases hstep
      refine h.published hw (by_contra fun hreader => ?_)
      cases hok rfl hreader _ hw
    next => cases hstep
  | copy active =>
    simp only [step] at hstep
    split_ifs at hstep
    cases hstep
    exact h.copy localSaeId active
  | load =>
    simp only [step] at hstep
    split at hstep
    next cell next hr =>
      cases hstep
      exact h.load hr
    next => cases hstep

section Runs

variable (localSaeId : Option Text)

theorem run_stores {rest : Stores} {last : Option (KeyRecord × Bool)} (hw : s.writer = some ⟨rest, last⟩) :
    run (step localSaeId) (List.replicate rest.length .store) s =
      some { s with memory := applyStores s.memory rest, writer := some ⟨[], last⟩ } := by
  induction rest generalizing s with
  | nil =>
    rw [applyStores, foldl_nil, ← hw]
    rfl
  | cons v rest ih =>
    have hstep : step localSaeId s .store =
        some { s with memory := update s.memory v.1 v.2, writer := some ⟨rest, last⟩ } := by
      simp [step, hw]
    rw [length_cons, replicate_succ, run, hstep, bind_some, ih rfl]
    rfl

def writeEvents (r : KeyRecord) (active : Bool) : List Event :=
  .put r active :: List.replicate (putStores r).length .store

def written (s : State) (r : KeyRecord) (active : Bool) : State :=
  { s with
    memory := applyStores (takeDown s.memory) (putStores r)
    writer := some ⟨[], some (r, active)⟩
    puts := r :: s.puts }

theorem run_write (hw : s.writer = none) (r : KeyRecord) (active : Bool) :
    run (step localSaeId) (writeEvents r active) s = some (written s r active) := by
  have hstep : step localSaeId s (.put r active) = some { s with
      memory := takeDown s.memory, writer := some ⟨putStores r, some (r, active)⟩, puts := r :: s.puts } := by
    simp [step, hw]
  rw [writeEvents, run, hstep, bind_some, run_stores localSaeId rfl]
  rfl

def putDone (s : State) (r : KeyRecord) (active : Bool) : State :=
  { s with memory := image r active, writer := none, puts := r :: s.puts }

theorem finish_written (r : KeyRecord) (active : Bool) :
    step localSaeId (written s r active) .finish = some (putDone s r active) := by
  simp only [step, written, putDone, applyStores_putStores]

theorem run_put (hw : s.writer = none) (r : KeyRecord) (active : Bool) :
    run (step localSaeId) (writeEvents r active ++ [.finish]) s = some (putDone s r active) := by
  rw [run_append, run_write localSaeId hw, bind_some, run, finish_written, bind_some, run]

theorem run_loads {p : Loads Cell Nat SessionKey} {n : Nat} (h : (p.advance s.memory n).running) :
    run (step localSaeId) (List.replicate (n + 1) .load) (observe s p) =
      some (observe s (p.advance s.memory (n + 1))) := by
  induction n generalizing p with
  | zero =>
    cases p with
    | done result => cases h
    | load cell next => rfl
  | succ n ih =>
    cases p with
    | done result => cases h
    | load c k => exact ih h

theorem reach_put (hw : s.writer = none) (hr : s.reader = none) (r : KeyRecord)
    (active : Bool) : Reach (step localSaeId) Undisturbed s (putDone s r active) := by
  have hwrite : Reach (step localSaeId) Undisturbed s (written s r active) := by
    refine reach_of_run (run_write localSaeId hw r active) fun e he _ hf => ?_
    rw [hf] at he
    simp [writeEvents] at he
  have hreader : (written s r active).reader = none := by
    rw [written]
    exact hr
  refine .tail .finish hwrite ?_ (finish_written localSaeId r active)
  exact fun _ hbusy => absurd hreader hbusy

theorem reach_copy {active : Bool} (hr : s.reader = none) {n : Nat}
    (h : ((copyEntry localSaeId active).advance s.memory n).running) :
    Reach (step localSaeId) Undisturbed s
      (observe s ((copyEntry localSaeId active).advance s.memory (n + 1))) := by
  have hstart : step localSaeId s (.copy active) = some (observe s (copyEntry localSaeId active)) := by
    simp [step, hr]
  refine Reach.trans (.tail (.copy active) .refl (fun hf => by cases hf) hstart) ?_
  refine reach_of_run (run_loads localSaeId h) fun e he _ hf => ?_
  rw [hf] at he
  simp at he

end Runs

def firstKey : KeyRecord :=
  ⟨7, [65], ⟨[107], List.replicate qkdKeyBytes 0⟩, by decide, by decide, by decide⟩

def secondKey : KeyRecord :=
  ⟨7, [65], ⟨[108], List.replicate qkdKeyBytes 1⟩, by decide, by decide, by decide⟩

def localSae : Text := [76]

def firstCopied : State :=
  observe (putDone fresh firstKey true) ((copyEntry (some localSae) true).advance (image firstKey true) 38)

/-- A copied key comes from one put as long as no put publishes a record in
the middle of the copy. -/
theorem copied_key_of_one_put (localSaeId : Option Text)
    (h : Reach (step localSaeId) Undisturbed fresh s) : ∀ k ∈ s.returned, ∃ r ∈ s.puts, Copies k r :=
  (h.invariant ⟨fun _ => .inl rfl, by simp [fresh], by simp [fresh], by simp [fresh]⟩
    fun _ _ _ hi hok hs => step_inv hi hok hs).copied

theorem first_key_copied :
    Reach (step (some localSae)) Undisturbed fresh firstCopied ∧
      sessionKey firstKey true localSae ∈ firstCopied.returned ∧
      ∀ k ∈ firstCopied.returned, ∃ r ∈ firstCopied.puts, Copies k r := by
  have hrunning : ((copyEntry (some localSae) true).advance (image firstKey true) 37).running := by
    decide +kernel
  have hcopy : Reach (step (some localSae)) Undisturbed fresh firstCopied :=
    Reach.trans (reach_put _ rfl rfl firstKey true) (reach_copy _ rfl hrunning)
  exact ⟨hcopy, by decide +kernel, copied_key_of_one_put (some localSae) hcopy⟩

def torn : SessionKey := ⟨⟨7, [65], [107], List.replicate qkdKeyBytes 1, true⟩, localSae⟩

def paused : Loads Cell Nat SessionKey := (copyEntry (some localSae) true).advance (image firstKey true) 4

/-- The key is replaced after the copy has read the identifiers and before it
reads the key bytes: the state word is active again when the copy looks. -/
def tornEvents : List Event :=
  (writeEvents firstKey true ++ [.finish]) ++ (.copy true :: List.replicate 4 .load) ++
    (writeEvents secondKey true ++ [.finish]) ++ List.replicate 34 .load

theorem run_tornEvents : run (step (some localSae)) tornEvents fresh =
    some (observe (putDone (putDone fresh firstKey true) secondKey true)
      (paused.advance (image secondKey true) 34)) := by
  have hfirst : ((copyEntry (some localSae) true).advance (image firstKey true) 3).running := by
    decide +kernel
  have hsecond : (paused.advance (image secondKey true) 33).running := by
    decide +kernel
  have hcopy : run (step (some localSae)) (.copy true :: replicate 4 .load) (putDone fresh firstKey true) =
      some (observe (putDone fresh firstKey true) paused) :=
    run_loads (s := putDone fresh firstKey true) (some localSae) hfirst
  have hput := run_put (s := observe (putDone fresh firstKey true) paused) (some localSae)
    (by cases paused <;> rfl) secondKey true
  have hrest := run_loads (s := putDone (putDone fresh firstKey true) secondKey true) (some localSae) hsecond
  rw [tornEvents, run_append, run_append, run_append, run_put (some localSae) rfl, bind_some, hcopy,
    bind_some, hput, bind_some]
  exact hrest

/-- The identifier of one key with the bytes of the next. -/
theorem replaced_key_copied_torn :
    ∃ s, run (step (some localSae)) tornEvents fresh = some s ∧ torn ∈ s.returned ∧
      ∀ r ∈ s.puts, ¬ Copies torn r := by
  refine ⟨_, run_tornEvents, by decide +kernel, fun r hr hcopy => ?_⟩
  have hputs : r = secondKey ∨ r = firstKey := by
    rw [observe_puts] at hr
    simpa [putDone, fresh] using hr
  obtain ⟨-, -, hid, hkey⟩ := hcopy
  rcases hputs with rfl | rfl
  · exact absurd hid (by decide)
  · exact absurd hkey (by decide)

end RmwAxon.KeyCopy
