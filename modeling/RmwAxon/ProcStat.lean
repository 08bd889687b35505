import RmwAxon.SyncWire

namespace RmwAxon.ProcStat

open List
open SyncWire (Bytes validUtf8)

def closeParen : UInt8 := 41
def zombie : UInt8 := 90
def dead : UInt8 := 88

def isWhitespace (b : UInt8) : Bool := b = 32 ∨ (9 ≤ b ∧ b ≤ 13)

/-- What follows the last closing parenthesis. -/
def afterParen (buf : Bytes) : Option Bytes :=
  if closeParen ∈ buf then some (buf.reverse.takeWhile (· ≠ closeParen)).reverse else none

def splitWhitespace (buf : Bytes) : List Bytes := (buf.splitOnP isWhitespace).filter (· ≠ [])

def isDigit (b : UInt8) : Bool := 48 ≤ b ∧ b ≤ 57

def parseU64 (s : Bytes) : Option Nat :=
  let digits := if s.head? = some 43 then s.tail else s
  let value := digits.foldl (fun acc b => acc * 10 + (b.toNat - 48)) 0
  if digits ≠ [] ∧ digits.all isDigit ∧ value < 2 ^ 64 then some value else none

/-- A file that cannot be opened has no content. -/
def isProcessAlive (stat : Nat → Option Bytes) (pid expectedStarttime : Nat) : Bool :=
  if pid = 0 then false
  else
    match stat pid with
    | none => false
    | some buf =>
      if validUtf8 buf = false then false
      else
        match afterParen buf with
        | none => false
        | some tail =>
          let rest := tail.drop 1
          if rest = [] then false
          else if rest.head? = some zombie ∨ rest.head? = some dead then false
          else
            match (splitWhitespace rest)[19]? with
            | none => false
            | some starttime => parseU64 starttime = some expectedStarttime

/-- The fields behind the state are separated by blanks, and a line break ends the
file. -/
def render (pid comm : Bytes) (state : UInt8) (fields : List Bytes) : Bytes :=
  pid ++ [32, 40] ++ comm ++ [closeParen, 32, state] ++ fields.flatMap (32 :: ·) ++ [10]

/-- Printable characters other than a closing parenthesis. -/
def Token (s : Bytes) : Prop := s ≠ [] ∧ ∀ b ∈ s, 33 ≤ b ∧ b < 127 ∧ b ≠ closeParen

theorem afterParen_append {front tail : Bytes} (h : closeParen ∉ tail) :
    afterParen (front ++ closeParen :: tail) = some tail := by
  have hnone : ∀ b ∈ tail.reverse, decide (b ≠ closeParen) = true := by
    intro b hb
    exact decide_eq_true fun heq => h (heq ▸ mem_reverse.mp hb)
  rw [afterParen, if_pos (by simp), reverse_append, reverse_cons, append_assoc, takeWhile_append_of_pos hnone]
  simp

variable {s : Bytes}

theorem Token.splitOnP (hs : Token s) {b : UInt8} (hb : isWhitespace b = true) (rest : Bytes) :
    (s ++ b :: rest).splitOnP isWhitespace = s :: rest.splitOnP isWhitespace := by
  refine splitOnP_append_cons_of_forall_mem (fun c hc => ?_) b hb rest
  obtain ⟨hlow, -⟩ := hs.2 c hc
  simp only [isWhitespace, decide_eq_false_iff_not, not_or, not_and]
  constructor
  · rintro rfl
    exact absurd hlow (by decide)
  · exact fun _ hc => absurd (UInt8.le_trans hlow hc) (by decide)

theorem splitOnP_fields {fields : List Bytes} (hs : Token s) (hfields : ∀ f ∈ fields, Token f) :
    (s ++ (fields.flatMap (32 :: ·) ++ [10])).splitOnP isWhitespace = s :: (fields ++ [[]]) := by
  induction fields generalizing s with
  | nil => exact hs.splitOnP rfl []
  | cons f fields ih =>
    have ih := ih (hfields f mem_cons_self) fun g hg => hfields g (mem_cons_of_mem f hg)
    rw [flatMap_cons, append_assoc, cons_append, hs.splitOnP rfl, ih]
    rfl

theorem splitWhitespace_fields {fields : List Bytes} (hs : Token s) (hfields : ∀ f ∈ fields, Token f) :
    splitWhitespace (s ++ (fields.flatMap (32 :: ·) ++ [10])) = s :: fields := by
  have hkept : ∀ f ∈ s :: fields, decide (f ≠ []) = true := by
    intro f hf
    rcases mem_cons.mp hf with rfl | hf
    · exact decide_eq_true hs.1
    · exact decide_eq_true (hfields f hf).1
  rw [splitWhitespace, splitOnP_fields hs hfields, ← cons_append, filter_append, filter_eq_self.mpr hkept]
  simp

section Rendered

variable {stat : Nat → Option Bytes} {pid t : Nat} {pidText comm start : Bytes} {state : UInt8}
  {fields : List Bytes}

theorem afterParen_render (hstate : Token [state]) (hfields : ∀ f ∈ fields, Token f) :
    afterParen (render pidText comm state fields) =
      some (32 :: ([state] ++ (fields.flatMap (32 :: ·) ++ [10]))) := by
  have hrender : render pidText comm state fields = (pidText ++ [32, 40] ++ comm) ++
      closeParen :: 32 :: ([state] ++ (fields.flatMap (32 :: ·) ++ [10])) := by simp [render]
  have htoken : ∀ {s : Bytes}, Token s → closeParen ∉ s := fun hs hmem => (hs.2 _ hmem).2.2 rfl
  rw [hrender]
  refine afterParen_append fun hmem => ?_
  rcases mem_cons.mp hmem with h | hmem
  · exact absurd h (by decide)
  rcases mem_append.mp hmem with h | hmem
  · exact htoken hstate h
  rcases mem_append.mp hmem with h | h
  · obtain ⟨f, hf, h⟩ := mem_flatMap.mp h
    rcases mem_cons.mp h with h | h
    · exact absurd h (by decide)
    · exact htoken (hfields f hf) h
  · exact absurd (mem_singleton.mp h) (by decide)

/-- The answer is the right one exactly if the file is valid text or the process is
not alive. -/
theorem alive_right_iff (hpid : 0 < pid) (hstat : stat pid = some (render pidText comm state fields))
    (hstate : Token [state]) (hfields : ∀ f ∈ fields, Token f) (hstart : fields[18]? = some start) :
    (isProcessAlive stat pid t = true ↔ (state ≠ zombie ∧ state ≠ dead) ∧ parseU64 start = some t) ↔
      validUtf8 (render pidText comm state fields) = true ∨
        ¬ ((state ≠ zombie ∧ state ≠ dead) ∧ parseU64 start = some t) := by
  have hsplit := splitWhitespace_fields hstate hfields
  have hnth : ([state] :: fields)[19]? = some start := hstart
  have hrun : isProcessAlive stat pid t = true ↔ validUtf8 (render pidText comm state fields) = true ∧
      (state ≠ zombie ∧ state ≠ dead) ∧ parseU64 start = some t := by
    simp only [isProcessAlive, if_neg hpid.ne', hstat, afterParen_render hstate hfields, drop_one,
      tail_cons, hsplit, hnth]
    cases validUtf8 (render pidText comm state fields) <;> simp
  rw [hrun]
  tauto

end Rendered

/-- The statistics of process 7, which has been running since tick 5. -/
def statOf (comm : Bytes) (pid : Nat) : Option Bytes :=
  if pid = 7 then some (render [55] comm 83 (List.replicate 19 [53])) else none

theorem nested_paren_alive : isProcessAlive (statOf [40, 41, 32, 41]) 7 5 = true := by
  refine ((alive_right_iff (by decide) rfl ⟨by decide, by simp; decide⟩ (fun f hf => ?_) rfl).mpr
    (.inl (by decide +kernel))).mpr (by decide)
  rw [eq_of_mem_replicate hf]
  exact ⟨by decide, by simp; decide⟩

/-- The name of the process has a byte that is no text. -/
theorem odd_name_dead :
    isProcessAlive (statOf [255]) 7 5 = false ∧ (83 ≠ zombie ∧ 83 ≠ dead) ∧ parseU64 [53] = some 5 := by
  decide +kernel

end RmwAxon.ProcStat
