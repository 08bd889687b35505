import RmwAxon.ContentFilter

namespace RmwAxon.FilterGrammar

open ContentFilter Splitting List

def isNameChar (c : UInt8) : Bool := c = 95 ∨ isDigit c ∨ (65 ≤ c ∧ c ≤ 90) ∨ (97 ≤ c ∧ c ≤ 122)

structure Identifier where
  text : Text
  nonempty : text ≠ []
  names : ∀ c ∈ text, isNameChar c = true
  start : ∀ c ∈ text.head?, isDigit c = false

inductive Sign
  | none
  | plus
  | minus

def Sign.text : Sign → Text
  | .none => []
  | .plus => chars ['+']
  | .minus => chars ['-']

def Sign.negative : Sign → Bool
  | .minus => true
  | _ => false

structure Digits where
  text : Text
  nonempty : text ≠ []
  digits : ∀ c ∈ text, isDigit c = true

structure Quoted where
  text : Text
  unquoted : quote ∉ text

inductive Literal
  | int (sign : Sign) (ds : Digits)
  | text (s : Quoted)

def Literal.written : Literal → Text
  | .int sign ds => sign.text ++ ds.text
  | .text s => quote :: (s.text ++ [quote])

def intValue (sign : Sign) (ds : Digits) : Int :=
  if sign.negative then -(digitsValue ds.text : Int) else digitsValue ds.text

def Literal.inRange : Literal → Bool
  | .int sign ds => inInt64 (intValue sign ds)
  | .text _ => true

def Literal.parsed {D : Type} : Literal → FilterValue D
  | .int sign ds => .int (intValue sign ds)
  | .text q => .string q.text

/-- One constraint, with the number of blanks in front of it, on both sides of its operator, and
behind it. -/
structure Constraint where
  field : Identifier
  op : FilterOp
  value : Literal
  lead : Nat
  before : Nat
  after : Nat
  trail : Nat

def Constraint.parsed {D : Type} (c : Constraint) : FilterConstraint D := ⟨c.field.text, c.op, c.value.parsed⟩

def Constraint.spaced (c : Constraint) (m n : Nat) : Text :=
  c.field.text ++ (blanks m ++ (c.op.symbol ++ (blanks n ++ c.value.written)))

def Constraint.text (c : Constraint) : Text := blanks c.lead ++ (c.spaced c.before c.after ++ blanks c.trail)

def Constraint.tidy (c : Constraint) : Text := c.spaced (min c.before 1) (min c.after 1)

/-- Constraints joined by AND, and these branches joined by OR. -/
structure Expression where
  branches : List (List Constraint)
  nonempty : branches ≠ []
  inhabited : ∀ b ∈ branches, b ≠ []

def Expression.constraints (e : Expression) : List Constraint := e.branches.flatten

def Expression.text (e : Expression) : Text :=
  orWord.intercalate (e.branches.map fun b => andWord.intercalate (b.map Constraint.text))

def branchTidy (b : List Constraint) : Text := andWord.intercalate (b.map Constraint.tidy)

def Expression.tidy (e : Expression) : Text := orWord.intercalate (e.branches.map branchTidy)

structure Quiet (op : FilterOp) (s : Text) : Prop where
  blanks : ¬ [blank, blank] <:+: s
  orWord : ¬ orWord <:+: s
  andWord : ¬ andWord <:+: s
  operators : ∀ o ∈ operators.takeWhile (· ≠ op), ¬ o.symbol <:+: s

def Constraint.Clean (c : Constraint) : Prop := ∀ s, c.value = .text s → Quiet c.op s.text

/-- Behind an AND, a field that is called OR and has a blank behind it is taken for the connective. -/
def Constraint.Distinct (c : Constraint) : Prop := c.field.text = chars ['O', 'R'] → c.before = 0

structure Expression.Clean (e : Expression) : Prop where
  values : ∀ c ∈ e.constraints, c.Clean
  fields : ∀ b ∈ e.branches, ∀ c ∈ b.tail, c.Distinct

section Characters

variable {c : UInt8} {op : FilterOp}

structure Plain (c : UInt8) : Prop where
  blank : c ≠ blank
  quote : c ≠ quote
  op : ∀ op : FilterOp, c ∉ op.symbol

theorem plain_of_isNameChar (h : isNameChar c = true) : Plain c where
  blank := by
    rintro rfl
    revert h
    decide
  quote := by
    rintro rfl
    revert h
    decide
  op op hc := by
    cases op <;> simp only [FilterOp.symbol, chars, map_cons, map_nil, mem_cons,
      not_mem_nil, or_false] at hc <;> revert h <;> rcases hc with rfl | rfl <;> decide

theorem plain_of_isDigit (h : isDigit c = true) : Plain c :=
  plain_of_isNameChar (by simp [isNameChar, h])

theorem plain_of_sign {sign : Sign} (h : c ∈ sign.text) : Plain c := by
  cases sign with
  | none => simp [Sign.text] at h
  | plus =>
    obtain rfl : c = 43 := by simpa [Sign.text, chars] using h
    exact ⟨by decide, by decide, by intro op; cases op <;> decide⟩
  | minus =>
    obtain rfl : c = 45 := by simpa [Sign.text, chars] using h
    exact ⟨by decide, by decide, by intro op; cases op <;> decide⟩

theorem blank_notMem_symbol : blank ∉ op.symbol := by cases op <;> decide

theorem quote_notMem_symbol : quote ∉ op.symbol := by cases op <;> decide

theorem symbol_ne_nil : op.symbol ≠ [] := by cases op <;> decide

theorem forall_mem_of_all {p : UInt8 → Prop} [DecidablePred p] {u : Text}
    (h : u.all (fun c => decide (p c)) = true) : ∀ c ∈ u, p c :=
  fun c hc => of_decide_eq_true (all_eq_true.mp h c hc)

structure Joins (k : Text) : Prop where
  letters : ∀ c ∈ k, 65 ≤ c
  nonempty : k ≠ []

theorem joins_or : Joins (chars ['O', 'R']) := ⟨forall_mem_of_all (by decide), by decide⟩

theorem joins_and : Joins (chars ['A', 'N', 'D']) := ⟨forall_mem_of_all (by decide), by decide⟩

theorem Joins.blank_notMem {k : Text} (h : Joins k) : blank ∉ k := fun hb =>
  absurd (h.letters _ hb) (by decide)

theorem Joins.notMem {k : Text} (h : Joins k) (hb : c ≠ blank) (hc : c < 65) : c ∉ connective k := by
  intro hm
  simp only [connective, mem_cons, mem_append, not_mem_nil, or_false] at hm
  obtain rfl | hm | rfl := hm
  · exact hb rfl
  · exact absurd (h.letters c hm) (UInt8.not_le.mpr hc)
  · exact hb rfl

theorem symbol_lt (h : c ∈ op.symbol) : c < 65 := by
  have hall : ∀ c ∈ op.symbol, c < 65 := by
    cases op <;> exact forall_mem_of_all (by decide)
  exact hall c h

theorem isDigit_lt (h : isDigit c = true) : c < 65 :=
  UInt8.lt_of_le_of_lt (of_decide_eq_true h).2 (by decide)

theorem sign_lt {sign : Sign} (h : c ∈ sign.text) : c < 65 := by
  have hall : ∀ c ∈ sign.text, c < 65 := by
    cases sign <;> exact forall_mem_of_all (by decide)
  exact hall c h

end Characters

section Constraints

variable {c : Constraint} {b : List Constraint} {r : Text}

theorem Identifier.plain (i : Identifier) : ∀ d ∈ i.text, Plain d :=
  fun d hd => plain_of_isNameChar (i.names d hd)

theorem int_plain (sign : Sign) (ds : Digits) : ∀ d ∈ (Literal.int sign ds).written, Plain d := by
  intro d hd
  rcases mem_append.mp hd with h | h
  · exact plain_of_sign h
  · exact plain_of_isDigit (ds.digits d h)

theorem blank_notMem_of_plain {u : Text} (h : ∀ d ∈ u, Plain d) : blank ∉ u := fun hb => (h _ hb).blank rfl

theorem int_ne_nil (sign : Sign) (ds : Digits) : (Literal.int sign ds).written ≠ [] := by
  simp [Literal.written, ds.nonempty]

def Ends (w : Text) : Prop := ∃ u d, w = u ++ [d] ∧ d ≠ blank ∧ d < 65

theorem Ends.append {w : Text} (h : Ends w) (u : Text) : Ends (u ++ w) := by
  obtain ⟨v, d, rfl, hd⟩ := h
  exact ⟨u ++ v, d, by simp, hd⟩

theorem Ends.notMem {w k : Text} (h : Ends w) (hk : Joins k) : ∀ d ∈ w.getLast?, d ∉ connective k := by
  obtain ⟨v, x, rfl, hx, hlt⟩ := h
  intro d hd
  obtain rfl : x = d := by simpa using hd
  exact hk.notMem hx hlt

theorem written_ends (l : Literal) : Ends l.written := by
  cases l with
  | int sign ds =>
    obtain ⟨u, d, hd⟩ := eq_nil_or_concat _ |>.resolve_left ds.nonempty
    have hdig := ds.digits d (by simp [hd])
    exact ⟨sign.text ++ u, d, by simp [Literal.written, hd], (plain_of_isDigit hdig).blank, isDigit_lt hdig⟩
  | text q => exact ⟨quote :: q.text, quote, rfl, by decide, by decide⟩

theorem Constraint.tidy_ends (c : Constraint) : Ends c.tidy := by
  have h := (((written_ends c.value).append (blanks (min c.after 1))).append c.op.symbol).append
    (blanks (min c.before 1))
  exact h.append c.field.text

theorem collapse_value {s : Bool} (hv : ∀ q, c.value = .text q → ¬ [blank, blank] <:+: q.text) :
    collapse s (c.value.written ++ r) = c.value.written ++ collapse false r := by
  cases hval : c.value with
  | int sign ds => exact collapse_word (blank_notMem_of_plain (int_plain sign ds)) (int_ne_nil sign ds)
  | text q =>
    have hq : quote ≠ blank := by decide
    have hin : Literal.written (.text q) ++ r = quote :: (q.text ++ quote :: r) := by simp [Literal.written]
    rw [hin, collapse, if_neg hq, collapse_single hq (hv q hval) (by simp)]
    simp [Literal.written]

theorem Constraint.settles (hv : ∀ q, c.value = .text q → ¬ [blank, blank] <:+: q.text) :
    Settles c.text c.tidy where
  written := by
    refine ⟨c.trail, fun r => ?_⟩
    simp only [Constraint.text, Constraint.tidy, Constraint.spaced, append_assoc]
    rw [collapse_blanks_true, collapse_word (blank_notMem_of_plain c.field.plain) c.field.nonempty,
      collapse_gap, collapse_word blank_notMem_symbol symbol_ne_nil, collapse_gap, collapse_value hv]
  first := by
    obtain ⟨d, u, hd⟩ := exists_cons_of_ne_nil c.field.nonempty
    have hp := c.field.plain d (by simp [hd])
    exact ⟨d, _, by rw [Constraint.tidy, Constraint.spaced, hd, cons_append], hp.blank⟩
  last := by
    obtain ⟨u, d, hu, hd, -⟩ := c.tidy_ends
    exact ⟨u, d, hu, hd⟩

theorem Expression.settles (e : Expression) (h : e.Clean) : Settles e.text e.tidy := by
  apply settles_intercalate joins_or.blank_notMem joins_or.nonempty e.nonempty
  intro b hb
  apply settles_intercalate joins_and.blank_notMem joins_and.nonempty (e.inhabited b hb)
  intro c hc
  apply Constraint.settles
  intro q hq
  exact (h.values c (mem_flatten.mpr ⟨b, hb, hc⟩) q hq).blanks

end Constraints

section Apart

variable {c : Constraint} {k : Text}

/-- A connective begins with a blank, and behind a name there are only blanks. -/
theorem connective_absent_name (hk : Joins k) (i : Identifier) (n : Nat) :
    ¬ connective k <:+: i.text ++ blanks n := by
  obtain ⟨d, k', hd⟩ := exists_cons_of_ne_nil hk.nonempty
  have hdb : d ∉ blanks n := by
    intro h
    obtain rfl := eq_of_mem_replicate h
    exact hk.blank_notMem (by simp [hd])
  have hdk : d ∈ connective k := by simp [connective, hd]
  have hname := blank_notMem_of_plain i.plain
  rw [infix_append_iff]
  rintro (h | h | ⟨l, l', he, hl, hl'⟩)
  · exact hname (h.subset (by simp [connective]))
  · exact hdb (h.subset hdk)
  cases l with
  | nil =>
    rw [nil_append] at he
    exact hdb (hl'.subset (he ▸ hdk))
  | cons x l =>
    obtain ⟨rfl, -⟩ := cons.inj he
    exact hname (hl.subset (by simp))

theorem or_absent_name {i : Identifier} {n : Nat} (hi : i.text = chars ['O', 'R'] → n = 0) :
    ¬ orWord <:+: blank :: (i.text ++ blanks n) := by
  rw [infix_cons_iff, not_or]
  refine ⟨?_, connective_absent_name joins_or i n⟩
  -- in front of a name there is a blank, so the name would have to be the word itself
  intro h
  obtain ⟨t, ht⟩ := (cons_prefix_cons.mp h).2
  have hi' : i.text = (i.text ++ blanks n).takeWhile (· ≠ blank) := by
    rw [takeWhile_append_of_pos]
    · cases n with
      | zero => simp [blanks]
      | succ n => simp [blanks, replicate_succ]
    · intro d hd
      simpa using (i.plain d hd).blank
  have hor : i.text = chars ['O', 'R'] := by
    rw [← ht] at hi'
    exact hi'.trans (by simp [chars, blank, takeWhile])
  -- with nothing behind it the blank at the end of the connective is missing
  rw [hi hor, hor] at ht
  simp [chars, blanks] at ht

theorem connective_absent_value (hk : Joins k) (hv : ∀ q, c.value = .text q → ¬ connective k <:+: q.text)
    (m n : Nat) : ¬ connective k <:+: blanks m ++ (c.value.written ++ blanks n) := by
  have hblanks : ∀ j, ¬ connective k <:+: blanks j := by
    intro j
    obtain ⟨d, k', hd⟩ := exists_cons_of_ne_nil hk.nonempty
    intro hin
    have h := hin.subset (show d ∈ _ by simp [connective, hd])
    obtain rfl := eq_of_mem_replicate h
    exact hk.blank_notMem (by simp [hd])
  cases hval : c.value with
  | int sign ds =>
    rw [infix_around _ (int_ne_nil sign ds)]
    · simp [hblanks]
    intro d hd
    refine hk.notMem (int_plain sign ds d hd).blank ?_
    rcases mem_append.mp hd with h | h
    · exact sign_lt h
    · exact isDigit_lt (ds.digits d h)
  | text q =>
    have hq : quote ∉ connective k := hk.notMem (by decide) (by decide)
    have hin : blanks m ++ (Literal.written (.text q) ++ blanks n) =
        blanks m ++ quote :: (q.text ++ quote :: blanks n) := by simp [Literal.written]
    rw [hin, infix_across hq, infix_across hq]
    simp [hblanks, hv q hval]

theorem connective_absent_tidy (hk : Joins k) (hv : ∀ q, c.value = .text q → ¬ connective k <:+: q.text)
    {u : Text} (hu : ¬ connective k <:+: u ++ (c.field.text ++ blanks (min c.before 1))) (n : Nat) :
    ¬ connective k <:+: u ++ (c.tidy ++ blanks n) := by
  have hin : u ++ (c.tidy ++ blanks n) = u ++ (c.field.text ++ blanks (min c.before 1)) ++
      (c.op.symbol ++ (blanks (min c.after 1) ++ (c.value.written ++ blanks n))) := by
    simp [Constraint.tidy, Constraint.spaced]
  rw [hin, infix_around _ symbol_ne_nil]
  · rintro (h | h)
    · exact hu h
    · exact connective_absent_value hk hv _ _ h
  intro d hd
  refine hk.notMem ?_ (symbol_lt hd)
  rintro rfl
  exact blank_notMem_symbol hd

theorem apart_and_tidy (hc : c.Clean) : Apart andWord c.tidy where
  absent := by
    have h := @connective_absent_tidy c _ joins_and (fun q hq => (hc q hq).andWord) []
      (connective_absent_name joins_and c.field _) 0
    simpa [blanks, andWord] using h
  last := c.tidy_ends.notMem joins_and

theorem branchTidy_singleton (c : Constraint) : branchTidy [c] = c.tidy := by
  simp [branchTidy, intercalate_singleton]

theorem branchTidy_cons_cons (c d : Constraint) (b : List Constraint) :
    branchTidy (c :: d :: b) = c.tidy ++ andWord ++ branchTidy (d :: b) := by
  simp [branchTidy, intercalate_cons_cons]

theorem branchTidy_ends {b : List Constraint} (hne : b ≠ []) : Ends (branchTidy b) := by
  induction b with
  | nil => exact absurd rfl hne
  | cons c b ih =>
    cases b with
    | nil =>
      rw [branchTidy_singleton]
      exact c.tidy_ends
    | cons d b =>
      rw [branchTidy_cons_cons]
      exact (ih (by simp)).append _

/-- `u` is what stands in front of the first constraint. -/
theorem or_absent_cons {u : Text} {b : List Constraint} (hc : c.Clean)
    (hu : ¬ orWord <:+: u ++ (c.field.text ++ blanks (min c.before 1)))
    (hb : b ≠ [] → ¬ orWord <:+: blank :: branchTidy b) : ¬ orWord <:+: u ++ branchTidy (c :: b) := by
  have hone : ∀ n, ¬ orWord <:+: u ++ (c.tidy ++ blanks n) :=
    connective_absent_tidy joins_or (fun q hq => (hc q hq).orWord) hu
  cases b with
  | nil =>
    rw [branchTidy_singleton]
    simpa [blanks] using hone 0
  | cons d b =>
    have hand : ∀ x ∈ chars ['A', 'N', 'D'], x ∉ orWord := forall_mem_of_all (by decide)
    have hin : u ++ branchTidy (c :: d :: b) = (u ++ (c.tidy ++ blanks 1)) ++
          (chars ['A', 'N', 'D'] ++ blank :: branchTidy (d :: b)) := by
      simp [branchTidy_cons_cons, andWord, connective, blanks]
    rw [hin, infix_around hand (by decide)]
    rintro (h | h)
    · exact hone 1 h
    · exact hb (by simp) h

theorem or_absent_rest {b : List Constraint} (hne : b ≠ []) (hb : ∀ c ∈ b, c.Clean ∧ c.Distinct) :
    ¬ orWord <:+: blank :: branchTidy b := by
  induction b with
  | nil => exact absurd rfl hne
  | cons c b ih =>
    obtain ⟨hc, hd⟩ := hb c (by simp)
    exact @or_absent_cons c [blank] b hc (or_absent_name fun h => by rw [hd h]; rfl)
      fun hne => ih hne fun x hx => hb x (by simp [hx])

theorem apart_or_branch {b : List Constraint} (hne : b ≠ []) (hb : ∀ c ∈ b, c.Clean)
    (hd : ∀ c ∈ b.tail, c.Distinct) : Apart orWord (branchTidy b) where
  absent := by
    cases b with
    | nil => exact absurd rfl hne
    | cons c b =>
      refine @or_absent_cons c [] b (hb c (by simp)) (connective_absent_name joins_or c.field _) fun hne => ?_
      exact or_absent_rest hne fun x hx => ⟨hb x (by simp [hx]), hd x hx⟩
  last := (branchTidy_ends hne).notMem joins_or

end Apart

end RmwAxon.FilterGrammar
