import RmwAxon.Splitting

namespace RmwAxon.ContentFilter

open Splitting List

abbrev Text := List UInt8

def chars (cs : List Char) : Text := cs.map fun c => UInt8.ofNat c.toNat

def blank : UInt8 := 32

def quote : UInt8 := 34

def point : UInt8 := 46

def isBlank (c : UInt8) : Bool := c = blank

inductive FilterOp
  | eq
  | ne
  | lt
  | gt
  | le
  | ge
  deriving DecidableEq

def FilterOp.symbol : FilterOp → Text
  | .ge => chars ['>', '=']
  | .le => chars ['<', '=']
  | .ne => chars ['!', '=']
  | .eq => chars ['=']
  | .gt => chars ['>']
  | .lt => chars ['<']

/-- The order in which a constraint is searched for an operator. -/
def operators : List FilterOp := [.ge, .le, .ne, .eq, .gt, .lt]

inductive FilterValue (D : Type)
  | int (n : Int)
  | double (x : D)
  | string (s : Text)

structure FilterConstraint (D : Type) where
  fieldName : Text
  op : FilterOp
  value : FilterValue D

/-- A call that gives no constraints: `refused` returns false, the others are exceptions. -/
inductive Failure
  | refused
  | invalidArgument
  | outOfRange
  deriving DecidableEq

def isSpace (c : UInt8) : Bool := c = blank ∨ (9 ≤ c ∧ c ≤ 13)

def isDigit (c : UInt8) : Bool := 48 ≤ c ∧ c ≤ 57

def digitsValue (ds : Text) : Nat := ds.foldl (fun n c => n * 10 + (c.toNat - 48)) 0

def takeSign : Text → Bool × Text
  | [] => (false, [])
  | c :: t => if c = 45 then (true, t) else if c = 43 then (false, t) else (false, c :: t)

def inInt64 (n : Int) : Bool := -9223372036854775808 ≤ n ∧ n < 9223372036854775808

def stoll (s : Text) : Except Failure Int :=
  let t := takeSign (s.dropWhile isSpace)
  let ds := t.2.takeWhile isDigit
  if ds = [] then .error .invalidArgument
  else
    let n : Int := if t.1 then -(digitsValue ds : Int) else digitsValue ds
    if inInt64 n then .ok n else .error .outOfRange

/-- The texts that `strtod` converts the beginning of. -/
def startsNumber (s : Text) : Bool :=
  let t := (takeSign (s.dropWhile isSpace)).2
  t.head?.any isDigit || (t.head? == some point && t.tail.head?.any isDigit) ||
    [chars ['i', 'n', 'f'], chars ['n', 'a', 'n']].contains ((t.take 3).map (· ||| 32))

/-- The platform's floating-point numbers: single ones `F` and double ones `D`. What `stod` cannot
convert is an invalid argument. -/
structure Floats (F D : Type) where
  stod : Text → Except Failure D
  stod_invalid : ∀ s, stod s = .error .invalidArgument ↔ startsNumber s = false
  stod_throws : ∀ s, stod s ≠ .error .refused
  ofFloat : F → D
  ofInt : Int → D
  eq : D → D → Bool
  lt : D → D → Bool
  le : D → D → Bool

section Parse

variable {F D : Type} (fl : Floats F D)

def parseValue (v : Text) : Except Failure (FilterValue D) :=
  if 2 ≤ v.length ∧ v.head? = some quote ∧ v.getLast? = some quote then .ok (.string v.tail.dropLast)
  else if point ∈ v then (fl.stod v).map .double
  else (stoll v).map .int

def findOperator (expr : Text) : Option (FilterOp × Text × Text) :=
  operators.findSome? fun o => (expr.dropInfix? o.symbol).map (o, ·)

def parseSingleConstraint (expr : Text) : Except Failure (FilterConstraint D) :=
  match findOperator expr with
  | none => .error .refused
  | some (op, before, after) =>
    (parseValue fl (after.dropWhile isBlank)).map (⟨before.rdropWhile isBlank, op, ·⟩)

/-- Runs of blanks become one; the flag says whether a blank was last. -/
def collapse : Bool → Text → Text
  | _, [] => []
  | inSpace, c :: t =>
    if c = blank then if inSpace then collapse true t else blank :: collapse true t
    else c :: collapse false t

def normalize (expr : Text) : Text := ((collapse false expr).dropWhile isBlank).rdropWhile isBlank

def connective (k : Text) : Text := blank :: (k ++ [blank])

def orWord : Text := connective (chars ['O', 'R'])

def andWord : Text := connective (chars ['A', 'N', 'D'])

/-- The constraints, and whether all of them have to match; `conj` is what the caller's flag was. -/
def parseFilterExpression (expr : Text) (conj : Bool) : Except Failure (List (FilterConstraint D) × Bool) :=
  let norm := normalize expr
  if norm = [] then .ok ([], conj)
  else if (norm.dropInfix? orWord).isSome then
    -- the constraints of all branches go into one list
    (((split orWord norm).flatMap (split andWord)).mapM (parseSingleConstraint fl)).map (·, false)
  else ((split andWord norm).mapM (parseSingleConstraint fl)).map (·, true)

end Parse

/-- What a message holds for a member. An octet is a `uint8` and a char an `int8`; the pointer of a
string may be null. -/
inductive FieldValue (F D : Type)
  | bool (b : Bool)
  | uint8 (n : UInt8)
  | int8 (n : Int8)
  | uint16 (n : UInt16)
  | int16 (n : Int16)
  | uint32 (n : UInt32)
  | int32 (n : Int32)
  | uint64 (n : UInt64)
  | int64 (n : Int64)
  | float (x : F)
  | double (x : D)
  | string (s : Option Text)
  | other

structure Member (F D : Type) where
  name : Option Text
  value : FieldValue F D

abbrev Message (F D : Type) := List (Member F D)

section Evaluate

variable {F D : Type} (fl : Floats F D)

def readFieldValue : FieldValue F D → Option (FilterValue D)
  | .bool b => some (.int (if b then 1 else 0))
  | .uint8 n => some (.int n.toNat)
  | .int8 n => some (.int n.toInt)
  | .uint16 n => some (.int n.toNat)
  | .int16 n => some (.int n.toInt)
  | .uint32 n => some (.int n.toNat)
  | .int32 n => some (.int n.toInt)
  -- the cast keeps the bits, so the upper half becomes negative
  | .uint64 n => some (.int n.toInt64.toInt)
  | .int64 n => some (.int n.toInt)
  | .float x => some (.double (fl.ofFloat x))
  | .double x => some (.double x)
  | .string s => some (.string (s.getD []))
  | .other => none

def FilterOp.test {α : Type} (eq lt le : α → α → Bool) : FilterOp → α → α → Bool
  | .eq, a, b => eq a b
  | .ne, a, b => !eq a b
  | .lt, a, b => lt a b
  | .gt, a, b => lt b a
  | .le, a, b => le a b
  | .ge, a, b => le b a

/-- The text that is compared: a value of another kind has left it empty. -/
def FilterValue.text : FilterValue D → Text
  | .string s => s
  | _ => []

def FilterValue.isString : FilterValue D → Bool
  | .string _ => true
  | _ => false

def FilterValue.toDouble : FilterValue D → Option D
  | .int n => some (fl.ofInt n)
  | .double x => some x
  | .string _ => none

def compareValues (op : FilterOp) (field value : FilterValue D) : Bool :=
  if value.isString || field.isString then
    op.test (fun a b => a = b) (fun a b => a < b) (fun a b => a ≤ b) field.text value.text
  else
    match field, value with
    | .int a, .int b => op.test (fun a b => a = b) (fun a b => a < b) (fun a b => a ≤ b) a b
    | a, b => ((a.toDouble fl).bind fun x => (b.toDouble fl).map (op.test fl.eq fl.lt fl.le x)).getD false

def Message.find (m : Message F D) (name : Text) : Option (FieldValue F D) :=
  (List.find? (fun f => f.name = some name) m).map (·.value)

def evaluateConstraint (m : Message F D) (c : FilterConstraint D) : Bool :=
  match (Message.find m c.fieldName).bind (readFieldValue fl) with
  | none => false
  | some v => compareValues fl c.op v c.value

def evaluateFilter (m : Message F D) (cs : List (FilterConstraint D)) (conj : Bool) : Bool :=
  if cs.isEmpty then true
  else if conj then cs.all (evaluateConstraint fl m)
  else cs.any (evaluateConstraint fl m)

end Evaluate

def blanks (n : Nat) : Text := List.replicate n blank

section Collapse

variable {u r t t' w w' k : Text}

theorem collapse_blanks_true (n : Nat) : collapse true (blanks n ++ r) = collapse true r := by
  induction n with
  | zero => rfl
  | succ n ih => simpa [blanks, replicate_succ, collapse] using ih

theorem collapse_blanks_false (n : Nat) :
    collapse false (blanks (n + 1) ++ r) = blank :: collapse true r := by
  have h : blanks (n + 1) ++ r = blank :: (blanks n ++ r) := rfl
  rw [h, collapse, if_pos rfl, if_neg (by simp), collapse_blanks_true]

theorem collapse_word {s : Bool} (hu : blank ∉ u) (hne : u ≠ []) :
    collapse s (u ++ r) = u ++ collapse false r := by
  induction u generalizing s with
  | nil => exact absurd rfl hne
  | cons c u ih =>
    obtain ⟨hc, hu⟩ : ¬ blank = c ∧ blank ∉ u := by simpa using hu
    rw [cons_append, collapse, if_neg (Ne.symm hc)]
    by_cases hnil : u = []
    · subst hnil
      rfl
    · rw [ih hu hnil, cons_append]

theorem collapse_single {s : Bool} {q : UInt8} (hq : q ≠ blank) (hu : ¬ [blank, blank] <:+: u)
    (hs : s = true → u.head? ≠ some blank) : collapse s (u ++ q :: r) = u ++ q :: collapse false r := by
  induction u generalizing s with
  | nil => simp [collapse, hq]
  | cons c u ih =>
    have hu' : ¬ [blank, blank] <:+: u := fun h => hu (infix_cons h)
    rw [cons_append, collapse]
    by_cases hc : c = blank
    · subst hc
      have hf : s = false := by
        cases s with
        | false => rfl
        | true => exact absurd rfl (hs rfl)
      subst hf
      rw [if_pos rfl, if_neg (by simp), ih hu', cons_append]
      intro _ hh
      obtain ⟨u, rfl⟩ := head?_eq_some_iff.mp hh
      exact hu ⟨[], u, rfl⟩
    · rw [if_neg hc, ih hu' (by simp), cons_append]

/-- Behind a blank, the text `t` is written as `w` and some blanks; `w` begins and ends with
something else. -/
structure Settles (t w : Text) : Prop where
  written : ∃ n, ∀ r, collapse true (t ++ r) = w ++ collapse false (blanks n ++ r)
  first : ∃ c u, w = c :: u ∧ c ≠ blank
  last : ∃ u c, w = u ++ [c] ∧ c ≠ blank

theorem Settles.join (hk : blank ∉ k) (hne : k ≠ []) (h : Settles t w) (h' : Settles t' w') :
    Settles (t ++ connective k ++ t') (w ++ connective k ++ w') where
  written := by
    obtain ⟨n, hn⟩ := h.written
    obtain ⟨n', hn'⟩ := h'.written
    refine ⟨n', fun r => ?_⟩
    have gap : blanks n ++ (connective k ++ t' ++ r) = blanks (n + 1) ++ (k ++ (blank :: (t' ++ r))) := by
      simp [blanks, connective, replicate_succ']
    rw [append_assoc, append_assoc, hn, ← append_assoc (connective k), gap,
      collapse_blanks_false, collapse_word hk hne, collapse, if_pos rfl, if_neg (by simp), hn']
    simp [connective]
  first := by
    obtain ⟨c, u, rfl, hc⟩ := h.first
    exact ⟨c, u ++ connective k ++ w', by simp, hc⟩
  last := by
    obtain ⟨u, c, rfl, hc⟩ := h'.last
    exact ⟨w ++ connective k ++ u, c, by simp, hc⟩

theorem settles_intercalate {α : Type} {f g : α → Text} {l : List α} (hk : blank ∉ k) (hk' : k ≠ [])
    (hl : l ≠ []) (h : ∀ a ∈ l, Settles (f a) (g a)) :
    Settles ((connective k).intercalate (l.map f)) ((connective k).intercalate (l.map g)) := by
  induction l with
  | nil => exact absurd rfl hl
  | cons a l ih =>
    cases l with
    | nil => simpa [intercalate_singleton] using h a (by simp)
    | cons b l =>
      have hrest := ih (by simp) fun x hx => h x (by simp [hx])
      simpa [intercalate_cons_cons] using (h a (by simp)).join hk hk' hrest

theorem dropWhile_blanks (n : Nat) (h : ∃ c u, w = c :: u ∧ c ≠ blank) :
    (blanks n ++ w).dropWhile isBlank = w := by
  obtain ⟨c, u, rfl, hc⟩ := h
  rw [blanks, dropWhile_append_of_pos (by simp [isBlank])]
  simp [isBlank, hc]

theorem rdropWhile_blanks (n : Nat) (h : ∃ u c, w = u ++ [c] ∧ c ≠ blank) :
    (w ++ blanks n).rdropWhile isBlank = w := by
  obtain ⟨u, c, rfl, hc⟩ := h
  have hrev : (u ++ [c] ++ blanks n).reverse = blanks n ++ c :: u.reverse := by simp [blanks]
  rw [rdropWhile, hrev, dropWhile_blanks n ⟨c, u.reverse, rfl, hc⟩]
  simp

theorem normalize_of_settles (h : Settles t w) : normalize t = w := by
  obtain ⟨n, hn⟩ := h.written
  have htail : ∃ j, collapse true t = w ++ blanks j := by
    have h0 := hn []
    rw [append_nil, append_nil] at h0
    cases n with
    | zero => exact ⟨0, h0⟩
    | succ n =>
      refine ⟨1, h0.trans ?_⟩
      rw [← append_nil (blanks (n + 1)), collapse_blanks_false]
      rfl
  have hfront : (collapse false t).dropWhile isBlank = (collapse true t).dropWhile isBlank := by
    cases t with
    | nil => rfl
    | cons c t =>
      by_cases hc : c = blank
      · simp [collapse, hc, isBlank]
      · simp [collapse, hc]
  obtain ⟨j, hj⟩ := htail
  have hdrop : (w ++ blanks j).dropWhile isBlank = w ++ blanks j := by
    obtain ⟨c, u, rfl, hc⟩ := h.first
    exact dropWhile_blanks 0 ⟨c, u ++ blanks j, rfl, hc⟩
  rw [normalize, hfront, hj, hdrop, rdropWhile_blanks j h.last]

theorem collapse_gap (n : Nat) :
    collapse false (blanks n ++ r) = blanks (min n 1) ++ collapse (decide (0 < n)) r := by
  cases n with
  | zero => rfl
  | succ n =>
    have h : min (n + 1) 1 = 1 := by omega
    rw [collapse_blanks_false, h]
    rfl

end Collapse

end RmwAxon.ContentFilter
