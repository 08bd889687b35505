import RmwAxon.FilterGrammar

namespace RmwAxon.FilterMeaning

open ContentFilter FilterGrammar Splitting Function List Option

variable {F D : Type} {fl : Floats F D} {c : Constraint} {e : Expression} {m : Message F D}

section Parse

theorem earlier_not_infix (op : FilterOp) :
    ∀ o ∈ operators.takeWhile (· ≠ op), ¬ o.symbol <:+: op.symbol := by
  cases op <;> decide

theorem blanks_outside {o : FilterOp} (n : Nat) : ∀ d ∈ blanks n, d ∉ o.symbol := by
  intro d hd
  obtain rfl := eq_of_mem_replicate hd
  exact blank_notMem_symbol

theorem earlier_absent (hc : c.Clean) : ∀ o ∈ operators.takeWhile (· ≠ c.op), ¬ o.symbol <:+: c.tidy := by
  intro o ho
  have hop := earlier_not_infix c.op o ho
  rw [Constraint.tidy, Constraint.spaced, infix_after fun d hd => (c.field.plain d hd).op o,
    infix_after (blanks_outside _)]
  cases hval : c.value with
  | int sign ds =>
    have houtside : ∀ d ∈ blanks (min c.after 1) ++ (Literal.int sign ds).written, d ∉ o.symbol := by
      intro d hd
      rcases mem_append.mp hd with hd | hd
      · exact blanks_outside _ d hd
      · exact (int_plain sign ds d hd).op o
    rwa [infix_before houtside]
  | text q =>
    have hin : c.op.symbol ++ (blanks (min c.after 1) ++ (Literal.text q).written) =
        (c.op.symbol ++ blanks (min c.after 1)) ++ quote :: (q.text ++ [quote]) := by
      simp [Literal.written]
    rw [hin, infix_across quote_notMem_symbol, infix_before (blanks_outside _),
      infix_before (by simpa using quote_notMem_symbol)]
    rintro (h | h)
    · exact hop h
    · exact (hc q hval).operators o ho h

theorem findOperator_tidy (hc : c.Clean) : findOperator c.tidy =
    some (c.op, c.field.text ++ blanks (min c.before 1), blanks (min c.after 1) ++ c.value.written) := by
  obtain ⟨later, hl⟩ : ∃ later, operators = operators.takeWhile (· ≠ c.op) ++ c.op :: later := by
    cases c.op <;> exact ⟨_, rfl⟩
  have hnone : (operators.takeWhile (· ≠ c.op)).findSome?
      (fun o => (c.tidy.dropInfix? o.symbol).map (o, ·)) = none := by
    rw [findSome?_eq_none_iff]
    intro o ho
    rw [dropInfix?_eq_none.mpr (earlier_absent hc o ho)]
    rfl
  have hapart : Apart c.op.symbol (c.field.text ++ blanks (min c.before 1)) := by
    apply apart_of_disjoint symbol_ne_nil
    intro d hd
    rcases mem_append.mp hd with hd | hd
    · exact (c.field.plain d hd).op _
    · exact blanks_outside _ d hd
  have hsome : c.tidy.dropInfix? c.op.symbol =
      some (c.field.text ++ blanks (min c.before 1), blanks (min c.after 1) ++ c.value.written) := by
    rw [← dropInfix?_of_apart hapart]
    simp [Constraint.tidy, Constraint.spaced]
  rw [findOperator, hl, findSome?_append, hnone, findSome?_cons, hsome]
  rfl

theorem isSpace_of_isDigit {d : UInt8} (h : isDigit d = true) : isSpace d = false := by
  have hd := of_decide_eq_true h
  apply decide_eq_false
  rintro (rfl | hs)
  · exact absurd hd.1 (by decide)
  · exact absurd (UInt8.le_trans hd.1 hs.2) (by decide)

theorem takeSign_digits (ds : Digits) : takeSign (ds.text.dropWhile isSpace) = (false, ds.text) := by
  obtain ⟨d, t, ht⟩ := exists_cons_of_ne_nil ds.nonempty
  have hd := ds.digits d (by simp [ht])
  have hne : ∀ x, isDigit x = false → d ≠ x := by
    rintro x hx rfl
    simp [hd] at hx
  rw [ht, dropWhile_cons_of_neg (by simp [isSpace_of_isDigit hd]), takeSign,
    if_neg (hne 45 (by decide)), if_neg (hne 43 (by decide))]

theorem stoll_written (sign : Sign) (ds : Digits) : stoll (Literal.int sign ds).written =
    if inInt64 (intValue sign ds) then .ok (intValue sign ds) else .error .outOfRange := by
  have hdig : ds.text.takeWhile isDigit = ds.text := takeWhile_eq_self_iff.mpr ds.digits
  have hsign : takeSign ((Literal.int sign ds).written.dropWhile isSpace) = (sign.negative, ds.text) := by
    cases sign with
    | none => exact takeSign_digits ds
    | plus | minus => rfl
  simp only [stoll, hsign, hdig, if_neg ds.nonempty]
  rfl

theorem parseValue_written (l : Literal) : parseValue fl l.written =
    if l.inRange then .ok (l.parsed) else .error .outOfRange := by
  cases l with
  | int sign ds =>
    have hplain := int_plain sign ds
    have hpoint : point ∉ (Literal.int sign ds).written := by
      intro h
      rcases mem_append.mp h with h | h
      · revert h
        cases sign <;> decide
      · exact absurd (ds.digits point h) (by decide)
    rw [parseValue, if_neg fun h => (hplain quote (mem_of_head? h.2.1)).quote rfl, if_neg hpoint,
      stoll_written, apply_ite (Except.map FilterValue.int)]
    rfl
  | text q =>
    have hin : (Literal.text q).written = quote :: (q.text ++ [quote]) := rfl
    rw [parseValue, hin, if_pos (by simp [getLast?_cons])]
    simp [Literal.inRange, Literal.parsed]

theorem parseSingleConstraint_tidy (hc : c.Clean) : parseSingleConstraint fl c.tidy =
    if c.value.inRange then .ok (c.parsed) else .error .outOfRange := by
  have hfirst : ∃ d u, c.value.written = d :: u ∧ d ≠ blank := by
    cases c.value with
    | int sign ds =>
      obtain ⟨d, u, hd⟩ := exists_cons_of_ne_nil (int_ne_nil sign ds)
      exact ⟨d, u, hd, (int_plain sign ds d (by simp [hd])).blank⟩
    | text q => exact ⟨quote, _, rfl, by decide⟩
  have hlast : ∃ u d, c.field.text = u ++ [d] ∧ d ≠ blank := by
    obtain ⟨u, d, hd⟩ := eq_nil_or_concat _ |>.resolve_left c.field.nonempty
    exact ⟨u, d, by simp [hd], (c.field.plain d (by simp [hd])).blank⟩
  rw [parseSingleConstraint, findOperator_tidy hc]
  simp only
  rw [dropWhile_blanks _ hfirst, rdropWhile_blanks _ hlast, parseValue_written]
  split <;> rfl

theorem mapM_tidy {cs : List Constraint} (h : ∀ c ∈ cs, c.Clean) :
    (cs.map Constraint.tidy).mapM (parseSingleConstraint fl) =
      if cs.all (fun c => c.value.inRange) then .ok (cs.map Constraint.parsed)
      else .error .outOfRange := by
  induction cs with
  | nil => rfl
  | cons c cs ih =>
    rw [map_cons, mapM_cons, ih fun d hd => h d (by simp [hd]), parseSingleConstraint_tidy (h c (by simp))]
    cases hc : c.value.inRange with
    | false => simp [hc]; rfl
    | true =>
      cases hcs : cs.all fun c => c.value.inRange with
      | false | true => simp [hc, hcs]; rfl

theorem split_branch {b : List Constraint} (hne : b ≠ []) (hb : ∀ c ∈ b, c.Clean) :
    split andWord (branchTidy b) = b.map Constraint.tidy := by
  apply split_intercalate (by simp [andWord, connective]) (by simpa using hne)
  intro p hp
  obtain ⟨c, hc, rfl⟩ := List.mem_map.mp hp
  exact apart_and_tidy (hb c hc)

theorem clean_branch (hc : e.Clean) {b : List Constraint} (hb : b ∈ e.branches) : ∀ c ∈ b, c.Clean :=
  fun c hcb => hc.values c (mem_flatten.mpr ⟨b, hb, hcb⟩)

theorem apart_or_branches (hc : e.Clean) : ∀ p ∈ e.branches.map branchTidy, Apart orWord p := by
  intro p hp
  obtain ⟨b, hb, rfl⟩ := List.mem_map.mp hp
  exact apart_or_branch (e.inhabited b hb) (clean_branch hc hb) (hc.fields b hb)

theorem tidy_singleton {b : List Constraint} (hb : e.branches = [b]) : e.tidy = branchTidy b := by
  simp [Expression.tidy, hb, intercalate_singleton]

theorem or_infix_tidy (hc : e.Clean) : orWord <:+: e.tidy ↔ e.branches.length ≠ 1 := by
  obtain ⟨b, bs, hb⟩ := exists_cons_of_ne_nil e.nonempty
  cases bs with
  | nil =>
    rw [tidy_singleton hb, hb]
    simp [(apart_or_branches hc (branchTidy b) (by simp [hb])).absent]
  | cons d bs =>
    simp only [Expression.tidy, hb, map_cons, intercalate_cons_cons]
    simp

theorem pieces_tidy (hc : e.Clean) :
    (split orWord e.tidy).flatMap (split andWord) = e.constraints.map Constraint.tidy := by
  have hsplit : split orWord e.tidy = e.branches.map branchTidy :=
    split_intercalate (by simp [orWord, connective]) (by simpa using e.nonempty) (apart_or_branches hc)
  have hbranches : ∀ bs : List (List Constraint), (∀ b ∈ bs, b ∈ e.branches) →
      (bs.map branchTidy).flatMap (split andWord) = bs.flatten.map Constraint.tidy := by
    intro bs hbs
    induction bs with
    | nil => rfl
    | cons b bs ih =>
      have hb := hbs b (by simp)
      rw [map_cons, flatMap_cons, split_branch (e.inhabited b hb) (clean_branch hc hb),
        ih fun x hx => hbs x (by simp [hx]), flatten_cons, map_append]
  rw [hsplit]
  exact hbranches e.branches fun b hb => hb

/-- All constraints are found, but they end up in one list with one connective. -/
theorem parseFilterExpression_text (hc : e.Clean) (conj : Bool) : parseFilterExpression fl e.text conj =
    if e.constraints.all (fun c => c.value.inRange) then
      .ok (e.constraints.map Constraint.parsed, decide (e.branches.length = 1))
    else .error .outOfRange := by
  have hset := e.settles hc
  have hne : e.tidy ≠ [] := by
    obtain ⟨d, u, hd, -⟩ := hset.first
    simp [hd]
  simp only [parseFilterExpression, normalize_of_settles hset, if_neg hne]
  by_cases hone : e.branches.length = 1
  · obtain ⟨b, hb⟩ := length_eq_one_iff.mp hone
    have hbm : b ∈ e.branches := by simp [hb]
    have hcs : e.constraints = b := by simp [Expression.constraints, hb]
    rw [dropInfix?_eq_none.mpr fun h => (or_infix_tidy hc).mp h hone, if_neg (by simp), tidy_singleton hb,
      split_branch (e.inhabited b hbm) (clean_branch hc hbm), mapM_tidy (clean_branch hc hbm), hcs]
    split <;> simp [Except.map, hone]
  · have hsome : (e.tidy.dropInfix? orWord).isSome = true := by
      rw [isSome_iff_ne_none]
      exact fun h => dropInfix?_eq_none.mp h ((or_infix_tidy hc).mpr hone)
    rw [if_pos hsome, pieces_tidy hc, mapM_tidy hc.values]
    split <;> simp [Except.map, hone]

end Parse

section Evaluate

def integerOf : FieldValue F D → Option Int
  | .uint8 n => some n.toNat
  | .int8 n => some n.toInt
  | .uint16 n => some n.toNat
  | .int16 n => some n.toInt
  | .uint32 n => some n.toNat
  | .int32 n => some n.toInt
  | .uint64 n => some n.toNat
  | .int64 n => some n.toInt
  | _ => none

def textOf : FieldValue F D → Option Text
  | .string s => some (s.getD [])
  | _ => none

def Rel {α : Type} [LT α] [LE α] : FilterOp → α → α → Prop
  | .eq, a, b => a = b
  | .ne, a, b => a ≠ b
  | .lt, a, b => a < b
  | .gt, a, b => b < a
  | .le, a, b => a ≤ b
  | .ge, a, b => b ≤ a

def Compares (op : FilterOp) (v : FieldValue F D) : Literal → Prop
  | .int sign ds => ∃ n, integerOf v = some n ∧ Rel op n (intValue sign ds)
  | .text q => ∃ t, textOf v = some t ∧ Rel op t q.text

def Holds (m : Message F D) (c : Constraint) : Prop :=
  ∃ v, Message.find m c.field.text = some v ∧ Compares c.op v c.value

/-- The usual reading: one of the branches holds as a whole. -/
def Satisfied (m : Message F D) (e : Expression) : Prop := ∃ b ∈ e.branches, ∀ c ∈ b, Holds m c

def OfKind (v : FieldValue F D) : Literal → Prop
  | .int _ _ => ∃ n, integerOf v = some n ∧ inInt64 n = true
  | .text _ => ∃ t, textOf v = some t

def Typed (m : Message F D) (c : Constraint) : Prop :=
  ∀ v, Message.find m c.field.text = some v → OfKind v c.value

theorem readFieldValue_integer {v : FieldValue F D} {n : Int} (h : integerOf v = some n)
    (hn : inInt64 n = true) : readFieldValue fl v = some (.int n) := by
  cases v with
  | uint64 x =>
    obtain rfl : (x.toNat : Int) = n := by simpa [integerOf] using h
    have hx : (x.toNat : Int) < 9223372036854775808 := (of_decide_eq_true hn).2
    have hcast : x.toInt64.toInt = (x.toNat : Int) := by
      apply BitVec.toInt_eq_toNat_of_lt
      have hbits : x.toInt64.toBitVec.toNat = x.toNat := rfl
      omega
    rw [readFieldValue, hcast]
  | uint8 x | int8 x | uint16 x | int16 x | uint32 x | int32 x | int64 x =>
    simpa [integerOf, readFieldValue] using h
  | bool b | float x | double x | string s | other => simp [integerOf] at h

theorem readFieldValue_text {v : FieldValue F D} {t : Text} (h : textOf v = some t) :
    readFieldValue fl v = some (.string t) := by
  cases v with
  | string s => simpa [textOf, readFieldValue] using h
  | _ => simp [textOf] at h

theorem test_iff {α : Type} [LT α] [LE α] [DecidableEq α] [DecidableRel fun a b : α => a < b]
    [DecidableRel fun a b : α => a ≤ b] (op : FilterOp) (a b : α) :
    op.test (fun a b => decide (a = b)) (fun a b => decide (a < b)) (fun a b => decide (a ≤ b)) a b = true ↔
      Rel op a b := by
  cases op <;> simp [FilterOp.test, Rel]

theorem evaluateConstraint_parsed (ht : Typed m c) : evaluateConstraint fl m c.parsed = true ↔ Holds m c := by
  cases hf : Message.find m c.field.text with
  | none => simp [evaluateConstraint, Constraint.parsed, hf, Holds]
  | some v =>
    have hk := ht v hf
    cases hval : c.value with
    | int sign ds =>
      rw [hval] at hk
      obtain ⟨n, hn, hin⟩ := hk
      simp only [evaluateConstraint, Constraint.parsed, hf, bind_some,
        readFieldValue_integer hn hin, hval, Literal.parsed, compareValues, FilterValue.isString,
        Holds, Compares]
      rw [if_neg (by simp), test_iff]
      simp [hn]
    | text q =>
      rw [hval] at hk
      obtain ⟨t, htext⟩ := hk
      simp only [evaluateConstraint, Constraint.parsed, hf, bind_some, readFieldValue_text htext,
        hval, Literal.parsed, compareValues, FilterValue.isString, Holds, Compares, FilterValue.text]
      rw [if_pos (by simp), test_iff]
      simp [htext]

theorem evaluateFilter_parsed (ht : ∀ c ∈ e.constraints, Typed m c) (conj : Bool) :
    evaluateFilter fl m (e.constraints.map Constraint.parsed) conj = true ↔
      if conj then ∀ c ∈ e.constraints, Holds m c else ∃ c ∈ e.constraints, Holds m c := by
  have hne : (e.constraints.map (Constraint.parsed (D := D))).isEmpty = false := by
    obtain ⟨b, bs, hb⟩ := exists_cons_of_ne_nil e.nonempty
    obtain ⟨c, b, rfl⟩ := exists_cons_of_ne_nil (e.inhabited b (by simp [hb]))
    simp [Expression.constraints, hb]
  rw [evaluateFilter, hne]
  cases conj with
  | true =>
    simp only [List.all_map, List.all_eq_true, comp_apply, if_true, Bool.false_eq_true, if_false]
    exact forall₂_congr fun c hc => evaluateConstraint_parsed (ht c hc)
  | false =>
    simp only [List.any_map, List.any_eq_true, comp_apply, Bool.false_eq_true, if_false]
    exact exists_congr fun c => and_congr_right fun hc => evaluateConstraint_parsed (ht c hc)

end Evaluate

def Right (fl : Floats F D) (e : Expression) (m : Message F D) : Prop :=
  ∀ conj, ∃ cs conj', parseFilterExpression fl e.text conj = .ok (cs, conj') ∧
    (evaluateFilter fl m cs conj' = true ↔ Satisfied m e)

def noFloats : Floats Empty Unit where
  stod s := if startsNumber s then .ok () else .error .invalidArgument
  stod_invalid s := by simp
  stod_throws s := by split_ifs <;> simp
  ofFloat _ := ()
  ofInt _ := ()
  eq _ _ := false
  lt _ _ := false
  le _ _ := false

def letterName (c : UInt8) (h : isNameChar c = true ∧ isDigit c = false) : Identifier where
  text := [c]
  nonempty := List.cons_ne_nil c []
  names _ hd := List.mem_singleton.mp hd ▸ h.1
  start _ hd := Option.mem_some_iff.mp hd ▸ h.2

def zeroDigits : Digits := ⟨[48], List.cons_ne_nil 48 [], fun _ hd => List.mem_singleton.mp hd ▸ rfl⟩

def positive (c : UInt8) (h : isNameChar c = true ∧ isDigit c = false) : Constraint :=
  ⟨letterName c h, .gt, .int .none zeroDigits, 0, 1, 1, 0⟩

def posX : Constraint := positive 120 ⟨rfl, rfl⟩

def posY : Constraint := positive 121 ⟨rfl, rfl⟩

def posZ : Constraint := positive 122 ⟨rfl, rfl⟩

def member (c : UInt8) (n : Int32) : Member Empty Unit := ⟨some [c], .int32 n⟩

def bothPositive : Expression := ⟨[[posX, posY]], by simp, by simp⟩

/-- The expression `x > 0 AND y > 0 OR z > 0`. -/
def mixed : Expression := ⟨[[posX, posY], [posZ]], by simp, by simp⟩

def onlyX : Message Empty Unit := [member 120 1, member 121 0, member 122 0]

theorem clean_of_positive (e : Expression) (he : ∀ c ∈ e.constraints, c = posX ∨ c = posY ∨ c = posZ) :
    e.Clean where
  values c hc q hq := by
    obtain rfl | rfl | rfl := he c hc <;> cases hq
  fields b hb c hc hor := by
    have hmem := mem_flatten.mpr ⟨b, hb, mem_of_mem_tail hc⟩
    obtain rfl | rfl | rfl := he c hmem <;> cases hor

theorem onlyX_typed (e : Expression) (he : ∀ c ∈ e.constraints, c = posX ∨ c = posY ∨ c = posZ) :
    ∀ c ∈ e.constraints, Typed onlyX c := by
  intro c hc v hv
  obtain rfl | rfl | rfl := he c hc
  · obtain rfl : FieldValue.int32 1 = v := some.inj hv
    exact ⟨1, rfl, rfl⟩
  · obtain rfl : FieldValue.int32 0 = v := some.inj hv
    exact ⟨0, rfl, rfl⟩
  · obtain rfl : FieldValue.int32 0 = v := some.inj hv
    exact ⟨0, rfl, rfl⟩

end RmwAxon.FilterMeaning
