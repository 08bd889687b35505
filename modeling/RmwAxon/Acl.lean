import RmwAxon.Registry

namespace RmwAxon.Acl

open Registry Function List

abbrev Text := List Char

/-- The glob crate: which patterns it compiles and which texts they match. -/
structure Glob where
  valid : Text → Bool
  isMatch : Text → Text → Bool

inductive AclDirection
  | publish
  | subscribe
  deriving DecidableEq, Repr

structure AclEngine where
  allowPublish : List Text
  allowSubscribe : List Text

def newEngine : AclEngine := ⟨[], []⟩

def isWhitespace (c : Char) : Bool :=
  let n := c.toNat
  (9 ≤ n && n ≤ 13) || n == 0x20 || n == 0x85 || n == 0xA0 || n == 0x1680 ||
    (0x2000 ≤ n && n ≤ 0x200A) || n == 0x2028 || n == 0x2029 || n == 0x202F || n == 0x205F ||
    n == 0x3000

def trim (t : Text) : Text := ((t.dropWhile isWhitespace).reverse.dropWhile isWhitespace).reverse

def envPatterns (var : Option Text) : List Text :=
  match var with
  | none => []
  | some rules => ((rules.splitOn ',').map trim).filter (· ≠ [])

/-- A pattern that does not compile is dropped. -/
def addRule (glob : Glob) (acl : AclEngine) (direction : AclDirection) (pattern : Text) :
    Bool × AclEngine :=
  if glob.valid pattern then
    match direction with
    | .publish => (true, { acl with allowPublish := acl.allowPublish ++ [pattern] })
    | .subscribe => (true, { acl with allowSubscribe := acl.allowSubscribe ++ [pattern] })
  else (false, acl)

def addRules (glob : Glob) (acl : AclEngine) (direction : AclDirection) (patterns : List Text) :
    AclEngine :=
  patterns.foldl (fun acl pattern => (addRule glob acl direction pattern).2) acl

def fromEnv (glob : Glob) (publish subscribe : Option Text) : AclEngine :=
  addRules glob (addRules glob newEngine .publish (envPatterns publish)) .subscribe
    (envPatterns subscribe)

/-- An empty list of patterns allows everything. -/
def check (glob : Glob) (acl : AclEngine) (direction : AclDirection) (topic : Text) : Bool :=
  let patterns := match direction with
    | .publish => acl.allowPublish
    | .subscribe => acl.allowSubscribe
  patterns.isEmpty || patterns.any fun pattern => glob.isMatch pattern topic

/-- The flag that says whether the direction is permitted is not read. -/
def addAcl (glob : Glob) (acl : AclEngine) (direction : AclDirection) (pattern : Text)
    (_allowed : Bool) : Bool × AclEngine :=
  addRule glob acl direction pattern

def hexText (t : Nat) : Text := Nat.toDigits 16 t

/-- Internal topics of services are matched by the bare service name. -/
def bareLabel (name : Text) : Text :=
  ((name.dropPrefix? serviceRequestPrefix.toList).or
    (name.dropPrefix? serviceResponsePrefix.toList)).getD name

/-- The hash text is tried for every topic that its name does not allow. -/
def aclAllows (glob : Glob) (acl : AclEngine) (names : Nat → Option String)
    (direction : AclDirection) (t : Nat) : Bool :=
  (match names t with
    | some name => check glob acl direction (bareLabel name.toList)
    | none => false) ||
  check glob acl direction (hexText t)

structure Rule where
  direction : AclDirection
  pattern : Text
  allowed : Bool

def envRules (publish subscribe : Option Text) : List Rule :=
  (envPatterns publish).map (⟨.publish, ·, true⟩) ++
    (envPatterns subscribe).map (⟨.subscribe, ·, true⟩)

def publishRules (rules : List Rule) : List Rule :=
  rules.filter fun rule => decide (rule.direction = .publish)

def Rule.covers (glob : Glob) (rule : Rule) (name : Text) : Bool :=
  glob.valid rule.pattern && glob.isMatch rule.pattern name

/-- What the rules say about publishing under a name: without rules it is
unrestricted, and otherwise a rule must allow it and none may deny it. -/
def permits (glob : Glob) (rules : List Rule) (name : Text) : Bool :=
  (publishRules rules).isEmpty ||
    ((publishRules rules).any fun rule => rule.allowed && rule.covers glob name) &&
      (publishRules rules).all fun rule => rule.allowed || !rule.covers glob name

def nameOf (names : Nat → Option String) (t : Nat) : Text :=
  match names t with
  | some name => bareLabel name.toList
  | none => hexText t

/-- The engine holds every publish rule that was given, and each can be
enforced by an allow list. -/
structure Faithful (glob : Glob) (acl : AclEngine) (rules : List Rule) : Prop where
  patterns : acl.allowPublish = (publishRules rules).map Rule.pattern
  plain : ∀ rule ∈ publishRules rules, rule.allowed = true ∧ glob.valid rule.pattern = true

variable {glob : Glob} {acl : AclEngine} {rules : List Rule}

theorem check_faithful (h : Faithful glob acl rules) (name : Text) :
    check glob acl .publish name = permits glob rules name := by
  have hall : (publishRules rules).all (fun rule => rule.allowed || !rule.covers glob name) = true :=
    all_eq_true.mpr fun rule hr => by rw [(h.plain rule hr).1, Bool.true_or]
  have hany : ((publishRules rules).any fun rule => rule.allowed && rule.covers glob name) =
      ((publishRules rules).map Rule.pattern).any fun pattern => glob.isMatch pattern name := by
    rw [any_map, Bool.eq_iff_iff, any_eq_true, any_eq_true]
    refine exists_congr fun rule => and_congr_right fun hr => ?_
    obtain ⟨ha, hv⟩ := h.plain rule hr
    simp [Rule.covers, ha, hv]
  simp only [check, permits, h.patterns, hall, hany, Bool.and_true, isEmpty_map]

/-- No pattern reaches a topic by its hash text alone. -/
def HexNamed (glob : Glob) (rules : List Rule) (names : Nat → Option String) (t : Nat) : Prop :=
  ∀ rule ∈ publishRules rules, glob.isMatch rule.pattern (hexText t) = true →
    glob.isMatch rule.pattern (nameOf names t) = true

instance (glob : Glob) (rules : List Rule) (names : Nat → Option String) (t : Nat) :
    Decidable (HexNamed glob rules names t) :=
  inferInstanceAs (Decidable (∀ rule ∈ publishRules rules, _ → _))

variable {names : Nat → Option String}

theorem aclAllows_permits (h : Faithful glob acl rules) {t : Nat}
    (hx : HexNamed glob rules names t) (ha : aclAllows glob acl names .publish t = true) :
    permits glob rules (nameOf names t) = true := by
  rw [← check_faithful h]
  rw [aclAllows, Bool.or_eq_true] at ha
  rcases ha with ha | ha
  · unfold nameOf
    cases hn : names t with
    | none => simp [hn] at ha
    | some name => simpa [hn] using ha
  · simp only [check, Bool.or_eq_true, any_eq_true, h.patterns, mem_map] at ha ⊢
    refine ha.imp_right ?_
    rintro ⟨_, ⟨rule, hr, rfl⟩, hm⟩
    exact ⟨_, ⟨rule, hr, rfl⟩, hx rule hr hm⟩

theorem addRule_publish {pattern : Text} (hv : glob.valid pattern = true) :
    (addRule glob acl .publish pattern).2.allowPublish = acl.allowPublish ++ [pattern] := by
  simp [addRule, hv]

theorem addRule_subscribe (pattern : Text) :
    (addRule glob acl .subscribe pattern).2.allowPublish = acl.allowPublish := by
  unfold addRule
  split_ifs <;> rfl

theorem addAcl_faithful (h : Faithful glob acl rules) {direction : AclDirection} {pattern : Text}
    {allowed : Bool}
    (hplain : direction = .publish → allowed = true ∧ glob.valid pattern = true) :
    Faithful glob (addAcl glob acl direction pattern allowed).2
      (rules ++ [⟨direction, pattern, allowed⟩]) := by
  cases direction with
  | publish =>
    have hrules : publishRules (rules ++ [⟨.publish, pattern, allowed⟩]) =
        publishRules rules ++ [⟨.publish, pattern, allowed⟩] := by simp [publishRules]
    refine ⟨?_, ?_⟩
    · rw [addAcl, addRule_publish (hplain rfl).2, hrules, h.patterns, map_append]
      rfl
    rw [hrules]
    intro rule hr
    rcases mem_append.mp hr with hr | hr
    · exact h.plain rule hr
    · rw [mem_singleton.mp hr]
      exact hplain rfl
  | subscribe =>
    have hrules : publishRules (rules ++ [⟨.subscribe, pattern, allowed⟩]) = publishRules rules := by
      simp [publishRules]
    refine ⟨?_, hrules ▸ h.plain⟩
    rw [addAcl, addRule_subscribe, hrules, h.patterns]

variable {patterns : List Text}

theorem addRules_publish (hv : ∀ p ∈ patterns, glob.valid p = true) :
    (addRules glob acl .publish patterns).allowPublish = acl.allowPublish ++ patterns := by
  unfold addRules
  induction patterns generalizing acl with
  | nil => simp
  | cons pattern patterns ih =>
    rw [foldl_cons, ih fun p hp => hv p (mem_cons_of_mem _ hp),
      addRule_publish (hv pattern mem_cons_self), append_assoc]
    rfl

theorem addRules_subscribe (patterns : List Text) :
    (addRules glob acl .subscribe patterns).allowPublish = acl.allowPublish := by
  unfold addRules
  induction patterns generalizing acl with
  | nil => rfl
  | cons pattern patterns ih => rw [foldl_cons, ih, addRule_subscribe]

theorem publishRules_env (publish subscribe : Option Text) :
    publishRules (envRules publish subscribe) = (envPatterns publish).map (⟨.publish, ·, true⟩) := by
  simp [publishRules, envRules, filter_append, filter_map, comp_def]

variable {publish : Option Text}

theorem fromEnv_faithful (hv : ∀ p ∈ envPatterns publish, glob.valid p = true) (subscribe : Option Text) :
    Faithful glob (fromEnv glob publish subscribe) (envRules publish subscribe) := by
  constructor
  · rw [fromEnv, addRules_subscribe, addRules_publish hv, publishRules_env, map_map]
    simp [newEngine, comp_def]
  rw [publishRules_env]
  intro rule hr
  obtain ⟨p, hp, rfl⟩ := mem_map.mp hr
  exact ⟨rfl, hv p hp⟩

end RmwAxon.Acl
