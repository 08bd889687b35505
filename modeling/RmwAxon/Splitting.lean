import Mathlib.Data.List.Infix
import Mathlib.Data.List.DropRight
import Mathlib.Data.Nat.Find

namespace RmwAxon.Splitting

open List

variable {α : Type} {sep u v w : List α} {c : α}

theorem infix_across (hc : c ∉ sep) : sep <:+: u ++ c :: v ↔ sep <:+: u ∨ sep <:+: v := by
  rw [infix_append_iff_ne_nil, infix_cons_iff]
  have outside : ∀ {t : List α}, t ≠ [] → t <+: c :: v → c ∈ t := by
    intro t ht hp
    obtain ⟨d, t, rfl⟩ := exists_cons_of_ne_nil ht
    rw [(cons_prefix_cons.mp hp).1]
    exact mem_cons_self
  constructor
  · rintro (h | (h | h) | ⟨t, t', -, hne, rfl, -, hp⟩)
    · exact .inl h
    · by_cases hs : sep = []
      · subst hs
        exact .inl nil_infix
      · exact absurd (outside hs h) hc
    · exact .inr h
    · exact absurd (mem_append_right t (outside hne hp)) hc
  · rintro (h | h)
    · exact .inl h
    · exact .inr (.inl (.inr h))

theorem infix_after (hw : ∀ c ∈ w, c ∉ sep) : sep <:+: w ++ v ↔ sep <:+: v := by
  induction w with
  | nil => simp
  | cons c w ih =>
    have h := @infix_across _ sep [] (w ++ v) c (hw c (by simp))
    simp only [nil_append, infix_nil] at h
    rw [cons_append, h, ih fun d hd => hw d (by simp [hd])]
    constructor
    · rintro (rfl | h)
      · exact nil_infix
      · exact h
    · exact .inr

theorem infix_before (hw : ∀ c ∈ w, c ∉ sep) : sep <:+: u ++ w ↔ sep <:+: u := by
  rw [← reverse_infix, reverse_append, infix_after, reverse_infix]
  simpa using hw

theorem infix_around (hw : ∀ c ∈ w, c ∉ sep) (hne : w ≠ []) :
    sep <:+: u ++ (w ++ v) ↔ sep <:+: u ∨ sep <:+: v := by
  obtain ⟨c, w, rfl⟩ := exists_cons_of_ne_nil hne
  rw [cons_append, infix_across (hw c (by simp)), infix_after fun d hd => hw d (by simp [hd])]

structure Apart (sep u : List α) : Prop where
  absent : ¬ sep <:+: u
  last : ∀ c ∈ u.getLast?, c ∉ sep

theorem apart_of_disjoint (hs : sep ≠ []) (h : ∀ c ∈ u, c ∉ sep) : Apart sep u where
  absent hi := by
    obtain ⟨c, t, rfl⟩ := exists_cons_of_ne_nil hs
    exact h c (hi.subset (by simp)) (by simp)
  last c hc := h c (mem_of_getLast? hc)

variable [BEq α] [LawfulBEq α]

theorem dropInfix?_of_apart (h : Apart sep u) : (u ++ sep ++ v).dropInfix? sep = some (u, v) := by
  rw [dropInfix?_eq_some_iff]
  refine ⟨⟨sep, rfl, BEq.rfl⟩, ?_⟩
  intro p i s hp hi
  obtain rfl := eq_of_beq hi
  by_contra hlt
  rw [append_assoc, append_assoc, append_eq_append_iff] at hp
  -- an earlier occurrence leaves a rest of the front part, which it either covers or lies within
  obtain ⟨t, rfl, -⟩ | ⟨t, rfl, ht⟩ := hp
  · simp at hlt
  have hne : t ≠ [] := by
    rintro rfl
    simp at hlt
  obtain ⟨x, rfl, -⟩ | ⟨x, rfl, -⟩ := append_eq_append_iff.mp ht
  · exact h.absent (infix_append' p i x)
  · obtain ⟨y, c, rfl⟩ := eq_nil_or_concat t |>.resolve_left hne
    exact h.last c (by simp) (by simp)

theorem dropInfix?_eq_none : u.dropInfix? sep = none ↔ ¬ sep <:+: u := by
  classical
  constructor
  · rintro h ⟨p, s, hp⟩
    -- the shortest front part makes the search succeed
    have hex : ∃ n p s, p.length = n ∧ p ++ sep ++ s = u := ⟨_, p, s, rfl, hp⟩
    obtain ⟨p, s, hlen, hp⟩ := Nat.find_spec hex
    have hs : u.dropInfix? sep = some (p, s) := by
      rw [dropInfix?_eq_some_iff]
      refine ⟨⟨sep, hp.symm, BEq.rfl⟩, ?_⟩
      intro p' i s' hp' hi
      obtain rfl := eq_of_beq hi
      rw [hlen]
      exact Nat.find_min' hex ⟨p', s', rfl, hp'.symm⟩
    simp [h] at hs
  · intro h
    cases hd : u.dropInfix? sep with
    | none => rfl
    | some r =>
      obtain ⟨⟨i, hi, he⟩, -⟩ :=
        dropInfix?_eq_some_iff.mp (hd.trans (by rfl : some r = some (r.1, r.2)))
      obtain rfl := eq_of_beq he
      exact absurd ⟨r.1, r.2, hi.symm⟩ h

def cuts (sep : List α) : Nat → List α → List (List α)
  | 0, l => [l]
  | n + 1, l =>
    match l.dropInfix? sep with
    | none => [l]
    | some (p, s) => p :: cuts sep n s

def split (sep l : List α) : List (List α) := cuts sep l.length l

variable {ps : List (List α)}

theorem cuts_intercalate {n : Nat} (hne : ps ≠ []) (h : ∀ p ∈ ps, Apart sep p)
    (hn : ps.length ≤ n + 1) : cuts sep n (sep.intercalate ps) = ps := by
  induction ps generalizing n with
  | nil => exact absurd rfl hne
  | cons p ps ih =>
    cases ps with
    | nil =>
      rw [intercalate_singleton]
      cases n with
      | zero => rfl
      | succ n => rw [cuts, dropInfix?_eq_none.mpr (h p (by simp)).absent]
    | cons q qs =>
      obtain ⟨n, rfl⟩ : ∃ m, n = m + 1 := Nat.exists_eq_succ_of_ne_zero (by simp at hn; omega)
      rw [intercalate_cons_cons, cuts, dropInfix?_of_apart (h p (by simp))]
      simp only
      rw [ih (by simp) (fun r hr => h r (by simp [hr])) (by simpa using hn)]

omit [BEq α] [LawfulBEq α] in
theorem length_le_intercalate (hs : sep ≠ []) (ps : List (List α)) :
    ps.length ≤ (sep.intercalate ps).length + 1 := by
  have hpos := length_pos_of_ne_nil hs
  induction ps with
  | nil => simp
  | cons p ps ih =>
    cases ps with
    | nil => simp
    | cons q qs =>
      rw [intercalate_cons_cons]
      simp only [length_cons, length_append] at ih ⊢
      omega

theorem split_intercalate (hs : sep ≠ []) (hne : ps ≠ []) (h : ∀ p ∈ ps, Apart sep p) :
    split sep (sep.intercalate ps) = ps :=
  cuts_intercalate hne h (length_le_intercalate hs ps)

end RmwAxon.Splitting
