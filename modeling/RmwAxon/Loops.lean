import Mathlib.Data.List.Basic

namespace RmwAxon.Loops

open List

variable {α σ : Type}

section Fold

variable {f : σ → α → Option σ} {as : List α} {s t : σ}

theorem foldlM_cons_eq_some {a : α} :
    (a :: as).foldlM f s = some t ↔ ∃ u, f s a = some u ∧ as.foldlM f u = some t := by
  rw [foldlM_cons]
  exact Option.bind_eq_some_iff

theorem foldlM_invariant {I : σ → Prop} (hstep : ∀ a ∈ as, ∀ s s', I s → f s a = some s' → I s') (hs : I s)
    (h : as.foldlM f s = some t) : I t := by
  induction as generalizing s with
  | nil =>
    cases h
    exact hs
  | cons a as ih =>
    obtain ⟨u, hu, hrest⟩ := foldlM_cons_eq_some.mp h
    exact ih (fun b hb => hstep b (mem_cons_of_mem a hb)) (hstep a mem_cons_self s u hs hu) hrest

theorem foldlM_total {I : σ → Prop} (hstep : ∀ a ∈ as, ∀ s, I s → ∃ s', f s a = some s' ∧ I s') (hs : I s) :
    ∃ t, as.foldlM f s = some t ∧ I t := by
  induction as generalizing s with
  | nil => exact ⟨s, rfl, hs⟩
  | cons a as ih =>
    obtain ⟨u, hu, hi⟩ := hstep a mem_cons_self s hs
    obtain ⟨t, ht, hit⟩ := ih (fun b hb => hstep b (mem_cons_of_mem a hb)) hi
    exact ⟨t, foldlM_cons_eq_some.mpr ⟨u, hu, ht⟩, hit⟩

/-- Whether a loop returns is seen from its elements, if it is for each round. -/
theorem foldlM_isSome {I : σ → Prop} {c : α → Bool} (hround : ∀ a ∈ as, ∀ s, I s → (f s a).isSome = c a)
    (hstep : ∀ a ∈ as, ∀ s s', I s → f s a = some s' → I s') (hs : I s) :
    (as.foldlM f s).isSome = as.all c := by
  induction as generalizing s with
  | nil => rfl
  | cons a as ih =>
    rw [foldlM_cons, all_cons, ← hround a mem_cons_self s hs]
    cases hf : f s a with
    | none => rfl
    | some u =>
      exact ih (fun b hb => hround b (mem_cons_of_mem a hb))
        (fun b hb => hstep b (mem_cons_of_mem a hb)) (hstep a mem_cons_self s u hs hf)

variable {R : σ → σ → Prop} (hrefl : ∀ s, R s s) (htrans : ∀ s t u, R s t → R t u → R s u)

include hrefl htrans

variable (hstep : ∀ a ∈ as, ∀ s s', f s a = some s' → R s s')
include hstep

theorem foldlM_grows (h : as.foldlM f s = some t) : R s t :=
  foldlM_invariant (I := fun u => R s u)
    (fun a ha u u' hu hf => htrans _ _ _ hu (hstep a ha u u' hf)) (hrefl s) h

/-- What a round does for its element is there at the end of the loop. A round
may rely on what holds of every state between the start and the end. -/
theorem foldlM_each {D : σ → Prop} {a : α} (ha : a ∈ as) (hkeep : ∀ s s', D s → R s s' → D s')
    (hmark : ∀ u u', R s u → f u a = some u' → R u' t → D u') (h : as.foldlM f s = some t) : D t := by
  induction as generalizing s with
  | nil => cases ha
  | cons b as ih =>
    obtain ⟨u, hu, hrest⟩ := foldlM_cons_eq_some.mp h
    have hsu := hstep b mem_cons_self s u hu
    have hrest' := fun c hc => hstep c (mem_cons_of_mem b hc)
    rcases mem_cons.mp ha with rfl | ha
    · have hut := foldlM_grows hrefl htrans hrest' hrest
      exact hkeep u t (hmark s u (hrefl s) hu hut) hut
    · exact ih hrest' ha (fun v v' hv => hmark v v' (htrans _ _ _ hsu hv)) hrest

end Fold

/-- A loop with a flag that each round sets if it is about to change anything:
the flag tells whether a round would have changed the state at the start. -/
theorem foldlM_flag {f : σ × Bool → α → Option (σ × Bool)} {g : σ → α → Bool} {as : List α}
    (hstep : ∀ a ∈ as, ∀ acc acc', f acc a = some acc' →
      acc'.2 = (acc.2 || g acc.1 a) ∧ (g acc.1 a = false → acc'.1 = acc.1))
    {acc acc' : σ × Bool} (h : as.foldlM f acc = some acc') :
    acc'.2 = (acc.2 || as.any (g acc.1)) ∧ (as.any (g acc.1) = false → acc'.1 = acc.1) := by
  induction as generalizing acc with
  | nil =>
    cases h
    simp
  | cons a as ih =>
    obtain ⟨u, hu, hrest⟩ := foldlM_cons_eq_some.mp h
    obtain ⟨hflag, hsame⟩ := hstep a mem_cons_self acc u hu
    obtain ⟨hflag', hsame'⟩ := ih (fun b hb => hstep b (mem_cons_of_mem a hb)) hrest
    rw [any_cons, hflag', hflag]
    cases hg : g acc.1 a with
    | true => simp
    | false =>
      rw [hsame hg] at hsame' ⊢
      exact ⟨by simp, fun hany => hsame' (by simpa using hany)⟩

def sweepStep (keep : α → Bool) (s : Nat × List α) (read : Nat) : Nat × List α :=
  match s.2[read]? with
  | some x => if keep x then (s.1 + 1, s.2.set s.1 x) else s
  | none => s

def sweep (keep : α → Bool) (xs : List α) (limit : Nat) : Nat × List α :=
  (List.range limit).foldl (sweepStep keep) (0, xs)

/-- The elements read so far stand filtered at the front, and those still to
be read are in place. -/
structure Swept (keep : α → Bool) (xs : List α) (read : Nat) (s : Nat × List α) : Prop where
  front : s.2.take s.1 = (xs.take read).filter keep
  count : s.1 = ((xs.take read).filter keep).length
  rest : ∀ k, read ≤ k → s.2[k]? = xs[k]?

variable {keep : α → Bool} {xs : List α} {limit : Nat}

theorem Swept.written {read : Nat} {s : Nat × List α} (h : Swept keep xs read s) : s.1 ≤ read := by
  rw [h.count]
  exact Nat.le_trans (length_filter_le ..) (length_take_le ..)

theorem sweepStep_swept {read : Nat} {s : Nat × List α} (h : Swept keep xs read s)
    (hread : read < xs.length) :
    Swept keep xs (read + 1) (sweepStep keep s read) := by
  obtain ⟨w, ys⟩ := s
  have hy : ys[read]? = some xs[read] :=
    (h.rest read (Nat.le_refl read)).trans (getElem?_eq_getElem hread)
  have htake : xs.take (read + 1) = xs.take read ++ [xs[read]] :=
    take_succ_eq_append_getElem hread
  have hw : w < ys.length := Nat.lt_of_le_of_lt h.written (List.getElem?_eq_some_iff.mp hy).1
  simp only [sweepStep, hy]
  split_ifs with hk
  · refine ⟨?_, ?_, fun k hkr => ?_⟩
    · rw [htake, filter_append, ← h.front, take_succ_eq_append_getElem (by simpa using hw),
        take_set_of_le (Nat.le_refl w)]
      simp [hk]
    · rw [htake, filter_append, length_append, ← h.count]
      simp [hk]
    · rw [getElem?_set_ne (by have := h.written; simp only at this; omega)]
      exact h.rest k (by omega)
  · refine ⟨?_, ?_, fun k hkr => h.rest k (by omega)⟩
    · rw [htake, filter_append, ← h.front]
      simp [hk]
    · rw [htake, filter_append, length_append, ← h.count]
      simp [hk]

theorem sweep_swept (h : limit ≤ xs.length) : Swept keep xs limit (sweep keep xs limit) := by
  induction limit with
  | zero => exact ⟨by simp [sweep], by simp [sweep], fun _ _ => rfl⟩
  | succ limit ih =>
    rw [sweep, range_succ, foldl_append]
    exact sweepStep_swept (ih (by omega)) (by omega)

/-- A compaction in place filters. -/
theorem take_sweep (h : limit ≤ xs.length) :
    (sweep keep xs limit).2.take (sweep keep xs limit).1 = (xs.take limit).filter keep :=
  (sweep_swept h).front

theorem sweep_count (h : limit ≤ xs.length) :
    (sweep keep xs limit).1 = ((xs.take limit).filter keep).length :=
  (sweep_swept h).count

theorem filter_take {p : α → Bool} {l : List α} {r : Nat} (h : ∀ x ∈ l.drop r, p x = true) :
    (l.take r).filter p = (l.filter p).take (r - (l.filter fun x => !p x).length) := by
  have hdrop : (l.drop r).filter (fun x => !p x) = [] :=
    filter_eq_nil_iff.mpr fun x hx => by simp [h x hx]
  have hrest : l.filter (fun x => !p x) = (l.take r).filter fun x => !p x := by
    conv_lhs => rw [← take_append_drop r l]
    rw [filter_append, hdrop, append_nil]
  have hlen : ((l.take r).filter p).length + (l.filter fun x => !p x).length = min r l.length := by
    rw [hrest, ← length_take, ← length_eq_length_filter_add]
  have hfront : (l.take r).filter p <+: l.filter p := ( take_prefix r l).filter p
  rcases Nat.le_total r l.length with hle | hle
  · rw [prefix_iff_eq_take.mp hfront]
    congr 1
    omega
  · rw [take_of_length_le hle] at hlen ⊢
    exact (take_of_length_le (by omega)).symm

end RmwAxon.Loops
