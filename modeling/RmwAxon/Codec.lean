import Mathlib.Data.List.Basic

namespace RmwAxon.Codec

open List

variable {β ε α γ : Type}

/-- The reader takes exactly these symbols off the front, whatever follows, and
gives the value. -/
def Reads (r : StateT (List β) (Except ε) α) (w : List β) (a : α) : Prop :=
  ∀ rest, r.run (w ++ rest) = .ok (a, rest)

/-- What the reader accepts is what the writer would have written. -/
def Exact (r : StateT (List β) (Except ε) α) (w : α → List β) : Prop :=
  ∀ buf a rest, r.run buf = .ok (a, rest) → buf = w a ++ rest

theorem Reads.pure (a : α) : Reads (ε := ε) (β := β) (Pure.pure a) [] a := fun _ => rfl

theorem run_bind (r : StateT (List β) (Except ε) α) (f : α → StateT (List β) (Except ε) γ)
    (buf : List β) : (r >>= f).run buf = r.run buf >>= fun p => (f p.1).run p.2 := rfl

variable {r : StateT (List β) (Except ε) α} {c : γ} {buf rest : List β}
variable {f : α → StateT (List β) (Except ε) γ}

theorem Reads.bind {w w' : List β} {a : α} (hr : Reads r w a) (hf : Reads (f a) w' c) :
    Reads (r >>= f) (w ++ w') c := by
  intro rest
  rw [run_bind, append_assoc, hr]
  exact hf rest

theorem run_bind_ok : (r >>= f).run buf = .ok (c, rest) ↔
      ∃ a mid, r.run buf = .ok (a, mid) ∧ (f a).run mid = .ok (c, rest) := by
  rw [run_bind]
  constructor
  · intro h
    cases hr : r.run buf with
    | error e => rw [hr] at h; cases h
    | ok p =>
      rw [hr] at h
      exact ⟨p.1, p.2, rfl, h⟩
  · rintro ⟨a, mid, hr, hf⟩
    rw [hr]
    exact hf

theorem run_pure_ok {a c : α} :
    (Pure.pure a : StateT (List β) (Except ε) α).run buf = .ok (c, rest) ↔ a = c ∧ buf = rest := by
  constructor
  · intro h
    cases h
    exact ⟨rfl, rfl⟩
  · rintro ⟨rfl, rfl⟩
    rfl

def many (r : StateT (List β) (Except ε) α) : Nat → StateT (List β) (Except ε) (List α)
  | 0 => Pure.pure []
  | k + 1 => do
      let a ← r
      let as ← many r k
      Pure.pure (a :: as)

variable {as : List α}

theorem Reads.many {w : α → List β} (h : ∀ a ∈ as, Reads r (w a) a) :
    Reads (many r as.length) (as.flatMap w) as := by
  induction as with
  | nil => exact Reads.pure []
  | cons a as ih =>
    have hrest := ih fun b hb => h b (mem_cons_of_mem a hb)
    rw [flatMap_cons, ← append_nil (as.flatMap w)]
    have htail : Reads (Codec.many r as.length >>= fun as => Pure.pure (a :: as))
        (as.flatMap w ++ []) (a :: as) := hrest.bind (Reads.pure (a :: as))
    exact Reads.bind (f := fun a => Codec.many r as.length >>= fun as => Pure.pure (a :: as))
      (h a mem_cons_self) htail

theorem many_ok {k : Nat} (h : (many r k).run buf = .ok (as, rest)) : as.length = k := by
  induction k generalizing buf rest as with
  | zero =>
    obtain ⟨rfl, -⟩ := run_pure_ok.mp h
    rfl
  | succ k ih =>
    obtain ⟨a, mid, -, h⟩ := run_bind_ok.mp h
    obtain ⟨bs, mid', hbs, h⟩ := run_bind_ok.mp h
    obtain ⟨rfl, -⟩ := run_pure_ok.mp h
    rw [length_cons, ih hbs]

theorem Exact.many {w : α → List β} (h : Exact r w) (k : Nat) : Exact (many r k) (List.flatMap w) := by
  induction k with
  | zero =>
    intro buf as rest hrun
    obtain ⟨rfl, rfl⟩ := run_pure_ok.mp hrun
    rfl
  | succ k ih =>
    intro buf as rest hrun
    obtain ⟨a, mid, ha, hrun⟩ := run_bind_ok.mp hrun
    obtain ⟨bs, mid', hbs, hrun⟩ := run_bind_ok.mp hrun
    obtain ⟨rfl, rfl⟩ := run_pure_ok.mp hrun
    rw [h _ _ _ ha, ih _ _ _ hbs, flatMap_cons, append_assoc]

theorem run_map_ok {f : α → γ} :
    (f <$> r).run buf = .ok (c, rest) ↔ ∃ a, r.run buf = .ok (a, rest) ∧ f a = c := by
  rw [← bind_pure_comp, run_bind_ok]
  constructor
  · rintro ⟨a, mid, ha, hp⟩
    obtain ⟨hc, rfl⟩ := run_pure_ok.mp hp
    exact ⟨a, ha, hc⟩
  · rintro ⟨a, ha, rfl⟩
    exact ⟨a, rest, ha, run_pure_ok.mpr ⟨rfl, rfl⟩⟩

theorem many_map (r : StateT (List β) (Except ε) α) (f : α → γ) (k : Nat) :
    many (f <$> r) k = List.map f <$> many r k := by
  induction k with
  | zero => rfl
  | succ k ih => simp only [many, ih, bind_map_left, map_bind, map_pure, map_cons]

end RmwAxon.Codec
