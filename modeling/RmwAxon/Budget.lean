import RmwAxon.PublishPaths

namespace RmwAxon.Budget

open PublishPaths List

def newBucket (maxTokens start : Nat) : LeakyBucket := ⟨maxTokens, maxTokens, 0, start⟩

/-- Calls with the time and the size of each, one after another. -/
def after (b : LeakyBucket) (calls : List (Nat × Nat)) : LeakyBucket :=
  calls.foldl (fun b c => (b.trySend c.1 c.2).2) b

/-- The accepted ones, with their times in milliseconds. -/
def accepted (b : LeakyBucket) : List (Nat × Nat) → List (Nat × Nat)
  | [] => []
  | c :: calls =>
    if (b.trySend c.1 c.2).1 then (b.nowMs c.1, c.2) :: accepted (b.trySend c.1 c.2).2 calls
    else accepted b calls

variable {b : LeakyBucket} {now bytes : Nat} {calls : List (Nat × Nat)}

theorem trySend_cases (b : LeakyBucket) (now bytes : Nat) :
    b.trySend now bytes = (false, b) ∨ bytes ≤ b.refilled now ∧ b.trySend now bytes =
      (true, { b with tokens := b.refilled now - bytes, lastRefill := b.nowMs now }) := by
  rw [LeakyBucket.trySend]
  split_ifs with h
  · exact .inl rfl
  · exact .inr ⟨Nat.not_lt.mp h, rfl⟩

theorem refilled_le (b : LeakyBucket) (now : Nat) : b.refilled now ≤ b.maxTokens := Nat.min_le_right ..

theorem refilled_le_added (b : LeakyBucket) (now : Nat) :
    b.refilled now ≤ b.tokens + (b.nowMs now - b.lastRefill) * b.maxTokens / 1000 := by
  refine (Nat.min_le_left ..).trans ((Nat.min_le_left ..).trans (Nat.add_le_add_left ?_ _))
  split_ifs
  · exact Nat.div_le_div_right (Nat.min_le_left ..)
  · exact Nat.zero_le _

/-- The bucket of a run: it is never over its limit, and was refilled last before
the calls to come. -/
structure Ready (b : LeakyBucket) (calls : List (Nat × Nat)) : Prop where
  tokens : b.tokens ≤ b.maxTokens
  later : ∀ c ∈ calls, b.lastRefill ≤ b.nowMs c.1
  ordered : (calls.map Prod.fst).Pairwise (· ≤ ·)

theorem Ready.next {c : Nat × Nat} (h : Ready b (c :: calls)) : Ready (b.trySend c.1 c.2).2 calls := by
  obtain ⟨hfirst, hordered⟩ := pairwise_cons.mp h.ordered
  rcases trySend_cases b c.1 c.2 with he | ⟨_, he⟩
  · rw [he]
    exact ⟨h.tokens, fun c hc => h.later c (mem_cons_of_mem _ hc), hordered⟩
  · rw [he]
    refine ⟨(Nat.sub_le ..).trans (refilled_le b c.1), fun c' hc' => ?_, hordered⟩
    exact Nat.div_le_div_right (Nat.sub_le_sub_right (hfirst _ (mem_map_of_mem hc')) _)

theorem Ready.after {front : List (Nat × Nat)} (h : Ready b (front ++ calls)) :
    Ready (after b front) calls := by
  induction front generalizing b with
  | nil => exact h
  | cons c front ih => exact ih h.next

theorem accepted_le_refilled {t : Nat} (h : Ready b calls) (ht : ∀ c ∈ calls, b.nowMs c.1 ≤ t) :
    ((accepted b calls).map Prod.snd).sum ≤ b.tokens + (t - b.lastRefill) * b.maxTokens / 1000 := by
  induction calls generalizing b with
  | nil => exact Nat.zero_le _
  | cons c calls ih =>
    have hnext := h.next
    obtain ⟨hc, ht⟩ := forall_mem_cons.mp ht
    have hlast := h.later c mem_cons_self
    have hadded := refilled_le_added b c.1
    rw [accepted]
    rcases trySend_cases b c.1 c.2 with he | ⟨hle, he⟩
    · rw [he] at hnext ⊢
      exact ih hnext ht
    rw [he] at hnext ⊢
    have hrest := ih hnext ht
    have hsum := @Nat.div_add_div_le_add_div ((b.nowMs c.1 - b.lastRefill) * b.maxTokens)
      ((t - b.nowMs c.1) * b.maxTokens) 1000
    have hspan : b.nowMs c.1 - b.lastRefill + (t - b.nowMs c.1) = t - b.lastRefill := by omega
    rw [← Nat.add_mul, hspan] at hsum
    simp only [if_true, map_cons, sum_cons]
    dsimp only at hrest
    omega

/-- The first call that is accepted in the window finds at most a full bucket. -/
theorem accepted_in_window {t₁ t₂ : Nat} (h : Ready b calls)
    (ht : ∀ c ∈ calls, t₁ ≤ b.nowMs c.1 ∧ b.nowMs c.1 ≤ t₂) :
    ((accepted b calls).map Prod.snd).sum ≤ b.maxTokens + b.maxTokens * (t₂ - t₁) / 1000 := by
  induction calls generalizing b with
  | nil => exact Nat.zero_le _
  | cons c calls ih =>
    have hnext := h.next
    obtain ⟨hc, ht⟩ := forall_mem_cons.mp ht
    rw [accepted]
    rcases trySend_cases b c.1 c.2 with he | ⟨hle, he⟩
    · rw [he] at hnext ⊢
      exact ih hnext ht
    rw [he] at hnext ⊢
    have hrest := accepted_le_refilled hnext fun c hc => (ht c hc).2
    have hfull := refilled_le b c.1
    have hspan : (t₂ - b.nowMs c.1) * b.maxTokens / 1000 ≤ b.maxTokens * (t₂ - t₁) / 1000 := by
      rw [Nat.mul_comm]
      exact Nat.div_le_div_right (Nat.mul_le_mul_left _ (by omega))
    simp only [if_true, map_cons, sum_cons]
    dsimp only at hrest
    omega

theorem lastRefill_accepted (b : LeakyBucket) (calls : List (Nat × Nat)) :
    after b calls = b ∨ ∃ c ∈ accepted b calls, c.1 = (after b calls).lastRefill := by
  induction calls generalizing b with
  | nil => exact .inl rfl
  | cons c calls ih =>
    rw [after, foldl_cons, accepted, ← after]
    rcases trySend_cases b c.1 c.2 with he | ⟨_, he⟩
    · rw [he]
      exact ih b
    rw [he]
    rcases ih { b with tokens := b.refilled c.1 - c.2, lastRefill := b.nowMs c.1 } with hb | ⟨a, ha, hl⟩
    · exact .inr ⟨_, mem_cons_self, by rw [hb]⟩
    · exact .inr ⟨a, mem_cons_of_mem _ ha, hl⟩

theorem after_maxTokens (b : LeakyBucket) (calls : List (Nat × Nat)) :
    (after b calls).maxTokens = b.maxTokens := by
  induction calls generalizing b with
  | nil => rfl
  | cons c calls ih =>
    refine (ih _).trans ?_
    dsimp only
    rcases trySend_cases b c.1 c.2 with he | ⟨_, he⟩ <;> rw [he]

theorem trySend_full (hmax : b.maxTokens ≤ PublisherQos.usizeMax) (hbytes : bytes ≤ b.maxTokens)
    (h : b.maxTokens ≤ b.tokens ∨ b.lastRefill + 1000 ≤ b.nowMs now ∧ b.maxTokens * b.nowMs now < 2 ^ 64) :
    (b.trySend now bytes).1 = true := by
  have hfull : b.maxTokens ≤ b.refilled now := by
    refine Nat.le_min.mpr ⟨Nat.le_min.mpr ⟨?_, hmax⟩, Nat.le_refl _⟩
    rcases h with h | ⟨hpause, hsmall⟩
    · exact Nat.le_add_right_of_le h
    have hmul : (b.nowMs now - b.lastRefill) * b.maxTokens ≤ b.maxTokens * b.nowMs now := by
      rw [Nat.mul_comm]
      exact Nat.mul_le_mul_left _ (Nat.sub_le ..)
    have hadded : 1000 * b.maxTokens ≤ saturate ((b.nowMs now - b.lastRefill) * b.maxTokens) := by
      refine Nat.le_min.mpr ⟨Nat.mul_le_mul_right _ (by omega), ?_⟩
      exact (Nat.mul_le_mul_right _ (by omega)).trans (hmul.trans (Nat.le_sub_one_of_lt hsmall))
    rw [if_pos (by omega)]
    omega
  rw [LeakyBucket.trySend, if_neg (Nat.not_lt.mpr (hbytes.trans hfull))]

/-- The calls of a run up to some point, and those of a window behind it. -/
theorem budget_bounds {maxTokens start : Nat} (hmax : maxTokens ≤ PublisherQos.usizeMax)
    {front window : List (Nat × Nat)} (hordered : ((front ++ window).map Prod.fst).Pairwise (· ≤ ·))
    (hb : after (newBucket maxTokens start) front = b) :
    b.tokens ≤ maxTokens ∧ (∀ t₁ t₂, (∀ c ∈ window, t₁ ≤ b.nowMs c.1 ∧ b.nowMs c.1 ≤ t₂) →
        ((accepted b window).map Prod.snd).sum ≤ maxTokens + maxTokens * (t₂ - t₁) / 1000) ∧
      ∀ now bytes, bytes ≤ maxTokens → maxTokens * b.nowMs now < 2 ^ 64 →
        (∀ c ∈ accepted (newBucket maxTokens start) front, c.1 + 1000 ≤ b.nowMs now) →
        (b.trySend now bytes).1 = true := by
  have hready : Ready b window :=
    hb ▸ Ready.after ⟨Nat.le_refl _, fun _ _ => Nat.zero_le _, hordered⟩
  obtain rfl : b.maxTokens = maxTokens := hb ▸ after_maxTokens (newBucket maxTokens start) front
  refine ⟨hready.tokens, fun t₁ t₂ => accepted_in_window hready, fun now bytes hbytes hsmall hpause => ?_⟩
  refine trySend_full hmax hbytes ?_
  rcases lastRefill_accepted (newBucket b.maxTokens start) front with he | ⟨c, hc, hl⟩
  · rw [hb] at he
    exact .inl (Nat.le_of_eq (congrArg LeakyBucket.tokens he).symm)
  · rw [hb] at hl
    exact .inr ⟨hl ▸ hpause c hc, hsmall⟩

theorem second_later_accepted :
    let b := after (newBucket 10 0) [(0, 10)]
    let window := [(500000000, 3), (700000000, 9), (1000000000, 4)]
    ((accepted b window).map Prod.snd).sum ≤ 10 + 10 * (1000 - 500) / 1000 ∧
      (b.trySend 1000000000 10).1 = true :=
  have h := @budget_bounds _ 10 0 (by decide) [(0, 10)] [(500000000, 3), (700000000, 9), (1000000000, 4)]
    (by decide) rfl
  ⟨h.2.1 500 1000 (by decide), h.2.2 _ _ (by decide) (by decide) (by decide)⟩

end RmwAxon.Budget
