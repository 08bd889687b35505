import RmwAxon.MessageKeys

namespace RmwAxon.MessageCache

open MessageKeys Probing SyncWire List
open NodeTable (Text)

variable {n : Nat} {alive : Nat → Bool} {c : Cache n} {k : MessageKey} {pid : Nat} {i : Fin n}
  {e : QkdMessageEntry}

def Cached (e : QkdMessageEntry) : Prop := e.state = .pending ∨ e.state = .ready
  deriving Decidable

def Holds (e : QkdMessageEntry) (k : MessageKey) : Prop :=
  Cached e ∧ e.senderSaeId = k.senderSaeId ∧ e.keyId = k.keyId
  deriving Decidable

def IsCached (c : Cache n) (k : MessageKey) : Prop := ∃ i, Holds (c.entries i) k

def home (n : Nat) (e : QkdMessageEntry) : Nat := messageKeyHash e.senderSaeId e.keyId % n

abbrev homeOf (n : Nat) (k : MessageKey) : Nat := messageKeyHash k.senderSaeId k.keyId % n

def Vacant (c : Cache n) (j : Fin n) : Prop := (c.entries j).state = .empty

/-- Between calls no slot is half written, the slots that are pending have live
writers, and each cached key is found from its hash on, and only once. -/
structure Sound (alive : Nat → Bool) (c : Cache n) : Prop where
  settled : ∀ i, (c.entries i).state ≠ .writing
  owned : ∀ i, (c.entries i).state = .pending → writerGone alive (c.entries i) = false
  named : ∀ i, Cached (c.entries i) → ∃ k, Holds (c.entries i) k ∧ validateMessageKey k = .ok ()
  chained : ∀ i, Cached (c.entries i) → Unbroken (Vacant c) (home n (c.entries i)) i
  unique : ∀ i j k, Holds (c.entries i) k → Holds (c.entries j) k → i = j

theorem emptyCache_sound (alive : Nat → Bool) (n : Nat) : Sound alive (emptyCache n) where
  settled := by simp [emptyCache, clearMessageEntry]
  owned := by simp [emptyCache, clearMessageEntry]
  named := by simp [emptyCache, clearMessageEntry, Cached]
  chained := by simp [emptyCache, clearMessageEntry, Cached]
  unique := by simp [emptyCache, clearMessageEntry, Cached, Holds]

section Match

theorem validate_nonempty (h : validateMessageKey k = .ok ()) : k.senderSaeId ≠ [] ∧ k.keyId ≠ [] := by
  rw [validateMessageKey] at h
  cases hs : validateIdentifier "QKD sender SAE ID" k.senderSaeId maxSaeIdLen with
  | error _ =>
    rw [hs] at h
    cases h
  | ok _ =>
    rw [hs] at h
    exact ⟨(validateIdentifier_ok hs).1, (validateIdentifier_ok h).1⟩

theorem atomicString_eq_some {s t : Text} (ht : t ≠ []) (hu : validUtf8 t = true) :
    atomicString s = some t ↔ s = t := by
  constructor
  · exact fun h => (eq_of_atomicString h).symm
  · rintro rfl
    exact atomicString_self ht hu

theorem matches_iff_holds (hk : validateMessageKey k = .ok ()) (he : Cached e) :
    messageEntryMatches e k = true ↔ Holds e k := by
  obtain ⟨hs, hid⟩ := validate_nonempty hk
  rw [messageEntryMatches, Bool.and_eq_true, decide_eq_true_iff, decide_eq_true_iff,
    atomicString_eq_some hs k.utf8.1, atomicString_eq_some hid k.utf8.2, Holds, and_iff_right he]

theorem Holds.eq {k' : MessageKey} (h : Holds e k) (h' : Holds e k') : k = k' := by
  cases k
  cases k'
  obtain ⟨_, rfl, rfl⟩ := h
  obtain ⟨_, rfl, rfl⟩ := h'
  rfl

theorem Holds.home_eq (h : Holds e k) : home n e = homeOf n k := by
  rw [home, h.2.1, h.2.2]

theorem Sound.valid (hc : Sound alive c) (h : IsCached c k) : validateMessageKey k = .ok () := by
  obtain ⟨i, hi⟩ := h
  obtain ⟨k', hk', hvalid⟩ := hc.named i hi.1
  rwa [hi.eq hk']

end Match

theorem olderReady_ready {oldest : Option (Fin n × Nat)} {g : Nat}
    (h : ∀ p ∈ oldest, (c.entries p.1).state = .ready) (hi : (c.entries i).state = .ready) :
    ∀ p ∈ olderReady oldest i g, (c.entries p.1).state = .ready := by
  cases oldest with
  | none =>
    intro p hp
    cases hp
    exact hi
  | some q =>
    intro p hp
    simp only [olderReady] at hp
    split_ifs at hp
    · cases hp
      exact hi
    · cases hp
      exact h q rfl

section Scan

variable [NeZero n] (hc : Sound alive c) (hk : validateMessageKey k = .ok ())

inductive Outcome (c : Cache n) (pid : Nat) (k : MessageKey) : Scan n → Prop
  | found (i : Fin n) (r : Except String QkdMessageKeyLookup) : Holds (c.entries i) k →
      r ≠ .ok .claimed → Outcome c pid k (.done r c)
  | taken (i : Fin n) : ¬ IsCached c k → (c.entries i).state ≠ .pending →
      Unbroken (Vacant c) (messageKeyHash k.senderSaeId k.keyId % n) i →
      Outcome c pid k (.done (.ok .claimed) (initializeMessageEntry c i pid k))
  | full (e : String) : ¬ IsCached c k → Outcome c pid k (.done (.error e) c)

def Passed (c : Cache n) (k : MessageKey) (offset : Nat) : Prop :=
  ∀ a < offset, ¬ Vacant c (probe (messageKeyHash k.senderSaeId k.keyId % n) a) ∧
    ¬ Holds (c.entries (probe (messageKeyHash k.senderSaeId k.keyId % n) a)) k

theorem Passed.succ {offset : Nat} (h : Passed c k offset) (hv : ¬ Vacant c (probe (homeOf n k) offset))
    (hh : ¬ Holds (c.entries (probe (homeOf n k) offset)) k) :
    Passed c k (offset + 1) := by
  intro a ha
  rcases Nat.lt_succ_iff_lt_or_eq.mp ha with ha | rfl
  · exact h a ha
  · exact ⟨hv, hh⟩

theorem Passed.not_cached (h : Passed c k n) : ¬ IsCached c k := by
  rintro ⟨i, hi⟩
  refine (h _ (distance_lt (homeOf n k) i)).2 ?_
  rwa [probe_distance]

include hc in
theorem Passed.not_cached_of_vacant {offset : Nat} (h : Passed c k offset) (hoffset : offset < n)
    (hv : Vacant c (probe (homeOf n k) offset)) : ¬ IsCached c k := by
  rintro ⟨i, hi⟩
  have hchain := hc.chained i hi.1
  rw [hi.home_eq] at hchain
  rcases Nat.lt_or_eq_of_le (hchain.distance_le hoffset hv) with hlt | heq
  · refine (h _ hlt).2 ?_
    rwa [probe_distance]
  rw [← heq, probe_distance] at hv
  rcases hi.1 with hs | hs <;> exact absurd (hv.symm.trans hs) (by decide)

include hc hk

theorem scan_outcome (pid : Nat) {m offset : Nat} (hm : offset + m = n) (hpassed : Passed c k offset)
    (oldest : Option (Fin n × Nat)) (holdest : ∀ p ∈ oldest, (c.entries p.1).state = .ready) :
    Outcome c pid k (scan alive c pid k (List.range' offset m) oldest) := by
  -- Induction on the slots that are left; those before have been passed by.
  induction m generalizing offset oldest with
  | zero =>
    rw [Nat.add_zero] at hm
    subst hm
    cases oldest with
    | none => exact .full _ hpassed.not_cached
    | some p =>
      refine .taken p.1 hpassed.not_cached ?_ fun j _ => ?_
      · rw [holdest p rfl]
        decide
      · rw [← probe_distance (homeOf _ k) j]
        exact (hpassed _ (distance_lt _ j)).1
  | succ m ih =>
    have hoffset : offset < n := by omega
    rw [range'_succ, scan]
    generalize hi : (probe (homeOf n k) offset : Fin n) = i
    cases hs : (c.entries i).state with
    | writing => exact absurd hs (hc.settled i)
    | empty =>
      subst hi
      refine .taken _ (hpassed.not_cached_of_vacant hc hoffset hs) ?_
        (unbroken_probe (fun a ha => (hpassed a ha).1) hoffset)
      rw [hs]
      decide
    | pending =>
      have hcached : Cached (c.entries i) := .inl hs
      simp only
      split_ifs with hmatch hgone
      · rw [hc.owned i hs] at hgone
        cases hgone
      · exact .found i _ ((matches_iff_holds hk hcached).mp hmatch) (by simp)
      subst hi
      refine ih (by omega) (hpassed.succ ?_ ?_) oldest holdest
      · rw [Vacant, hs]
        decide
      · rwa [← matches_iff_holds hk hcached]
    | ready =>
      have hcached : Cached (c.entries i) := .inr hs
      simp only
      split_ifs with hmatch
      · refine .found i _ ((matches_iff_holds hk hcached).mp hmatch) ?_
        cases copyMessageKey (c.entries i) with
        | error | ok => simp [Except.map]
      subst hi
      refine ih (by omega) (hpassed.succ ?_ ?_) _ (olderReady_ready holdest hs)
      · rw [Vacant, hs]
        decide
      · rwa [← matches_iff_holds hk hcached]

omit hc hk in
theorem scan_vacant (alive : Nat → Bool) (pid : Nat) (hsettled : ∀ i, (c.entries i).state ≠ .writing)
    (hk : validateMessageKey k = .ok ()) {m offset d : Nat} (hle : offset ≤ d) (hd : d < offset + m)
    (hpassed : Passed c k d)
    (hv : Vacant c (probe (homeOf n k) d)) (oldest : Option (Fin n × Nat)) :
    scan alive c pid k (List.range' offset m) oldest = .done (.ok .claimed)
      (initializeMessageEntry c (probe (homeOf n k) d) pid k) := by
  induction m generalizing offset oldest with
  | zero => omega
  | succ m ih =>
    rw [range'_succ, scan]
    rcases Nat.lt_or_eq_of_le hle with hlt | rfl
    · obtain ⟨hvacant, hholds⟩ := hpassed offset hlt
      have hrest := ih hlt (by omega)
      generalize (probe (homeOf n k) offset : Fin n) = i at hvacant hholds
      cases hs : (c.entries i).state with
      | writing => exact absurd hs (hsettled i)
      | empty => exact absurd hs hvacant
      | pending =>
        rw [← matches_iff_holds hk (.inl hs)] at hholds
        simp only [if_neg hholds]
        exact hrest oldest
      | ready =>
        rw [← matches_iff_holds hk (.inr hs)] at hholds
        simp only [if_neg hholds]
        exact hrest _
    · rw [hv]

end Scan

section Claim

variable [NeZero n]

theorem claim_outcome (hc : Sound alive c) (hk : validateMessageKey k = .ok ()) (pid : Nat) :
    ∃ r c', claimMessageKey alive c pid k = some (r, c') ∧ Outcome c pid k (.done r c') := by
  have h := scan_outcome hc hk pid (Nat.zero_add n) (fun a ha => absurd ha (Nat.not_lt_zero a)) none (by simp)
  rw [← range_eq_range'] at h
  rw [claimMessageKey, hk]
  simp only [claimLoop]
  generalize scan alive c pid k (range n) none = x at h
  cases x with
  | again _ => cases h
  | done r c' => exact ⟨r, c', rfl, h⟩

theorem claim_invalid {error : String} (hk : validateMessageKey k = .error error) :
    claimMessageKey alive c pid k = some (.error error, c) := by
  rw [claimMessageKey, hk]

theorem claim_cached (hc : Sound alive c) (hcached : IsCached c k) (pid : Nat) :
    ∃ r, claimMessageKey alive c pid k = some (r, c) ∧ r ≠ .ok .claimed := by
  obtain ⟨r, c', hclaim, hr⟩ := claim_outcome hc (hc.valid hcached) pid
  cases hr with
  | found i _ _ hne => exact ⟨r, hclaim, hne⟩
  | taken i hnot => exact absurd hcached hnot
  | full e hnot => exact absurd hcached hnot

end Claim

theorem setEntry_self (c : Cache n) (i : Fin n) (e : QkdMessageEntry) : (setEntry c i e).entries i = e := by
  simp [setEntry]

theorem setEntry_of_ne {j : Fin n} (h : j ≠ i) (c : Cache n) (e : QkdMessageEntry) :
    (setEntry c i e).entries j = c.entries j := by
  simp [setEntry, h]

end RmwAxon.MessageCache
