import RmwAxon.MessageCache

namespace RmwAxon.MessageAbandon

open MessageCache MessageKeys Probing Function List

variable {n : Nat} {alive : Nat → Bool} {c : Cache n} {k : MessageKey} {pid : Nat} {i : Fin n}
  {e : QkdMessageEntry}

section Update

structure Fits (alive : Nat → Bool) (c : Cache n) (i : Fin n) (e : QkdMessageEntry) : Prop where
  settled : e.state ≠ .writing
  owned : e.state = .pending → writerGone alive e = false
  named : Cached e → ∃ k, Holds e k ∧ validateMessageKey k = .ok ()
  chained : Cached e → Unbroken (Vacant c) (home n e) i
  vacated : e.state = .empty → ∀ j, Cached (c.entries j) → ¬ Before (home n (c.entries j)) i j
  unique : ∀ j, j ≠ i → ∀ k, Holds e k → ¬ Holds (c.entries j) k

theorem sound_update (hc : Sound alive c) (he : Fits alive c i e) (generation : Nat) :
    Sound alive ⟨generation, update c.entries i e⟩ := by
  constructor
  case settled =>
    intro j
    by_cases hj : j = i
    · subst hj
      simpa using he.settled
    · simpa [hj] using hc.settled j
  case owned =>
    intro j
    by_cases hj : j = i
    · subst hj
      simpa using he.owned
    · simpa [hj] using hc.owned j
  case named =>
    intro j
    by_cases hj : j = i
    · subst hj
      simpa using he.named
    · simpa [hj] using hc.named j
  case chained =>
    intro j
    by_cases hj : j = i
    · subst hj
      simp only [update_self]
      refine fun hcached => (he.chained hcached).mono fun x hx hv => ?_
      simpa [Vacant, hx.ne] using hv
    · simp only [update_of_ne hj]
      refine fun hcached => (hc.chained j hcached).mono fun x hx hv => ?_
      by_cases hxi : x = i
      · subst hxi
        simp only [Vacant, update_self] at hv
        exact absurd hx (he.vacated hv j hcached)
      · simpa [Vacant, hxi] using hv
  case unique =>
    intro a b k ha hb
    by_cases hai : a = i
    · by_cases hbi : b = i
      · rw [hai, hbi]
      · subst hai
        simp only [update_self, update_of_ne hbi] at ha hb
        exact absurd hb (he.unique b hbi k ha)
    · by_cases hbi : b = i
      · subst hbi
        simp only [update_self, update_of_ne hai] at ha hb
        exact absurd ha (he.unique a hai k hb)
      · simp only [update_of_ne hai, update_of_ne hbi] at ha hb
        exact hc.unique a b k ha hb

def Live (alive : Nat → Bool) (pid : Nat) : Prop := pid ≠ 0 ∧ alive pid = true

theorem sound_taken (hc : Sound alive c) (hk : validateMessageKey k = .ok ()) (hpid : Live alive pid)
    (hnot : ¬ IsCached c k)
    (hunbroken : Unbroken (Vacant c) (homeOf n k) i) :
    Sound alive (initializeMessageEntry c i pid k) := by
  have hfits : Fits alive c i ⟨.pending, pid, (c.generation + 1) % 2 ^ 64, replicate qkdKeyBytes 0,
      k.keyId, k.senderSaeId⟩ := by
    have hholds : Holds ⟨.pending, pid, (c.generation + 1) % 2 ^ 64, replicate qkdKeyBytes 0,
        k.keyId, k.senderSaeId⟩ k := ⟨.inl rfl, rfl, rfl⟩
    refine ⟨by simp, ?_, fun _ => ⟨k, hholds, hk⟩, fun _ => hunbroken, by simp, ?_⟩
    · simp [writerGone, hpid.1, hpid.2]
    · exact fun j _ k' hk' hj => hnot ⟨j, hholds.eq hk' ▸ hj⟩
  exact sound_update hc hfits _

theorem sound_published (hc : Sound alive c) (hi : Cached (c.entries i)) (key : List UInt8) :
    Sound alive (setEntry c i { c.entries i with key := key, state := .ready }) := by
  have hfits : Fits alive c i { c.entries i with key := key, state := .ready } := by
    obtain ⟨k, hk, hvalid⟩ := hc.named i hi
    constructor
    · simp
    · simp
    · exact fun _ => ⟨k, ⟨.inr rfl, hk.2⟩, hvalid⟩
    · exact fun _ => hc.chained i hi
    · simp
    · exact fun j hj k hk hjk => hj (hc.unique j i k hjk ⟨hi, hk.2⟩)
  exact sound_update hc hfits _

def Behind (c : Cache n) (i j : Fin n) : Prop :=
  Cached (c.entries j) ∧ Before (home n (c.entries j)) i j
  deriving Decidable

theorem findMessageEntry_eq_some {expected : MessageState} (h : findMessageEntry c k expected = some i) :
    (c.entries i).state = expected ∧ messageEntryMatches (c.entries i) k = true := by
  have h := find?_some h
  rwa [Bool.and_eq_true, decide_eq_true_iff] at h

end Update

section Abandon

/-- No cached key is behind the slot that an abandoned request leaves. -/
def Harmless (c : Cache n) (k : MessageKey) : Prop :=
  ∀ i, findMessageEntry c k .pending = some i → ∀ j, ¬ Behind c i j

theorem sound_abandoned (hc : Sound alive c) (h : Harmless c k) : Sound alive (abandonMessageKey c k) := by
  rw [abandonMessageKey]
  cases hfind : findMessageEntry c k .pending with
  | none => exact hc
  | some i =>
    have hnot : ¬ Cached clearMessageEntry := by decide
    exact sound_update hc ⟨by decide, by simp [clearMessageEntry], fun h => absurd h hnot,
      fun h => absurd h hnot, fun _ j hj hb => h i hfind j ⟨hj, hb⟩, fun _ _ _ h => absurd h.1 hnot⟩ _

variable [NeZero n]

/-- The key of a slot behind one that was cleared is claimed once more. -/
theorem claim_behind (hc : Sound alive c) {j : Fin n} (hj : Behind c i j) (hk : Holds (c.entries j) k)
    (pid : Nat) : ∃ c', claimMessageKey alive (setEntry c i clearMessageEntry) pid k =
      some (.ok .claimed, c') := by
  have hvalid := hc.valid ⟨j, hk⟩
  have hij : j ≠ i := hj.2.ne.symm
  have hbefore : Before (homeOf n k) i j := hk.home_eq ▸ hj.2
  have hchain : Unbroken (Vacant c) (homeOf n k) j :=
    hk.home_eq ▸ hc.chained j hj.1
  have hsettled : ∀ x, ((setEntry c i clearMessageEntry).entries x).state ≠ .writing := by
    intro x
    by_cases hx : x = i
    · rw [hx, setEntry_self]
      decide
    · rw [setEntry_of_ne hx]
      exact hc.settled x
  have hpassed : Passed (setEntry c i clearMessageEntry) k (distance (homeOf n k) i) := by
    intro a ha
    have han : a < n := ha.trans (distance_lt _ i)
    generalize hx : (probe (homeOf n k) a : Fin n) = x
    have hdist : distance (homeOf n k) x = a := hx ▸ distance_probe han
    have hxi : x ≠ i := by
      rintro rfl
      omega
    have hxj : Before (homeOf n k) x j := by
      rw [Before, hdist]
      exact ha.trans hbefore
    rw [Vacant, setEntry_of_ne hxi]
    exact ⟨hchain x hxj, fun hx => hxj.ne (hc.unique x j k hx hk)⟩
  have hvacant : Vacant (setEntry c i clearMessageEntry) (probe (homeOf n k) (distance (homeOf n k) i)) := by
    rw [probe_distance, Vacant, setEntry_self]
    rfl
  have hscan := scan_vacant alive pid hsettled hvalid (Nat.zero_le _)
    (by rw [Nat.zero_add]; exact distance_lt _ i) hpassed hvacant none
  rw [← range_eq_range'] at hscan
  rw [claimMessageKey, hvalid]
  simp only [claimLoop, hscan]
  exact ⟨_, rfl⟩

/-- An abandoned request leaves every cached key to be found only if it is
harmless. -/
theorem abandon_harmless_iff (hc : Sound alive c) (k : MessageKey) :
    (∀ k', IsCached (abandonMessageKey c k) k' → ∀ pid c',
      claimMessageKey alive (abandonMessageKey c k) pid k' ≠ some (.ok .claimed, c')) ↔ Harmless c k := by
  constructor
  · intro h i hfind j hbehind
    obtain ⟨k', hk', -⟩ := hc.named j hbehind.1
    obtain ⟨c', hclaim⟩ := claim_behind hc hbehind hk' 0
    rw [abandonMessageKey, hfind] at h
    refine h k' ⟨j, ?_⟩ 0 c' hclaim
    rwa [setEntry_of_ne hbehind.2.ne.symm]
  · intro h k' hcached pid c' hclaim
    obtain ⟨r, hr, hne⟩ := claim_cached (sound_abandoned hc h) hcached pid
    rw [hr] at hclaim
    cases hclaim
    exact hne rfl

end Abandon

end RmwAxon.MessageAbandon
