import Mathlib.Data.List.Nodup
import RmwAxon.MessageAbandon
import RmwAxon.Transition

namespace RmwAxon.MessageKeyRun

open MessageAbandon MessageCache MessageKeys Transition List

variable {n : Nat} {alive : Nat → Bool}

structure State (n : Nat) where
  cache : Cache n
  requests : List (Nat × MessageKey)

inductive Call
  | claim (pid : Nat) (k : MessageKey)
  | publish (pid : Nat) (k : MessageKey) (key : List UInt8)
  | abandon (pid : Nat) (k : MessageKey)

def Call.pid : Call → Nat
  | claim pid _ => pid
  | publish pid _ _ => pid
  | abandon pid _ => pid

def start (n : Nat) : State n := ⟨emptyCache n, []⟩

/-- Whoever is told that the key is claimed asks for it, until it publishes the
key or gives up. -/
def step [NeZero n] (alive : Nat → Bool) (s : State n) : Call → Option (State n)
  | .claim pid k =>
    (claimMessageKey alive s.cache pid k).map fun p =>
      ⟨p.2, if p.1 = .ok .claimed then (pid, k) :: s.requests else s.requests⟩
  | .publish pid k key => some ⟨(publishMessageKey s.cache k key).2, s.requests.erase (pid, k)⟩
  | .abandon pid k => some ⟨abandonMessageKey s.cache k, s.requests.erase (pid, k)⟩

/-- A process that gives up leaves no hole before a cached key. -/
def HarmlessCall (s : State n) : Call → Prop
  | .abandon _ k => Harmless s.cache k
  | _ => True

def Orderly (s : State n) : Call → Prop
  | .claim _ _ => True
  | .publish pid k _ => (pid, k) ∈ s.requests
  | .abandon pid k => (pid, k) ∈ s.requests

def harmless (alive : Nat → Bool) (s : State n) (a : Call) : Prop := Live alive a.pid ∧ HarmlessCall s a

def orderly (alive : Nat → Bool) (s : State n) (a : Call) : Prop := harmless alive s a ∧ Orderly s a

section Publish

variable {c : Cache n} {k : MessageKey}

theorem Sound.publishMessageKey (hc : Sound alive c) (k : MessageKey) (key : List UInt8) :
    Sound alive (publishMessageKey c k key).2 := by
  rw [MessageKeys.publishMessageKey]
  cases hfind : findMessageEntry c k .pending with
  | none => exact hc
  | some i => exact sound_published hc (.inl (findMessageEntry_eq_some hfind).1) key

theorem ended_other {c : Cache n} {k : MessageKey} (hk : validateMessageKey k = .ok ()) (key : List UInt8)
    {j : Fin n} (hj : ¬ Holds (c.entries j) k) : (publishMessageKey c k key).2.entries j = c.entries j ∧
      (abandonMessageKey c k).entries j = c.entries j := by
  rw [publishMessageKey, abandonMessageKey]
  cases hfind : findMessageEntry c k .pending with
  | none => exact ⟨rfl, rfl⟩
  | some i =>
    have hne : j ≠ i := by
      rintro rfl
      obtain ⟨hs, hm⟩ := findMessageEntry_eq_some hfind
      exact hj ((matches_iff_holds hk (.inl hs)).mp hm)
    exact ⟨setEntry_of_ne hne c _, setEntry_of_ne hne c _⟩

end Publish

variable {s t : State n}

theorem step_sound [NeZero n] (hs : Sound alive s.cache) {a : Call} (ha : harmless alive s a)
    (h : step alive s a = some t) : Sound alive t.cache := by
  cases a with
  | claim pid k =>
    obtain ⟨p, hp, rfl⟩ := Option.map_eq_some_iff.mp h
    cases hk : validateMessageKey k with
    | error _ =>
      rw [claim_invalid hk] at hp
      cases hp
      exact hs
    | ok _ =>
      obtain ⟨r, c', hclaim, hr⟩ := claim_outcome hs hk pid
      rw [hclaim] at hp
      cases hp
      cases hr with
      | found | full => exact hs
      | taken i hnot _ hunbroken => exact sound_taken hs hk ha.1 hnot hunbroken
  | publish pid k key =>
    cases h
    exact Sound.publishMessageKey hs k key
  | abandon pid k =>
    cases h
    exact sound_abandoned hs ha.2

structure Requested (s : State n) : Prop where
  pending : ∀ p ∈ s.requests, ∃ i, (s.cache.entries i).state = .pending ∧ Holds (s.cache.entries i) p.2
  distinct : (s.requests.map Prod.snd).Nodup

theorem Requested.ended (h : Requested s) {pid : Nat} {k : MessageKey} (hmem : (pid, k) ∈ s.requests)
    {c : Cache n} (hc : ∀ j, ¬ Holds (s.cache.entries j) k → c.entries j = s.cache.entries j) :
    Requested ⟨c, s.requests.erase (pid, k)⟩ := by
  refine ⟨fun p hp => ?_, h.distinct.sublist (erase_sublist.map _)⟩
  obtain ⟨j, hstate, hholds⟩ := h.pending p (mem_of_mem_erase hp)
  have hne : p.2 ≠ k := by
    intro heq
    have hsame : p = (pid, k) := inj_on_of_nodup_map h.distinct (mem_of_mem_erase hp) hmem heq
    rw [hsame] at hp
    exact (List.Nodup.of_map Prod.snd h.distinct).not_mem_erase hp
  have hj : ¬ Holds (s.cache.entries j) k := fun hk => hne (hholds.eq hk)
  exact ⟨j, by rwa [hc j hj], by rwa [hc j hj]⟩

theorem step_requested [NeZero n] (hs : Sound alive s.cache) (hr : Requested s) {a : Call} (ha : Orderly s a)
    (h : step alive s a = some t) : Requested t := by
  have hvalid {pid : Nat} {k : MessageKey} (hmem : (pid, k) ∈ s.requests) :
      validateMessageKey k = .ok () := by
    obtain ⟨i, _, hi⟩ := hr.pending _ hmem
    exact hs.valid ⟨i, hi⟩
  cases a with
  | claim pid k =>
    obtain ⟨p, hp, rfl⟩ := Option.map_eq_some_iff.mp h
    cases hk : validateMessageKey k with
    | error _ =>
      rw [claim_invalid hk] at hp
      cases hp
      exact hr
    | ok _ =>
      obtain ⟨r, c', hclaim, hout⟩ := claim_outcome hs hk pid
      rw [hclaim] at hp
      cases hp
      cases hout with
      | found i _ _ hne =>
        rw [if_neg hne]
        exact hr
      | full e _ => exact hr
      | taken i hnot hstate _ =>
        rw [if_pos rfl]
        refine ⟨fun q hq => ?_, ?_⟩
        · rcases mem_cons.mp hq with rfl | hq
          · refine ⟨i, ?_⟩
            simp [initializeMessageEntry, Holds, Cached]
          · obtain ⟨j, hj, hholds⟩ := hr.pending q hq
            have hne : j ≠ i := by
              rintro rfl
              exact hstate hj
            refine ⟨j, ?_⟩
            simp only [initializeMessageEntry, Function.update_of_ne hne]
            exact ⟨hj, hholds⟩
        · rw [map_cons, nodup_cons]
          refine ⟨fun hmem => hnot ?_, hr.distinct⟩
          obtain ⟨q, hq, hqk⟩ := mem_map.mp hmem
          obtain ⟨j, _, hholds⟩ := hr.pending q hq
          exact ⟨j, (show q.2 = k from hqk) ▸ hholds⟩
  | publish pid k key =>
    cases h
    exact hr.ended ha fun j hj => (ended_other (hvalid ha) key hj).1
  | abandon pid k =>
    cases h
    exact hr.ended ha fun j hj => (ended_other (hvalid ha) [] hj).2

/-- A cached key is claimed by nobody, as long as no process that gives up leaves
a hole before it; and an abandoned request that does is all it takes. Where each
process ends its own requests only, each key is asked for by one at a time. -/
theorem cached_key_not_claimed [NeZero n] (alive : Nat → Bool) :
    (∀ s, Reach (step alive) (harmless alive) (start n) s →
      (∀ k, IsCached s.cache k → ∀ pid, ∃ r c',
        claimMessageKey alive s.cache pid k = some (r, c') ∧ r ≠ .ok .claimed) ∧
      ∀ k, (∀ k', IsCached (abandonMessageKey s.cache k) k' → ∀ pid c',
        claimMessageKey alive (abandonMessageKey s.cache k) pid k' ≠ some (.ok .claimed, c')) ↔
          Harmless s.cache k) ∧
    ∀ s, Reach (step alive) (orderly alive) (start n) s → (s.requests.map Prod.snd).Nodup := by
  have hstart : Sound alive (start n).cache := emptyCache_sound alive n
  constructor
  · intro s hreach
    have hs : Sound alive s.cache :=
      hreach.invariant (I := fun s => Sound alive s.cache) hstart fun s a t hs ha => step_sound hs ha
    refine ⟨fun k hk pid => ?_, fun k => abandon_harmless_iff hs k⟩
    obtain ⟨r, hclaim, hr⟩ := claim_cached hs hk pid
    exact ⟨r, s.cache, hclaim, hr⟩
  · intro s hreach
    have hs : Sound alive s.cache ∧ Requested s :=
      hreach.invariant (I := fun s => Sound alive s.cache ∧ Requested s)
        ⟨hstart, by simp [start], by simp [start]⟩
        fun s a t h ha hstep => ⟨step_sound h.1 ha.1 hstep, step_requested h.1 h.2 ha.2 hstep⟩
    exact hs.2.distinct

def firstKey : MessageKey := ⟨[65], [86, 86], by decide⟩

def secondKey : MessageKey := ⟨[65], [48, 49, 55], by decide⟩

def everyone : Nat → Bool := fun _ => true

theorem second_key_not_claimed_again :
    ∃ s : State maxQkdMessageKeys, Reach (step everyone) (harmless everyone) (start maxQkdMessageKeys) s ∧
      IsCached s.cache secondKey ∧ ∃ r c',
        claimMessageKey everyone s.cache 3 secondKey = some (r, c') ∧ r ≠ .ok .claimed := by
  obtain ⟨s, hrun, hcached⟩ := exists_of_any
    (o := run (step everyone) [.claim 1 firstKey, .claim 2 secondKey] (start maxQkdMessageKeys))
    (p := fun s => Holds (s.cache.entries 1) secondKey) (by decide +kernel)
  have hreach : Reach (step everyone) (harmless everyone) (start maxQkdMessageKeys) s := by
    refine reach_of_run hrun fun a ha s => ?_
    rcases mem_cons.mp ha with rfl | ha
    · exact ⟨⟨by decide, rfl⟩, trivial⟩
    · rw [mem_singleton.mp ha]
      exact ⟨⟨by decide, rfl⟩, trivial⟩
  exact ⟨s, hreach, ⟨1, hcached⟩, ((cached_key_not_claimed everyone).1 s hreach).1 secondKey ⟨1, hcached⟩ 3⟩

/-- The process that asked for the first key gives up. The second key is there,
behind the hole, and the next process is told to ask for it again. -/
theorem abandoned_hole_hides_key :
    ∃ s, run (step everyone)
        [.claim 1 firstKey, .claim 2 secondKey, .publish 2 secondKey (List.replicate qkdKeyBytes 7),
          .abandon 1 firstKey] (start maxQkdMessageKeys) = some s ∧
      IsCached s.cache secondKey ∧
      (claimMessageKey everyone s.cache 3 secondKey).map Prod.fst = some (.ok .claimed) := by
  obtain ⟨s, hrun, hcached, hclaim⟩ := exists_of_any (o := run (step everyone)
      [.claim 1 firstKey, .claim 2 secondKey, .publish 2 secondKey (replicate qkdKeyBytes 7),
        .abandon 1 firstKey] (start maxQkdMessageKeys))
    (p := fun s => Holds (s.cache.entries 1) secondKey ∧
      (claimMessageKey everyone s.cache 3 secondKey).map Prod.fst = some (.ok .claimed)) (by decide +kernel)
  exact ⟨s, hrun, ⟨1, hcached⟩, hclaim⟩

end RmwAxon.MessageKeyRun
