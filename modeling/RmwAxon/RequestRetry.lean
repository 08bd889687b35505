import RmwAxon.NodeTable
import RmwAxon.ServiceCall
import Mathlib.Data.List.Nodup

namespace RmwAxon.RequestRetry

open NodeTable ServiceCall List
open RingBuffer (Bytes)

variable {n : Nat}

/-- The calls of a task with so many retries left, and what the last one returns.
What comes of the calls is given for all of them beforehand. -/
def callLoop : Nat → (Nat → Attempt) → Except String Bytes × List Attempt
  | 0, outcome => (serviceCall (outcome 0), [outcome 0])
  | left + 1, outcome =>
    if retried (outcome 0) then
      let rest := callLoop left fun k => outcome (k + 1)
      (rest.1, outcome 0 :: rest.2)
    else (serviceCall (outcome 0), [outcome 0])

def maxAttempts : Nat := 3

def calls (outcome : Nat → Attempt) : List Attempt := (callLoop (maxAttempts - 1) outcome).2

structure Routes where
  addrs : List Nat
  known : List (Nat × Nat)

def collectFoundPeers (r : Routes) : List Nat :=
  r.addrs.filterMap fun addr => (r.known.find? fun p => decide (p.2 = addr)).map Prod.fst

/-- Without a daemon every peer is taken to be on another host. -/
def crossHostPeers (table : Option (Table n)) (peers : List Nat) : List Nat :=
  table.elim peers fun table =>
    peers.filter fun p => (findSlotByNodeId table p).elim true fun j => decide ((table j).daemonOrigin ≠ 0)

/-- The peers of a request. If none is found the routes are seeded from the node
table and looked through again. -/
def requestPeers (r seeded : Routes) (table : Option (Table n)) : List Nat :=
  let found := collectFoundPeers r
  crossHostPeers table (if found.isEmpty then collectFoundPeers seeded else found)

def sendRequestWithGid (r seeded : Routes) (table : Option (Table n)) (outcome : Nat → Nat → Attempt) :
    List (Nat × List Attempt) :=
  (requestPeers r seeded table).zipIdx.map fun t => (t.1, calls (outcome t.2))

def sentTo (tasks : List (Nat × List Attempt)) (peer : Nat) : Nat :=
  ((tasks.filter fun task => decide (task.1 = peer)).flatMap Prod.snd).countP transmitted

/-- The call before any but the last one of a task cannot have delivered the request. -/
def RetriesUndelivered (attempts : List Attempt) : Prop := ∀ a ∈ attempts.dropLast, transmitted a = false

def Delivers (outcome : Nat → Attempt) : Prop :=
  ∃ k < maxAttempts, (∀ j < k, retried (outcome j) = true) ∧ transmitted (outcome k) = true

/-- As long as calls are left, no call whose request goes out fails with a retry
word in the text of the transport. -/
def NoLateRetry (outcome : Nat → Attempt) : Prop :=
  ∀ k, k + 1 < maxAttempts → (∀ j < k, retried (outcome j) = true) → transmitted (outcome k) = true →
    ∀ e ∈ lateText (outcome k), retryable e = false

section Loop

variable {outcome : Nat → Attempt} {left : Nat} {a : Attempt}

theorem callLoop_eq (left : Nat) (outcome : Nat → Attempt) :
    ∃ m ≤ left, (callLoop left outcome).2 = (range (m + 1)).map outcome ∧
      (∀ j < m, retried (outcome j) = true) ∧
      ∀ i ≤ left, (∀ j < i, retried (outcome j) = true) → i ≤ m := by
  induction left generalizing outcome with
  | zero => exact ⟨0, Nat.le_refl 0, rfl, by simp, fun i hi _ => hi⟩
  | succ left ih =>
    rw [callLoop]
    cases hretry : retried (outcome 0) with
    | false =>
      refine ⟨0, Nat.zero_le _, rfl, by simp, fun i _ hall => Nat.le_of_not_lt fun hi => ?_⟩
      rw [hall 0 hi] at hretry
      cases hretry
    | true =>
      obtain ⟨m, hm, heq, hall, hlast⟩ := ih fun k => outcome (k + 1)
      refine ⟨m + 1, Nat.succ_le_succ hm, ?_, fun j hj => ?_, fun i hi h => ?_⟩
      · rw [range_succ_eq_map, map_cons, map_map]
        exact congrArg (outcome 0 :: ·) heq
      · cases j with
        | zero => exact hretry
        | succ j => exact hall j (Nat.lt_of_succ_lt_succ hj)
      cases i with
      | zero => exact Nat.zero_le _
      | succ i =>
        exact Nat.succ_le_succ (hlast i (Nat.le_of_succ_le_succ hi) fun j hj =>
          h (j + 1) (Nat.succ_lt_succ hj))

theorem mem_callLoop :
    a ∈ (callLoop left outcome).2 ↔ ∃ i ≤ left, (∀ j < i, retried (outcome j) = true) ∧ a = outcome i := by
  obtain ⟨m, hm, heq, hall, hlast⟩ := callLoop_eq left outcome
  rw [heq, mem_map]
  constructor
  · rintro ⟨i, hi, rfl⟩
    have hi := mem_range.mp hi
    exact ⟨i, by omega, fun j hj => hall j (by omega), rfl⟩
  · rintro ⟨i, hi, h, rfl⟩
    exact ⟨i, mem_range.mpr (Nat.lt_succ_of_le (hlast i hi h)), rfl⟩

theorem mem_dropLast_callLoop : a ∈ (callLoop left outcome).2.dropLast ↔
      ∃ i < left, (∀ j < i + 1, retried (outcome j) = true) ∧ a = outcome i := by
  obtain ⟨m, hm, heq, hall, hlast⟩ := callLoop_eq left outcome
  rw [heq, range_succ, map_append, map_singleton, dropLast_concat, mem_map]
  constructor
  · rintro ⟨i, hi, rfl⟩
    have hi := mem_range.mp hi
    exact ⟨i, by omega, fun j hj => hall j (by omega), rfl⟩
  · rintro ⟨i, hi, h, rfl⟩
    exact ⟨i, mem_range.mpr (hlast (i + 1) hi h), rfl⟩

theorem noLateRetry_iff : NoLateRetry outcome ↔ RetriesUndelivered (calls outcome) := by
  constructor
  · intro h a ha
    obtain ⟨i, hi, hall, rfl⟩ := mem_dropLast_callLoop.mp ha
    by_contra hsent
    have hsent : transmitted (outcome i) = true := Bool.not_eq_false _ ▸ hsent
    have hretry := hall i (Nat.lt_succ_self i)
    rw [retried_of_transmitted hsent, Option.any_eq_true] at hretry
    obtain ⟨e, he, hword⟩ := hretry
    rw [h i (by omega) (fun j hj => hall j (Nat.lt_succ_of_lt hj)) hsent e he] at hword
    cases hword
  · intro h k hk hall hsent e he
    by_contra hword
    have hretry : retried (outcome k) = true := by
      rw [retried_of_transmitted hsent, Option.any_eq_true]
      exact ⟨e, he, Bool.not_eq_false _ ▸ hword⟩
    have hlast := h (outcome k) (mem_dropLast_callLoop.mpr ⟨k, Nat.lt_sub_of_add_lt hk, fun j hj => ?_, rfl⟩)
    · rw [hsent] at hlast
      cases hlast
    · rcases Nat.eq_or_lt_of_le (Nat.le_of_lt_succ hj) with rfl | hj
      · exact hretry
      · exact hall j hj

theorem delivers_iff : Delivers outcome ↔ 0 < (calls outcome).countP transmitted := by
  rw [countP_pos_iff]
  constructor
  · rintro ⟨k, hk, hall, hsent⟩
    exact ⟨outcome k, mem_callLoop.mpr ⟨k, Nat.le_sub_one_of_lt hk, hall, rfl⟩, hsent⟩
  · rintro ⟨a, ha, hsent⟩
    obtain ⟨k, hk, hall, rfl⟩ := mem_callLoop.mp ha
    exact ⟨k, Nat.lt_of_le_sub_one (by decide) hk, hall, hsent⟩

theorem RetriesUndelivered.countP_le {attempts : List Attempt} (h : RetriesUndelivered attempts) :
    attempts.countP transmitted ≤ 1 := by
  rcases eq_nil_or_concat attempts with rfl | ⟨front, a, rfl⟩
  · exact Nat.zero_le 1
  have hfront : front.countP transmitted = 0 := by
    rw [countP_eq_zero]
    intro b hb
    rw [h b (by simpa using hb)]
    decide
  rw [concat_eq_append, countP_append, hfront, Nat.zero_add]
  exact countP_le_length

end Loop

section Weights

variable {α : Type} (weight : α → Nat)

def total (l : List (Nat × α)) (key : Nat) : Nat :=
  ((l.filter fun t => decide (t.1 = key)).map fun t => weight t.2).sum

theorem total_cons (s : Nat × α) (l : List (Nat × α)) (key : Nat) :
    total weight (s :: l) key = (if s.1 = key then weight s.2 else 0) + total weight l key := by
  by_cases hkey : s.1 = key <;> simp [total, hkey]

theorem total_pos_iff {l : List (Nat × α)} {key : Nat} :
    0 < total weight l key ↔ ∃ t ∈ l, t.1 = key ∧ 0 < weight t.2 := by
  simp only [total, List.sum_pos_iff_exists_pos_nat, List.mem_map, mem_filter, decide_eq_true_eq]
  constructor
  · rintro ⟨_, ⟨t, ⟨ht, hkey⟩, rfl⟩, hpos⟩
    exact ⟨t, ht, hkey, hpos⟩
  · rintro ⟨t, ht, hkey, hpos⟩
    exact ⟨_, ⟨t, ⟨ht, hkey⟩, rfl⟩, hpos⟩

theorem total_le_one_iff {l : List (Nat × α)} : (∀ key, total weight l key ≤ 1) ↔
      (∀ t ∈ l, weight t.2 ≤ 1) ∧ l.Pairwise fun s t => s.1 = t.1 → ¬ (0 < weight s.2 ∧ 0 < weight t.2) := by
  induction l with
  | nil => simp [total]
  | cons s l ih =>
    rw [forall_mem_cons, pairwise_cons]
    constructor
    · intro h
      have hhead := h s.1
      rw [total_cons, if_pos rfl] at hhead
      obtain ⟨hle, hpair⟩ := ih.mp fun key => by
        have := h key
        rw [total_cons] at this
        omega
      refine ⟨⟨by omega, hle⟩, fun t ht hkey hpos => ?_, hpair⟩
      have := (total_pos_iff weight).mpr ⟨t, ht, hkey.symm, hpos.2⟩
      omega
    · rintro ⟨⟨hs, hle⟩, hhead, hpair⟩ key
      have htail := ih.mpr ⟨hle, hpair⟩ key
      rw [total_cons]
      split_ifs with hkey
      · by_cases hpos : 0 < weight s.2 ∧ 0 < total weight l key
        · obtain ⟨t, ht, htkey, htpos⟩ := (total_pos_iff weight).mp hpos.2
          exact absurd ⟨hpos.1, htpos⟩ (hhead t ht (hkey.trans htkey.symm))
        · omega
      · omega

end Weights

theorem sentTo_eq (tasks : List (Nat × List Attempt)) (peer : Nat) :
    sentTo tasks peer = total (fun attempts => attempts.countP transmitted) tasks peer := by
  rw [sentTo, countP_flatMap]
  rfl

/-- Each peer gets the whole request at most once, and no call is made after one
that may have delivered it, just if no such call fails with a retry word while
calls are left and no two routes of a peer both deliver. -/
theorem request_sent_once_iff (r seeded : Routes) (table : Option (Table n))
    (outcome : Nat → Nat → Attempt) :
    ((∀ peer, sentTo (sendRequestWithGid r seeded table outcome) peer ≤ 1) ∧
        ∀ task ∈ sendRequestWithGid r seeded table outcome, RetriesUndelivered task.2) ↔
      (∀ i < (requestPeers r seeded table).length, NoLateRetry (outcome i)) ∧
        (requestPeers r seeded table).zipIdx.Pairwise fun s t =>
          s.1 = t.1 → ¬ (Delivers (outcome s.2) ∧ Delivers (outcome t.2)) := by
  have htasks : (∀ task ∈ sendRequestWithGid r seeded table outcome, RetriesUndelivered task.2) ↔
      ∀ i < (requestPeers r seeded table).length, NoLateRetry (outcome i) := by
    simp only [sendRequestWithGid, List.forall_mem_map, noLateRetry_iff]
    constructor
    · intro h i hi
      exact h ((requestPeers r seeded table)[i], i) (mk_mem_zipIdx_iff_getElem?.mpr (getElem?_eq_getElem hi))
    · intro h t ht
      exact h t.2 (snd_lt_of_mem_zipIdx ht)
  have hpairs : (sendRequestWithGid r seeded table outcome).Pairwise (fun s t =>
      s.1 = t.1 → ¬ (0 < s.2.countP transmitted ∧ 0 < t.2.countP transmitted)) ↔
      (requestPeers r seeded table).zipIdx.Pairwise fun s t =>
        s.1 = t.1 → ¬ (Delivers (outcome s.2) ∧ Delivers (outcome t.2)) := by
    simp only [sendRequestWithGid, pairwise_map, delivers_iff]
  simp only [sentTo_eq, total_le_one_iff (fun attempts : List Attempt => attempts.countP transmitted)]
  rw [hpairs, htasks]
  constructor
  · rintro ⟨⟨_, hpair⟩, hlate⟩
    exact ⟨hlate, hpair⟩
  · rintro ⟨hlate, hpair⟩
    exact ⟨⟨fun task hmem => RetriesUndelivered.countP_le (htasks.mpr hlate task hmem), hpair⟩, hlate⟩

theorem collectFoundPeers_nodup {r : Routes} (haddrs : r.addrs.Nodup)
    (hknown : (r.known.map Prod.fst).Nodup) : (collectFoundPeers r).Nodup := by
  refine List.Nodup.filterMap (fun a a' peer ha ha' => ?_) haddrs
  have hentry : ∀ {addr}, peer ∈ (r.known.find? fun p => decide (p.2 = addr)).map Prod.fst →
      (peer, addr) ∈ r.known := by
    intro addr hmem
    obtain ⟨p, hfind, rfl⟩ := Option.map_eq_some_iff.mp hmem
    have haddr : p.2 = addr := by simpa using find?_some hfind
    exact haddr ▸ mem_of_find?_eq_some hfind
  have heq := inj_on_of_nodup_map hknown (hentry ha) (hentry ha') rfl
  exact congrArg Prod.snd heq

/-- When no address stands twice in the routes, each peer has one task. -/
theorem distinct_routes_one_task {r seeded : Routes} (table : Option (Table n))
    (outcome : Nat → Nat → Attempt)
    (h : ∀ routes ∈ [r, seeded], routes.addrs.Nodup ∧ (routes.known.map Prod.fst).Nodup) :
    (requestPeers r seeded table).zipIdx.Pairwise fun s t =>
      s.1 = t.1 → ¬ (Delivers (outcome s.2) ∧ Delivers (outcome t.2)) := by
  have hnodup : (requestPeers r seeded table).Nodup := by
    have hsub (peers : List Nat) : (crossHostPeers table peers).Sublist peers := by
      cases table with
      | none => exact List.Sublist.refl _
      | some table => exact filter_sublist
    refine List.Nodup.sublist (hsub _) ?_
    obtain ⟨haddrs, hknown⟩ := h r (by simp)
    obtain ⟨haddrs', hknown'⟩ := h seeded (by simp)
    split_ifs
    · exact collectFoundPeers_nodup haddrs' hknown'
    · exact collectFoundPeers_nodup haddrs hknown
  rw [← zipIdx_map_fst 0 (requestPeers r seeded table), List.Nodup, pairwise_map] at hnodup
  exact hnodup.imp fun hne heq => absurd heq hne

def answered : Attempt where
  candidates := [("10.0.0.2:7400", .opened)]
  found := false
  writeTopicHash := .done
  sealForDaemon := .ok []
  writeReqLen := .done
  writeReqData := .done
  finish := none
  readRespLen := .done
  readRespData := .done
  openWire := .ok []

/-- The connection breaks while the response is awaited, and is there again for the
next call. -/
def brokenOnce (_ k : Nat) : Attempt :=
  if k = 0 then { answered with readRespLen := .failed "connection lost" } else answered

theorem lost_connection_sends_twice :
    sentTo (sendRequestWithGid ⟨[80], [(5, 80)]⟩ ⟨[], []⟩ (none : Option (Table 1)) brokenOnce) 5 = 2 := by
  decide +kernel

end RmwAxon.RequestRetry
