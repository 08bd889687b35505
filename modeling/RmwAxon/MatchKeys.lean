import RmwAxon.DaemonRun

namespace RmwAxon.MatchKeys

open Matching MatchPass MergeRounds NodeTable PendingPass Function List
open PeerSync (PeerNodeInfo fillEntry)

variable {n : Nat} {base table table' : Table n}

def key (m : MatchEntry) : Nat × Nat × Addr := (m.nodeId, m.topicHash, m.addr)

def NodupKeys (ms : List MatchEntry) : Prop := (ms.map key).Nodup
  deriving Decidable

variable {ms : List MatchEntry} {m : MatchEntry} {addrs : List Addr} {nodeId topicHash port : Nat}

theorem NodupKeys.sublist {ms' : List MatchEntry} (h : NodupKeys ms) (hs : List.Sublist ms' ms) :
    NodupKeys ms' :=
  List.Nodup.sublist (hs.map key) h

theorem known_iff_key : known ms m = true ↔ key m ∈ ms.map key := by
  simp only [known_eq_true, mem_map, key, Prod.mk.injEq]

section

variable (h : NodupKeys ms)
include h

theorem NodupKeys.append (nodeId topicHash port : Nat) (haddrs : addrs.Nodup)
    (hnew : ∀ addr ∈ addrs, known ms ⟨nodeId, topicHash, port, addr⟩ = false) :
    NodupKeys (ms ++ addrs.map fun addr => ⟨nodeId, topicHash, port, addr⟩) := by
  rw [NodupKeys, map_append, map_map]
  refine List.Nodup.append h (haddrs.map fun a b hab => ?_) fun k hk hk' => ?_
  · simpa [key] using hab
  obtain ⟨addr, haddr, rfl⟩ := mem_map.mp hk'
  have hknown := known_iff_key.mpr hk
  rw [hnew addr haddr] at hknown
  cases hknown

theorem NodupKeys.enlarge (haddrs : addrs.Nodup) : NodupKeys (enlarge ms nodeId topicHash port addrs) := by
  rw [MatchPass.enlarge, fresh, filter_map]
  refine h.append _ _ _ ((haddrs.sublist (take_sublist ..)).filter _) fun addr haddr => ?_
  simpa using (mem_filter.mp haddr).2

theorem NodupKeys.pushUnlessKnown (m : MatchEntry) : NodupKeys (pushUnlessKnown ms m) := by
  unfold Matching.pushUnlessKnown
  split_ifs with hpush
  · simp only [Bool.and_eq_true, Bool.not_eq_true', decide_eq_true_eq] at hpush
    exact h.append m.nodeId m.topicHash m.port (nodup_singleton m.addr) (by simp [hpush.1])
  · exact h

theorem NodupKeys.pushMatchForAllAddrsDedup (nodeId topicHash port : Nat) (addrs : List Addr) :
    NodupKeys (pushMatchForAllAddrsDedup ms nodeId topicHash port addrs) :=
  foldlRecOn _ _ (motive := NodupKeys) h fun _ hms _ _ => hms.pushUnlessKnown _

theorem NodupKeys.pushMatchesForAllAddrs (port : Nat) (haddrs : addrs.Nodup)
    (hnew : ∀ m ∈ ms, m.nodeId = nodeId → m.topicHash ≠ topicHash) :
    NodupKeys (pushMatchesForAllAddrs ms nodeId topicHash port addrs) := by
  refine h.append _ _ _ (haddrs.sublist (take_sublist ..)) fun addr _ => ?_
  rw [Bool.eq_false_iff]
  intro hknown
  obtain ⟨m, hm, hid, hhash, _⟩ := known_eq_true.mp hknown
  exact hnew m hm hid hhash

end

theorem mem_pushMatchForAllAddrsDedup (h : m ∈ pushMatchForAllAddrsDedup ms nodeId topicHash port addrs) :
    m ∈ ms ∨ m.nodeId = nodeId := by
  refine foldlRecOn _ _ (motive := fun acc => m ∈ acc → m ∈ ms ∨ m.nodeId = nodeId) .inl
    (fun acc ih addr _ hm => ?_) h
  unfold pushUnlessKnown at hm
  split_ifs at hm
  · rcases mem_append.mp hm with hm | hm
    · exact ih hm
    · obtain rfl := mem_singleton.mp hm
      exact .inr rfl
  · exact ih hm

theorem mem_pushMatchesForAllAddrs (h : m ∈ pushMatchesForAllAddrs ms nodeId topicHash port addrs) :
    m ∈ ms ∨ m.nodeId = nodeId ∧ m.topicHash = topicHash := by
  rcases mem_append.mp h with h | h
  · exact .inl h
  · obtain ⟨addr, _, rfl⟩ := mem_map.mp h
    exact .inr ⟨rfl, rfl⟩

def DistinctIds (table : Table n) : Prop :=
  ∀ j k, isOccupied (table j) = true → isOccupied (table k) = true →
    (table j).nodeId = (table k).nodeId → j = k

structure TidyEntry (e : NodeTableEntry) : Prop where
  addrs : e.quicAddrs.Nodup
  hashes : (e.publishedTopics.map TopicEntry.hash).Nodup
  matchKeys : NodupKeys e.remoteMatches

structure Tidy (table : Table n) : Prop where
  ids : DistinctIds table
  entries : ∀ k, TidyEntry (table k)

section Collected

variable {i j : Fin n} {ms : List MatchEntry}

theorem topics_nodup {nodeId port : Nat} {addrs : List Addr} (haddrs : addrs.Nodup)
    {subs pubs : List TopicEntry} (hpubs : (pubs.map TopicEntry.hash).Nodup) (h : NodupKeys ms)
    (hnew : ∀ p ∈ pubs, ∀ m ∈ ms, m.nodeId = nodeId → m.topicHash ≠ p.hash) :
    NodupKeys (pubs.foldl (fun ms p =>
      if offered p subs then pushMatchesForAllAddrs ms nodeId p.hash port addrs else ms) ms) := by
  induction pubs generalizing ms with
  | nil => exact h
  | cons p pubs ih =>
    rw [map_cons, nodup_cons] at hpubs
    rw [foldl_cons]
    refine ih hpubs.2 ?_ ?_
    · split_ifs
      · exact h.pushMatchesForAllAddrs port haddrs (hnew p mem_cons_self)
      · exact h
    intro q hq m hm
    have hmem : m ∈ ms ∨ m.nodeId = nodeId ∧ m.topicHash = p.hash := by
      split_ifs at hm
      · exact mem_pushMatchesForAllAddrs hm
      · exact .inl hm
    rcases hmem with hm | ⟨_, hhash⟩
    · exact hnew q (mem_cons_of_mem p hq) m hm
    · intro _ hqp
      exact hpubs.1 (mem_map.mpr ⟨q, hq, hqp.symm.trans hhash⟩)

theorem collect_nodup (haddrs : (base j).quicAddrs.Nodup)
    (hhashes : ((base j).publishedTopics.map TopicEntry.hash).Nodup) (h : NodupKeys ms)
    (hnew : ∀ m ∈ ms, m.nodeId ≠ (base j).nodeId) : NodupKeys (collect base i ms j) := by
  unfold collect
  split_ifs
  · exact h
  refine foldlRecOn _ _ (motive := NodupKeys)
    (topics_nodup haddrs hhashes h fun _ _ m hm hid => absurd hid (hnew m hm))
    fun acc hacc p _ => ?_
  split_ifs
  · exact hacc.pushMatchForAllAddrsDedup ..
  · exact hacc

theorem mem_collect {m : MatchEntry} (h : m ∈ collect base i ms j) :
    m ∈ ms ∨ (base j).state = .active ∧ m.nodeId = (base j).nodeId := by
  unfold collect at h
  split_ifs at h with hskip
  · exact .inl h
  simp only [not_or, not_not] at hskip
  suffices hid : m ∈ ms ∨ m.nodeId = (base j).nodeId from hid.imp_right fun hid => ⟨hskip.2.1, hid⟩
  refine foldlRecOn _ _ (motive := fun acc => m ∈ acc → m ∈ ms ∨ m.nodeId = (base j).nodeId)
    (foldlRecOn _ _ (motive := fun acc => m ∈ acc → m ∈ ms ∨ m.nodeId = (base j).nodeId) .inl
      fun acc ih p _ hm => ?_) (fun acc ih p _ hm => ?_) h
  · split_ifs at hm
    · rcases mem_pushMatchesForAllAddrs hm with hm | ⟨hid, _⟩
      · exact ih hm
      · exact .inr hid
    · exact ih hm
  · split_ifs at hm
    · rcases mem_pushMatchForAllAddrsDedup hm with hm | hid
      · exact ih hm
      · exact .inr hid
    · exact ih hm

theorem collects_nodup (htidy : Tidy base) {js : List (Fin n)} (hjs : js.Nodup) (h : NodupKeys ms)
    (hnew : ∀ j ∈ js, (base j).state = .active → ∀ m ∈ ms, m.nodeId ≠ (base j).nodeId) :
    NodupKeys (js.foldl (collect base i) ms) := by
  induction js generalizing ms with
  | nil => exact h
  | cons j js ih =>
    rw [nodup_cons] at hjs
    rw [foldl_cons]
    refine ih hjs.2 ?_ fun k hk hactive m hm => ?_
    · by_cases hj : (base j).state = .active
      · exact collect_nodup (htidy.entries j).addrs (htidy.entries j).hashes h (hnew j mem_cons_self hj)
      · have hskip : collect base i ms j = ms := if_pos (.inr (.inl hj))
        rwa [hskip]
    · rcases mem_collect hm with hm | ⟨hj, hid⟩
      · exact hnew k (mem_cons_of_mem j hk) hactive m hm
      · rw [hid]
        intro heq
        have hjk := htidy.ids j k (by simp [isOccupied, hj]) (by simp [isOccupied, hactive]) heq
        exact hjs.1 (hjk ▸ hk)

theorem collected_nodup (htidy : Tidy base) (i : Fin n) : NodupKeys (collected base i) :=
  collects_nodup htidy (nodup_finRange n) nodup_nil (by simp)

end Collected

section

variable (h : DistinctIds table)
include h

theorem DistinctIds.of_fewer (hfewer : ∀ k, isOccupied (table' k) = true →
      isOccupied (table k) = true ∧ (table' k).nodeId = (table k).nodeId) : DistinctIds table' := by
  intro j k hj hk heq
  obtain ⟨hj', hidj⟩ := hfewer j hj
  obtain ⟨hk', hidk⟩ := hfewer k hk
  exact h j k hj' hk' (by rw [← hidj, ← hidk, heq])

theorem DistinctIds.sameNodes (hsame : SameNodes table table') : DistinctIds table' :=
  h.of_fewer fun k hk => ⟨by rwa [isOccupied, ← (hsame k).state], (hsame k).nodeId⟩

theorem DistinctIds.pruned {lost : MatchEntry → Prop} (hpruned : ∀ k, Pruned lost (table k) (table' k)) :
    DistinctIds table' :=
  h.sameNodes fun k => (hpruned k).same

theorem DistinctIds.update {k : Fin n} {e : NodeTableEntry}
    (hnew : ∀ j, isOccupied (table j) = true → (table j).nodeId = e.nodeId → j = k) :
    DistinctIds (Function.update table k e) := by
  intro i j hi hj heq
  rw [update_apply] at hi hj
  rw [update_apply, update_apply] at heq
  split_ifs at hi hj heq with hik hjk hjk
  · rw [hik, hjk]
  · rw [hik, hnew j hj heq.symm]
  · rw [hjk, hnew i hi heq]
  · exact h i j hi hj heq

end

section Merges

variable {gone : NodeTableEntry → Bool} {origin now : Nat} {node : PeerNodeInfo}
  {nodes : List PeerNodeInfo}

theorem DistinctIds.thinned (h : DistinctIds table) (ht : Thinned gone table table') :
    DistinctIds table' := by
  refine h.of_fewer fun k hk => ?_
  rcases ht k with ⟨_, e, hblank, hpruned⟩ | ⟨_, hpruned⟩
  · rw [hpruned.isOccupied, hblank.isOccupied] at hk
    cases hk
  · exact ⟨by rwa [← hpruned.isOccupied], hpruned.same.nodeId⟩

theorem DistinctIds.placed (hn : n ≤ maxNodes) (h : DistinctIds table) {idx : Fin n}
    (hp : Placed origin now node idx table table') : DistinctIds table' := by
  obtain ⟨r, e, start, hr, rfl, hslot⟩ := hp
  refine (h.pruned hr).update fun j hj hid => ?_
  rw [(hr j).isOccupied] at hj
  have hid' : (table j).nodeId = node.nodeId := by rw [← (hr j).same.nodeId, hid, fillEntry]
  rcases hslot with ⟨hocc, hidx, _⟩ | ⟨_, _, hnew⟩
  · exact h j idx hj hocc (hid'.trans hidx.symm)
  · exact absurd hid' (hnew j (Nat.lt_of_lt_of_le j.isLt hn) hj)

theorem DistinctIds.rounds (hn : n ≤ maxNodes) (hr : Rounds origin now nodes table table')
    (h : DistinctIds table) : DistinctIds table' := by
  induction hr with
  | nil => exact h
  | placed idx hp _ ih => exact ih (h.placed hn hp)
  | passed _ _ ih => exact ih h

theorem DistinctIds.merged (hn : n ≤ maxNodes) (h : DistinctIds table)
    (hm : Merged gone origin now nodes table table') : DistinctIds table' := by
  obtain ⟨t, hthin, hrounds⟩ := hm
  exact (h.thinned hthin).rounds hn hrounds

end Merges

end RmwAxon.MatchKeys
