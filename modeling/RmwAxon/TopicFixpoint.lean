import RmwAxon.TopologyFlag

namespace RmwAxon.TopicFixpoint

open Loops Matching MatchPass NodeTable TopicUpdates TopologyFlag List Option

variable {n : Nat} {base table table' u v : Table n} {i j x z : Fin n} {p : TopicEntry}

section Fresh

variable {ms ms' : List MatchEntry} {nodeId topicHash port : Nat} {addrs : List Addr}

theorem fresh_eq_nil : fresh ms nodeId topicHash port addrs = [] ↔
      ∀ addr ∈ addrs.take (min (min addrs.length maxQuicAddrs) (maxMatches - ms.length)),
        known ms ⟨nodeId, topicHash, port, addr⟩ = true := by
  rw [fresh, filter_eq_nil_iff, List.forall_mem_map]
  simp only [Bool.not_eq_true', Bool.not_eq_false]

/-- A longer list leaves less room, so fewer addresses are looked at, and knows
at least as many of them. -/
theorem fresh_nil_of_prefix (h : ms <+: ms')
    (hknown : ∀ addr ∈ addrs.take (min (min addrs.length maxQuicAddrs) (maxMatches - ms.length)),
      known ms' ⟨nodeId, topicHash, port, addr⟩ = true) :
    fresh ms' nodeId topicHash port addrs = [] := by
  have hle := h.length_le
  exact fresh_eq_nil.mpr fun addr haddr =>
    hknown addr (take_subset_take_left addrs (by omega) haddr)

theorem fresh_enlarge : fresh (enlarge ms nodeId topicHash port addrs) nodeId topicHash port addrs = [] := by
  exact fresh_nil_of_prefix prefix_enlarge fun addr haddr => known_enlarge haddr

end Fresh

theorem additions_eq (h : SameNodes base table) (x z : Fin n) (hash : Nat) : additions table x z hash =
      fresh (table x).remoteMatches (base z).nodeId hash (base z).quicPort (base z).quicAddrs := by
  rw [additions, (h z).nodeId, (h z).quicPort, (h z).quicAddrs]

theorem additions_nil_of_grows {hash : Nat} (h : SameNodes base u) (hg : Grows base u v)
    (hu : additions u x z hash = []) : additions v x z hash = [] := by
  rw [additions_eq h, fresh_eq_nil] at hu
  rw [additions_eq (hg h).nodes]
  have hfront := (hg h).lists x
  exact fresh_nil_of_prefix hfront fun addr haddr => known_of_subset hfront.subset (hu addr haddr)

/-- After the loops nothing is left to be added. -/
theorem matchTopics_settles (hm : matchTopics table = some table') : ¬ Unmatched table' := by
  have hnodes : SameNodes table table' :=
    (matchTopics_keeps (stable_true table) ⟨SameNodes.refl table, fun _ => trivial⟩ hm).nodes
  rintro ⟨i, j, hij, hi, hj, hd, p, hp, hadds⟩
  rw [adds, (hnodes j).subscribedTopics, Bool.and_eq_true] at hadds
  obtain ⟨hoff, hadds⟩ := hadds
  rw [(hnodes i).state] at hi
  rw [(hnodes j).state] at hj
  rw [(hnodes j).domainId, (hnodes i).domainId] at hd
  rw [(hnodes i).publishedTopics] at hp
  have hnone := matchTopics_each (D := fun u => SameNodes table u ∧
      additions u j i p.hash = [] ∧ additions u i j p.hash = []) hi hij hj hd hp hoff
    (fun u v hu hg => ⟨(hg hu.1).nodes, additions_nil_of_grows hu.1 hg hu.2.1,
      additions_nil_of_grows hu.1 hg hu.2.2⟩)
    (fun u u' hu hu' ho _ => by
      obtain ⟨hju, hiu⟩ := offerTopic_enlarges hij hoff hu ho
      rw [additions_eq hu', additions_eq hu', hju, hiu]
      exact ⟨hu', fresh_enlarge, fresh_enlarge⟩) (SameNodes.refl table) hm
  simp [hnone.2] at hadds

theorem stable_refers (table : Table n) (hids : ∀ k, (table k).state = .active → (table k).nodeId ≠ 0) :
    Stable table fun _ ms => ms.length ≤ maxMatches ∧ ∀ m ∈ ms, m.nodeId ∈ activeNodeIds table := by
  rintro x z t ms ho ⟨hlen, hrefs⟩
  refine ⟨length_enlarge_le hlen, fun m hm => ?_⟩
  rcases mem_enlarge hm with hm | ⟨addr, _, rfl⟩
  · exact hrefs m hm
  · exact mem_activeNodeIds.mpr ⟨z, ho.activeZ, hids z ho.activeZ, rfl⟩

theorem activeNodeIds_congr (h : SameNodes base table) : activeNodeIds table = activeNodeIds base := by
  have hstate : ∀ k, (table k).state = (base k).state := fun k => (h k).state
  have hid : ∀ k, (table k).nodeId = (base k).nodeId := fun k => (h k).nodeId
  simp only [activeNodeIds, hstate, hid]

theorem dropInactive_of_not_dangling (h : ¬ Dangling table) : dropInactive table = table := by
  rw [← any_drops, Bool.not_eq_true, List.any_eq_false] at h
  funext k
  have hk := h k (mem_finRange k)
  simp only [dropInactive]
  split_ifs with hskip
  · rfl
  · simp only [not_or, not_not] at hskip
    simp only [drops, hskip.1, decide_true, Bool.true_and, decide_eq_true_eq] at hk
    rw [compactMatches, if_neg hk]

theorem idle_pass {acc : Table n × Bool} (hmatched : ¬ Unmatched table) (hdangling : ¬ Dangling table)
    (h : processTopicUpdatesFlagged (table, false) = some acc) : acc = (table, false) := by
  have hflag : acc.2 = false := by
    rw [← Bool.not_eq_true, flag_iff h]
    simp [hmatched, hdangling]
  obtain ⟨loops, hloops, rfl⟩ := map_eq_some_iff.mp h
  obtain ⟨_, hsame⟩ := foldlM_flag (fun i _ _ _ hu => matchPublisherFlagged_adds hu) hloops
  have hstay : loops.1 = table := hsame (by rwa [← Bool.not_eq_true, any_publisherAdds])
  refine Prod.ext ?_ hflag
  rw [hstay]
  exact dropInactive_of_not_dangling hdangling

/-- A second pass finds nothing to do, with full lists too. -/
theorem second_pass_idle (hids : ∀ k, (table k).state = .active → (table k).nodeId ≠ 0)
    (hlen : ∀ k, (table k).remoteMatches.length ≤ maxMatches)
    (hrefs : ∀ k, ∀ m ∈ (table k).remoteMatches, m.nodeId ∈ activeNodeIds table)
    {flag : Bool} {acc : Table n × Bool} (h : processTopicUpdatesFlagged (table, flag) = some acc) :
    processTopicUpdatesFlagged (acc.1, false) = some (acc.1, false) := by
  have hpass : processTopicUpdates table = some acc.1 := by
    rw [← processTopicUpdatesFlagged_fst (table, flag), h]
    rfl
  obtain ⟨mid, hmid, hdrop⟩ := map_eq_some_iff.mp hpass
  have hkeeps := matchTopics_keeps (stable_refers table hids)
    ⟨SameNodes.refl table, fun k => ⟨hlen k, hrefs k⟩⟩ hmid
  have hdangling : ¬ Dangling mid := by
    rintro ⟨k, _, hlong | ⟨m, hm, hnot⟩⟩
    · exact absurd (hkeeps.lists k).1 (Nat.not_le.mpr hlong)
    · rw [activeNodeIds_congr hkeeps.nodes] at hnot
      exact hnot ((hkeeps.lists k).2 m hm)
  rw [← hdrop, dropInactive_of_not_dangling hdangling]
  -- whether a pass returns depends on the nodes alone
  have hreturns : (matchTopics mid).isSome = true := by
    rw [matchTopics_isSome hkeeps.nodes, ← matchTopics_isSome (SameNodes.refl table), hmid]
    rfl
  obtain ⟨mid', hmid'⟩ := isSome_iff_exists.mp hreturns
  have hagain : (processTopicUpdatesFlagged (mid, false)).map Prod.fst = some (dropInactive mid') := by
    rw [processTopicUpdatesFlagged_fst]
    exact processTopicUpdates_eq hmid'
  obtain ⟨acc', hacc', _⟩ := map_eq_some_iff.mp hagain
  rw [hacc', idle_pass (matchTopics_settles hmid) hdangling hacc']

theorem talker_and_listener_settle :
    ∃ acc, processTopicUpdatesFlagged (idleTalkerAndListener, false) = some acc ∧
      processTopicUpdatesFlagged (acc.1, false) = some (acc.1, false) := by
  have hrun : (processTopicUpdatesFlagged (idleTalkerAndListener, false)).isSome = true := by
    decide +kernel
  obtain ⟨acc, hacc⟩ := isSome_iff_exists.mp hrun
  exact ⟨acc, hacc, second_pass_idle (by decide +kernel) (by decide +kernel) (by decide +kernel) hacc⟩

end RmwAxon.TopicFixpoint
