import RmwAxon.MatchKeys

namespace RmwAxon.UniqueMatches

open DaemonRun Loops MatchKeys Matching MatchPass MergeRounds NodeTable PendingPass Transition Function List
open PeerSync (PeerNodeInfo PeerTopicInfo fillEntry mergeRemoteNodes topicInfoToEntry)

variable {n : Nat} {base table table' : Table n}

def TidyNode (node : PeerNodeInfo) : Prop :=
  (node.quicAddrs.take maxQuicAddrs).Nodup ∧
    ((node.publishedTopics.take maxTopicsPerNode).map PeerTopicInfo.hash).Nodup

instance (node : PeerNodeInfo) : Decidable (TidyNode node) := inferInstanceAs (Decidable (_ ∧ _))

def tidyWrite (table : Table n) (k : Fin n) : Write → Prop
  | .register r => (∀ j, isOccupied (table j) = true → (table j).nodeId ≠ r.nodeId) ∧
      (r.quicAddrs.take maxQuicAddrs).Nodup
  | .advertisePublished t => (table k).publishedTopics.length < maxTopicsPerNode →
      t.hash ∉ (table k).publishedTopics.map TopicEntry.hash
  | .leave => isOccupied (table k) = true
  | _ => True

/-- Numbers are given to one session at a time, and what is advertised is
without repetition. -/
def tidy (table : Table n) : Event n → Prop
  | .session k w => tidyWrite table k w
  | .pass (.mergeRemote _ _ nodes) => ∀ node ∈ nodes, TidyNode node
  | .pass (.mergeInline _ _ nodes) => ∀ node ∈ nodes, TidyNode node
  | .pass _ => True

instance (table : Table n) (k : Fin n) (w : Write) : Decidable (tidyWrite table k w) :=
  match w with
  | .register _ | .advertisePublished _ | .advertiseSubscribed _ | .setNodeName .. | .leave => by
    dsimp only [tidyWrite]
    infer_instance

instance (table : Table n) (a : Event n) : Decidable (tidy table a) := by
  unfold tidy
  split <;> infer_instance

variable {e e' : NodeTableEntry}

theorem tidyEntry_blank (h : Blank e) : TidyEntry e := by
  obtain ⟨port, start, rfl⟩ := h
  exact ⟨nodup_nil, nodup_nil, nodup_nil⟩

theorem tidyEntry_congr (h : TidyEntry e) (hsame : SameNode e e')
    (hkeys : NodupKeys e'.remoteMatches) : TidyEntry e' where
  addrs := hsame.quicAddrs ▸ h.addrs
  hashes := hsame.publishedTopics ▸ h.hashes
  matchKeys := hkeys

variable {lost : MatchEntry → Prop}

theorem tidyEntry_pruned (hp : Pruned lost e e') (h : TidyEntry e) : TidyEntry e' :=
  tidyEntry_congr h hp.same (h.matchKeys.sublist hp.fewer)

variable {nodes : List PeerNodeInfo}

theorem tidyEntry_lasting (hnodes : ∀ node ∈ nodes, TidyNode node) : Lasting nodes TidyEntry where
  blank := fun _ => tidyEntry_blank
  pruned := fun _ _ _ => tidyEntry_pruned
  filled := by
    intro origin now node hnode e start h
    refine ⟨(hnodes node hnode).1, ?_, h.matchKeys⟩
    have hhash : TopicEntry.hash ∘ topicInfoToEntry = PeerTopicInfo.hash := rfl
    simp only [fillEntry, map_map, hhash]
    exact (hnodes node hnode).2

variable {i k : Fin n}

theorem tidy_rewrite (h : Tidy table)
    (hocc : isOccupied e = true → isOccupied (table k) = true) (hid : e.nodeId = (table k).nodeId)
    (he : TidyEntry e) : Tidy (update table k e) := by
  refine ⟨h.ids.of_fewer fun j => ?_,
    (forall_update_iff table fun _ => TidyEntry).mpr ⟨he, fun j _ => h.entries j⟩⟩
  rw [update_apply]
  split_ifs with hj
  · exact fun hoc => ⟨hj ▸ hocc hoc, hj ▸ hid⟩
  · exact fun hoc => ⟨hoc, rfl⟩

theorem advertise_nodup {topics : List TopicEntry} (h : (topics.map TopicEntry.hash).Nodup)
    {t : TopicEntry} (ht : topics.length < maxTopicsPerNode → t.hash ∉ topics.map TopicEntry.hash) :
    ((advertise topics t).map TopicEntry.hash).Nodup := by
  unfold advertise
  split_ifs with hroom
  · rw [map_append, map_singleton, ← concat_eq_append]
    exact h.concat (ht hroom)
  · exact h

theorem write_tidy (h : Tidy table) {w : Write} (hw : tidyWrite table k w) (he : write (table k) w = some e) :
    Tidy (update table k e) := by
  have hentry := h.entries k
  cases w with
  | register r =>
    simp only [write] at he
    split_ifs at he
    cases he
    exact ⟨h.ids.update fun j hj hid => absurd hid (hw.1 j hj),
      (forall_update_iff table fun _ => TidyEntry).mpr ⟨⟨hw.2, nodup_nil, nodup_nil⟩, fun j _ => h.entries j⟩⟩
  | advertisePublished t =>
    cases he
    exact tidy_rewrite h id rfl ⟨hentry.addrs, advertise_nodup hentry.hashes hw, hentry.matchKeys⟩
  | advertiseSubscribed | setNodeName =>
    cases he
    exact tidy_rewrite h id rfl ⟨hentry.addrs, hentry.hashes, hentry.matchKeys⟩
  | leave =>
    cases he
    exact tidy_rewrite h (fun _ => hw) rfl ⟨hentry.addrs, hentry.hashes, hentry.matchKeys⟩

theorem stable_nodupKeys (h : ∀ k, (base k).quicAddrs.Nodup) : Stable base fun _ => NodupKeys :=
  fun _ z _ _ _ hms => hms.enlarge (h z)

theorem tidy_pruned (h : Tidy table) (hpruned : ∀ k, Pruned lost (table k) (table' k)) : Tidy table' :=
  ⟨h.ids.pruned hpruned, fun k => tidyEntry_pruned (hpruned k) (h.entries k)⟩

theorem tidy_keeps (h : Tidy base) (hk : Keeps base (fun _ => NodupKeys) table) : Tidy table :=
  ⟨h.ids.sameNodes hk.nodes, fun k => tidyEntry_congr (h.entries k) (hk.nodes k) (hk.lists k)⟩

theorem activated_tidy (h : Tidy table) (hi : (table i).state = .pending) : Tidy (activated table i) :=
  tidy_rewrite h (fun _ => by simp [isOccupied, hi]) rfl
    ⟨(h.entries i).addrs, (h.entries i).hashes, (h.entries i).matchKeys⟩

theorem processPendingRegistration_tidy (h : Tidy table)
    (hp : processPendingRegistration table i = some table') : Tidy table' := by
  by_cases hpend : (table i).state = .pending
  · have hact := activated_tidy h hpend
    obtain ⟨r, hr, rfl⟩ := processPendingRegistration_keeps
      (stable_nodupKeys fun k => (hact.entries k).addrs) (fun x => (h.entries x).matchKeys) hpend hp
    have hrest := tidy_keeps hact hr
    refine tidy_rewrite hrest id rfl (tidyEntry_congr (hrest.entries i) rfl ?_)
    exact (collected_nodup hact i).sublist filter_sublist
  · simp only [processPendingRegistration, hpend, if_false, Option.some.injEq] at hp
    exact hp ▸ h

theorem processDepartedNodes_tidy (alive : Nat → Nat → Bool) (now : Nat) (h : Tidy table) :
    Tidy (processDepartedNodes alive now table) := by
  refine ⟨h.ids.of_fewer fun k hk => ?_, fun k => ?_⟩
  · obtain ⟨_, ⟨e, hblank, hpruned⟩ | ⟨seen, hpruned⟩⟩ := processDepartedNodes_cases table k
    · rw [hpruned.isOccupied, hblank.isOccupied] at hk
      cases hk
    · exact ⟨by rwa [hpruned.isOccupied] at hk, hpruned.same.nodeId⟩
  · obtain ⟨_, ⟨e, hblank, hpruned⟩ | ⟨seen, hpruned⟩⟩ := processDepartedNodes_cases table k
    · exact tidyEntry_pruned hpruned (tidyEntry_blank hblank)
    · exact tidyEntry_pruned hpruned ⟨(h.entries k).addrs, (h.entries k).hashes, (h.entries k).matchKeys⟩

theorem merged_tidy (hn : n ≤ maxNodes) (h : Tidy table) {gone : NodeTableEntry → Bool}
    {origin now : Nat} (hnodes : ∀ node ∈ nodes, TidyNode node)
    (hm : Merged gone origin now nodes table table') : Tidy table' :=
  ⟨h.ids.merged hn hm, hm.lasting (tidyEntry_lasting hnodes) h.entries⟩

theorem runPass_tidy (hn : n ≤ maxNodes) (h : Tidy table) {p : Pass} (hok : tidy table (.pass p))
    (hp : runPass table p = some table') : Tidy table' := by
  cases p with
  | pendingRegistrations => exact foldlM_invariant (fun _ _ _ _ ht => processPendingRegistration_tidy ht) h hp
  | topicUpdates =>
    obtain ⟨mid, _, hmid, hpruned⟩ := processTopicUpdates_keeps
      (stable_nodupKeys fun k => (h.entries k).addrs) (fun x => (h.entries x).matchKeys) hp
    exact tidy_pruned (tidy_keeps h hmid) hpruned
  | departedNodes alive now =>
    cases hp
    exact processDepartedNodes_tidy alive now h
  | removeMatches deadNodeId =>
    cases hp
    exact tidy_pruned h (daemon_removeMatches_pruned table deadNodeId)
  | mergeRemote origin now nodes =>
    cases hp
    by_cases horigin : origin = 0
    · rwa [mergeRemoteNodes, if_pos horigin]
    · exact merged_tidy hn h hok (mergeRemoteNodes_merged horigin nodes table)
  | mergeInline origin now nodes =>
    cases hp
    exact merged_tidy hn h hok (inlineMerge_merged nodes table)

theorem step_tidy (hn : n ≤ maxNodes) (h : Tidy table) {a : Event n} (hok : tidy table a)
    (ha : step table a = some table') : Tidy table' := by
  cases a with
  | session k w =>
    obtain ⟨e, he, rfl⟩ := Option.map_eq_some_iff.mp ha
    exact write_tidy h hok he
  | pass p => exact runPass_tidy hn h hok ha

/-- In every run of such events no list has two matches with the same node,
topic and address. -/
theorem tidy_run_unique_matches (hn : n ≤ maxNodes) {table : Table n}
    (h : Reach step tidy (emptyTable n) table) : ∀ k, NodupKeys (table k).remoteMatches := by
  have htidy := h.invariant (I := Tidy)
    ⟨fun _ _ hj => absurd hj (by simp [isOccupied, emptyTable, zeroEntry]),
      fun _ => tidyEntry_blank ⟨0, 0, rfl⟩⟩
    fun _ _ _ ht hok => step_tidy hn ht hok
  exact fun k => (htidy.entries k).matchKeys

def talkerThenListener (published : List TopicEntry) (i j : Fin n) : List (Event n) :=
  [.session i (.register ⟨1, 0, 7, 0, 7001, [(10, 0, 0, 1)], 5⟩)] ++
    published.map (fun t => .session i (.advertisePublished t)) ++
    [.pass .pendingRegistrations, .session j (.register ⟨2, 0, 8, 0, 7002, [(10, 0, 0, 2)], 5⟩),
      .session j (.advertiseSubscribed (plainTopic 7)), .pass .pendingRegistrations]

theorem listener_matched_once :
    2 ≤ maxNodes ∧ ∃ (i j : Fin 2) (table : Table 2),
      guardedRun step tidy (talkerThenListener [plainTopic 7] i j) (emptyTable 2) = some table ∧
      (table j).remoteMatches = [⟨1, 7, 7001, (10, 0, 0, 1)⟩] ∧
      ∀ k, NodupKeys (table k).remoteMatches := by
  have hrun : ∃ i j : Fin 2,
      ((guardedRun step tidy (talkerThenListener [plainTopic 7] i j) (emptyTable 2)).any fun t : Table 2 =>
        decide ((t j).remoteMatches = [⟨1, 7, 7001, (10, 0, 0, 1)⟩])) = true := by decide +kernel
  obtain ⟨i, j, hij⟩ := hrun
  obtain ⟨table, ht, hms⟩ := exists_of_any hij
  exact ⟨by decide, i, j, table, ht, hms, tidy_run_unique_matches (by decide) (reach_of_guardedRun ht)⟩

/-- A session with two publishers of a topic announces it twice. -/
theorem repeated_topic_matched_twice :
    ¬ ∀ (n : Nat) (table : Table n), n ≤ maxNodes → Reach step anyStep (emptyTable n) table →
      ∀ k, NodupKeys (table k).remoteMatches := by
  intro h
  have hrun : ∃ i j : Fin 2, ((run step (talkerThenListener [plainTopic 7, plainTopic 7] i j)
      (emptyTable 2)).any fun t : Table 2 => decide (¬ NodupKeys (t j).remoteMatches)) = true := by
    decide +kernel
  obtain ⟨i, j, hij⟩ := hrun
  obtain ⟨table, ht, hms⟩ := exists_of_any hij
  exact hms (h 2 table (by decide) (reach_of_run ht fun _ _ _ => trivial) j)

end RmwAxon.UniqueMatches
