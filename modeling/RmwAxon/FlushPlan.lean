import RmwAxon.SendInv

namespace RmwAxon.FlushPlan

open RetainedHistory SendStep SendInv Function List

variable {n : Nat} {st : State n} {i : Fin n}

structure Planned (s : Tables) (late : Nat → Nat → Bool) (valid : List Match) (b : Job) : Prop where
  matched : ∃ m ∈ valid, m.peer = b.peer ∧ m.topic = b.topic
  samples : b.samples = s.retainedRemoteSamples b.topic
  kept : s.retainedRemoteSamples b.topic ≠ []
  peers : b.peer ∉ s.retainedRemotePeers b.topic
  pending : b.peer ∉ s.retainedRemotePending b.topic
  late : b.late = late b.topic b.peer

variable {late : Nat → Nat → Bool} {valid : List Match} {b : Job} {call : Option Call} {s : Sample}

theorem planOne_planned {s : Tables} {rest : List Match} {acc : (Nat → Finset Nat) × List Job}
    (hrest : ∀ m ∈ rest, m ∈ valid) (hsub : ∀ t, s.retainedRemotePending t ⊆ acc.1 t)
    (hacc : ∀ b ∈ acc.2, Planned s late valid b ∧ b.peer ∈ acc.1 b.topic)
    (hkeys : (acc.2.map key).Nodup) :
    (∀ b ∈ (rest.foldl (planOne s late) acc).2, Planned s late valid b) ∧
      ((rest.foldl (planOne s late) acc).2.map key).Nodup := by
  induction rest generalizing acc with
  | nil => exact ⟨fun b hb => (hacc b hb).1, hkeys⟩
  | cons m rest ih =>
    rw [foldl_cons]
    have hmem : m ∈ valid := hrest m mem_cons_self
    by_cases hnew : s.retainedRemoteSamples m.topic ≠ [] ∧ m.peer ∉ s.retainedRemotePeers m.topic ∧
        m.peer ∉ acc.1 m.topic
    · rw [planOne, if_pos hnew]
      have hgrow : ∀ t, acc.1 t ⊆ update acc.1 m.topic (insert m.peer (acc.1 m.topic)) t := by
        intro t
        rw [update_apply]
        split_ifs with ht
        · rw [ht]
          exact Finset.subset_insert _ _
        · exact Finset.Subset.refl _
      refine ih (fun m' hm' => hrest m' (mem_cons_of_mem _ hm'))
        (fun t => (hsub t).trans (hgrow t)) (fun b hb => ?_) ?_
      · rcases mem_append.mp hb with hb | hb
        · exact ⟨(hacc b hb).1, hgrow _ (hacc b hb).2⟩
        · rw [mem_singleton.mp hb]
          exact ⟨⟨⟨m, hmem, rfl, rfl⟩, rfl, hnew.1, hnew.2.1, fun hp => hnew.2.2 (hsub _ hp), rfl⟩,
            by simp⟩
      · rw [map_append, map_singleton, nodup_append]
        refine ⟨hkeys, nodup_singleton _, fun k hk k' hk' he => ?_⟩
        obtain ⟨b, hb, rfl⟩ := mem_map.mp hk
        rw [mem_singleton.mp hk'] at he
        have hin := (hacc b hb).2
        rw [show b.peer = m.peer from congrArg Prod.fst he,
          show b.topic = m.topic from congrArg Prod.snd he] at hin
        exact hnew.2.2 hin
    · rw [planOne, if_neg hnew]
      exact ih (fun m' hm' => hrest m' (mem_cons_of_mem _ hm')) hsub hacc hkeys

theorem plan_planned (s : Tables) (late : Nat → Nat → Bool) (valid : List Match) :
    (∀ b ∈ (plan s late valid).2, Planned (prunePeers s valid) late valid b) ∧
      ((plan s late valid).2.map key).Nodup :=
  planOne_planned (fun _ hm => hm) (fun _ => Finset.Subset.refl _) (by simp) nodup_nil

/-- A match for which a flush is planned: there is a history, and the peer has
neither received it nor is about to. -/
def newPeer (s : Tables) (m : Match) : Prop :=
  s.retainedRemoteSamples m.topic ≠ [] ∧ m.peer ∉ s.retainedRemotePeers m.topic ∧
    m.peer ∉ s.retainedRemotePending m.topic

/-- Nothing has gone to the peer on this topic, nor is a flush to it left; and
no publish call on the topic is running, except that the thread itself may be
in one that has not retained its own sample. -/
def undisturbed (st : State n) (i : Fin n) (m : Match) : Prop :=
  st.sent m.peer m.topic = [] ∧ ∀ j,
    (∀ b ∈ jobsOf (st.threads j), key b ≠ (m.peer, m.topic)) ∧
    ∀ c ∈ callOf (st.threads j), c.topic = m.topic →
      j = i ∧ c.sample.id ∉ ids (st.tables.retainedRemoteSamples m.topic)

theorem Planned.newPeer {s : Tables} (hb : Planned (prunePeers s valid) late valid b) :
    ∃ m ∈ valid, newPeer s m ∧ m.peer = b.peer ∧ m.topic = b.topic := by
  obtain ⟨m, hm, hpeer, htopic⟩ := hb.matched
  have hactive : m.peer ∈ activePeers valid m.topic := by
    simp only [activePeers, mem_toFinset, mem_map, mem_filter, decide_eq_true_eq]
    exact ⟨m, ⟨hm, rfl⟩, rfl⟩
  refine ⟨m, hm, ⟨?_, fun hp => hb.peers ?_, fun hp => hb.pending ?_⟩, hpeer, htopic⟩
  · rw [htopic]
    exact hb.kept
  · rw [← hpeer, ← htopic]
    exact Finset.mem_inter.mpr ⟨hp, hactive⟩
  · rw [← hpeer, ← htopic]
    exact Finset.mem_inter.mpr ⟨hp, hactive⟩

structure Flushing (st st' : State n) (i : Fin n) (call : Option Call) (jobs : List Job) : Prop where
  own : st'.threads i = .busy call (.flush jobs)
  others : ∀ j, j ≠ i → st'.threads j = st.threads j
  calling : callOf (st.threads i) = call
  sent : st'.sent = st.sent
  samples : st'.tables.retainedRemoteSamples = st.tables.retainedRemoteSamples
  next : st'.next = st.next
  kept : ∀ b ∈ jobs, b.samples = st.tables.retainedRemoteSamples b.topic
  unsent : ∀ b ∈ jobs, st.sent b.peer b.topic = []
  alone : ∀ b ∈ jobs, ∀ j, ∀ b' ∈ jobsOf (st.threads j), key b' ≠ key b
  quiet : ∀ b ∈ jobs, ∀ j, ∀ c ∈ callOf (st.threads j), c.topic = b.topic →
    j = i ∧ c.sample.id ∉ ids (st.tables.retainedRemoteSamples b.topic)
  keys : (jobs.map key).Nodup

section Flushing

variable {st' : State n} {call : Option Call} {jobs : List Job}

variable (h : Flushing st st' i call jobs)
include h

theorem Flushing.callOf_eq (j : Fin n) : callOf (st'.threads j) = callOf (st.threads j) := by
  by_cases hj : j = i
  · rw [hj, h.own, h.calling]
    rfl
  · rw [h.others j hj]

theorem Flushing.ahead_own (hi : Inv st) {b : Job} (hb : b ∈ jobs) : Ahead st' i b := by
  refine ⟨?_, fun m hm => ?_, fun m hm => ?_, fun j b' hb' hs => ?_⟩
  · rw [h.kept b hb]
    exact hi.samples _
  · rw [h.kept b hb] at hm
    rw [h.next]
    exact hi.retained _ m hm
  · rw [h.sent, h.unsent b hb] at hm
    cases hm
  · by_contra hne
    rw [h.others j hne] at hb'
    exact h.alone b hb j b' hb' hs

theorem Flushing.ahead_other {j : Fin n} {b : Job}
    (hb : b ∈ jobsOf (st.threads j)) (ha : Ahead st j b) : Ahead st' j b := by
  refine ⟨ha.sorted, ?_, ?_, fun j' b' hb' hs => ?_⟩
  · simpa only [h.next] using ha.below
  · simpa only [h.sent] using ha.sent
  by_cases hj' : j' = i
  · rw [hj', h.own] at hb'
    exact absurd hs.symm (h.alone b' hb' j b hb)
  · rw [h.others j' hj'] at hb'
    exact ha.only j' b' hb' hs

theorem Flushing.latest {j : Fin n} {c : Call}
    (hc : callOf (st.threads j) = some c) (hl : Latest st j c) : Latest st' j c := by
  refine ⟨?_, ?_, ?_, fun hr => ?_, fun j' b hb ht => ?_, fun j' c' hc' => ?_⟩
  · simpa only [h.next] using hl.below
  · simpa only [h.sent] using hl.sent
  · simpa only [h.samples] using hl.samples
  · by_cases hj : j = i
    · rw [hj, h.own] at hr
      cases hr
    · rw [h.others j hj] at hr
      simpa only [h.samples] using hl.unretained hr
  · by_cases hj' : j' = i
    · rw [hj', h.own] at hb
      obtain ⟨hji, hout⟩ := h.quiet b hb j c hc ht.symm
      refine ⟨hj'.trans hji.symm, fun m hm => ?_⟩
      rw [h.kept b hb, ht] at hm
      rw [ht] at hout
      exact Nat.lt_of_le_of_ne (hl.samples m hm) fun he => hout (he ▸ hm)
    · rw [h.others j' hj'] at hb
      exact hl.jobs j' b hb ht
  · rw [h.callOf_eq] at hc'
    exact hl.only j' c' hc'

theorem Flushing.inv (hi : Inv st) : Inv st' := by
  refine ⟨?_, ?_, ?_, ?_, fun j b hb => ?_, fun j => ?_, fun j c hc => ?_⟩
  · simpa only [h.sent] using hi.sorted
  · simpa only [h.sent, h.next] using hi.below
  · simpa only [h.samples] using hi.samples
  · simpa only [h.samples, h.next] using hi.retained
  · by_cases hj : j = i
    · subst hj
      rw [h.own] at hb
      exact h.ahead_own hi hb
    · rw [h.others j hj] at hb
      exact h.ahead_other hb (hi.jobs j b hb)
  · by_cases hj : j = i
    · rw [hj, h.own]
      exact h.keys
    · rw [h.others j hj]
      exact hi.apart j
  · rw [h.callOf_eq] at hc
    exact h.latest hc (hi.calls j c hc)

end Flushing

theorem flushing_inv (hi : Inv st) (hth : st.threads i = .busy call (.plan valid))
    (hg : ∀ m ∈ valid, newPeer st.tables m → undisturbed st i m) {st₁ : State n} {jobs : List Job}
    (hsent : st₁.sent = st.sent)
    (hsamples : st₁.tables.retainedRemoteSamples = st.tables.retainedRemoteSamples)
    (hnext : st₁.next = st.next) (hthreads : st₁.threads = st.threads)
    (hjobs : ∀ b ∈ jobs, Planned (prunePeers st.tables valid) late valid b)
    (hkeys : (jobs.map key).Nodup) :
    Inv (setThread st₁ i (.busy call (.flush jobs))) := by
  have hund : ∀ b ∈ jobs, undisturbed st i ⟨b.peer, b.topic, 0⟩ := by
    intro b hb
    obtain ⟨m, hm, hnew, hpeer, htopic⟩ := (hjobs b hb).newPeer
    have hu := hg m hm hnew
    unfold undisturbed at hu ⊢
    rwa [hpeer, htopic] at hu
  refine Flushing.inv ⟨setThread_self .., fun j hj => ?_, by rw [hth]; rfl, hsent, hsamples, hnext,
    fun b hb => (hjobs b hb).samples, fun b hb => (hund b hb).1, fun b hb j => ((hund b hb).2 j).1,
    fun b hb j => ((hund b hb).2 j).2, hkeys⟩ hi
  rw [setThread_of_ne st₁ _ hj, hthreads]

theorem handOver_sent (st : State n) (peer topic : Nat) (s : Sample) (startup late : Bool) (p t : Nat) :
    (handOver st peer topic s startup late).sent p t =
      if p = peer ∧ t = topic then st.sent p t ++ [s.id] else st.sent p t := by
  simp only [handOver, update_apply]
  by_cases hp : p = peer
  · by_cases ht : t = topic <;> simp [hp, ht]
  · simp [hp]

theorem handOver_inv (hi : Inv st) {peer topic : Nat} (startup late : Bool)
    (hnext : s.id < st.next topic) (hsent : ∀ m ∈ st.sent peer topic, m < s.id)
    (hjobs : ∀ j, ∀ b ∈ jobsOf (st.threads j), key b = (peer, topic) → ∀ m ∈ ids b.samples, s.id < m)
    (hcalls : ∀ j c, callOf (st.threads j) = some c → c.topic = topic → s.id < c.sample.id) :
    Inv (handOver st peer topic s startup late) := by
  refine ⟨fun p t => ?_, fun p t m hm => ?_, hi.samples, hi.retained, fun j b hb => ?_, hi.apart,
    fun j c hc => ?_⟩
  · rw [handOver_sent]
    split_ifs with hpt
    · obtain ⟨rfl, rfl⟩ := hpt
      refine pairwise_append.mpr ⟨hi.sorted p t, pairwise_singleton _ _, fun m hm k hk => ?_⟩
      rw [mem_singleton.mp hk]
      exact hsent m hm
    · exact hi.sorted p t
  · rw [handOver_sent] at hm
    split_ifs at hm with hpt
    · obtain ⟨rfl, rfl⟩ := hpt
      rcases mem_append.mp hm with hm | hm
      · exact hi.below p t m hm
      · rw [mem_singleton.mp hm]
        exact hnext
    · exact hi.below p t m hm
  · have ha := hi.jobs j b hb
    refine ⟨ha.sorted, ha.below, fun m hm k hk => ?_, ha.only⟩
    rw [handOver_sent] at hm
    split_ifs at hm with hpt
    · rcases mem_append.mp hm with hm | hm
      · exact ha.sent m hm k hk
      · rw [mem_singleton.mp hm]
        exact hjobs j b hb (Prod.ext hpt.1 hpt.2) k hk
    · exact ha.sent m hm k hk
  · have hl := hi.calls j c hc
    refine ⟨hl.below, fun p m hm => ?_, hl.samples, hl.unretained, hl.jobs, hl.only⟩
    rw [handOver_sent] at hm
    split_ifs at hm with hpt
    · rcases mem_append.mp hm with hm | hm
      · exact hl.sent p m hm
      · rw [mem_singleton.mp hm]
        exact hcalls j c hc hpt.2
    · exact hl.sent p m hm

theorem flushed_still {rest : List Job} {more : List Sample}
    (hth : st.threads i = .busy call (.flush (b :: rest))) (hs : b.samples = s :: more) :
    Still (setThread st i (.busy call (.flush ({ b with samples := more } :: rest)))) st := by
  refine still_setThread rfl rfl rfl rfl ⟨?_, fun b' hb' => ?_⟩ (by simp [hth, callOf]) (by simp [retaining])
  · simp [hth, jobsOf, key]
  rw [hth]
  rcases mem_cons.mp hb' with rfl | hb'
  · exact ⟨b, mem_cons_self, rfl, hs ▸ sublist_cons_self _ _, rfl⟩
  · exact ⟨b', mem_cons_of_mem _ hb', rfl, List.Sublist.refl _, rfl⟩

theorem flushSend_inv (hi : Inv st) {rest : List Job} {more : List Sample}
    (hth : st.threads i = .busy call (.flush (b :: rest))) (hs : b.samples = s :: more) :
    Inv (setThread (handOver st b.peer b.topic s true b.late) i
      (.busy call (.flush ({ b with samples := more } :: rest)))) := by
  have hold : b ∈ jobsOf (st.threads i) := by simp [hth, jobsOf]
  have hb := hi.jobs i b hold
  have hids : ids b.samples = s.id :: ids more := by
    rw [hs]
    rfl
  have hmem : s.id ∈ ids b.samples := hids ▸ mem_cons_self
  -- First the thread takes the sample off its list, then it hands it over.
  have hstill := flushed_still hth hs
  refine handOver_inv (still_inv hstill hi) true b.late (hb.below _ hmem) (fun m hm => hb.sent m hm _ hmem)
    (fun j b' hb' hkey m hm => ?_) (fun j c hc ht => ?_)
  · obtain ⟨b₁, hb₁, hkey₁, _, _⟩ := (hstill.jobs j).samples b' hb'
    have hj := hb.only j b₁ hb₁ (hkey₁.symm.trans hkey)
    subst hj
    rw [setThread_self] at hb'
    have hapart := hi.apart j
    rw [hth] at hapart
    rcases mem_cons.mp hb' with rfl | hb'
    · exact (pairwise_cons.mp (hids ▸ hb.sorted)).1 m hm
    · have hin : key b' ∈ rest.map key := mem_map_of_mem hb'
      rw [hkey] at hin
      exact absurd hin (nodup_cons.mp hapart).1
  · exact ((hi.calls j c (hstill.call j c hc)).jobs i b hold ht.symm).2 _ hmem

end RmwAxon.FlushPlan
