import RmwAxon.SendStep

namespace RmwAxon.SendInv

open Qos RetainedHistory SendStep Function List
open RingBuffer (Bytes)

variable {n : Nat} {st st' : State n} {i : Fin n}

structure Latest (st : State n) (i : Fin n) (c : Call) : Prop where
  below : c.sample.id < st.next c.topic
  sent : ∀ p, ∀ m ∈ st.sent p c.topic, m < c.sample.id
  samples : ∀ m ∈ ids (st.tables.retainedRemoteSamples c.topic), m ≤ c.sample.id
  unretained : retaining (st.threads i) = true →
    c.sample.id ∉ ids (st.tables.retainedRemoteSamples c.topic)
  jobs : ∀ j, ∀ b ∈ jobsOf (st.threads j), b.topic = c.topic →
    j = i ∧ ∀ m ∈ ids b.samples, m < c.sample.id
  only : ∀ j c', callOf (st.threads j) = some c' → c'.topic = c.topic → j = i

structure Ahead (st : State n) (i : Fin n) (b : Job) : Prop where
  sorted : (ids b.samples).Pairwise (· < ·)
  below : ∀ m ∈ ids b.samples, m < st.next b.topic
  sent : ∀ m ∈ st.sent b.peer b.topic, ∀ k ∈ ids b.samples, m < k
  only : ∀ j, ∀ b' ∈ jobsOf (st.threads j), key b' = key b → j = i

structure Inv (st : State n) : Prop where
  sorted : ∀ p t, (st.sent p t).Pairwise (· < ·)
  below : ∀ p t, ∀ m ∈ st.sent p t, m < st.next t
  samples : ∀ t, (ids (st.tables.retainedRemoteSamples t)).Pairwise (· < ·)
  retained : ∀ t, ∀ m ∈ ids (st.tables.retainedRemoteSamples t), m < st.next t
  jobs : ∀ i, ∀ b ∈ jobsOf (st.threads i), Ahead st i b
  apart : ∀ i, ((jobsOf (st.threads i)).map key).Nodup
  calls : ∀ i c, callOf (st.threads i) = some c → Latest st i c

theorem still_retained (h : Still st' st) (t : Nat) :
    (ids (st'.tables.retainedRemoteSamples t)).Sublist (ids (st.tables.retainedRemoteSamples t)) :=
  (h.samples t).map _

theorem still_latest (h : Still st' st) {c : Call} (hc : Latest st i c) : Latest st' i c where
  below := Nat.lt_of_lt_of_le hc.below (h.next _)
  sent := by
    rw [h.sent]
    exact hc.sent
  samples m hm := hc.samples m ((still_retained h _).subset hm)
  unretained hr hm := hc.unretained (h.retaining i hr) ((still_retained h _).subset hm)
  jobs j b hb ht := by
    obtain ⟨b₀, hb₀, hkey, hsub, _⟩ := (h.jobs j).samples b hb
    obtain ⟨hj, hlt⟩ := hc.jobs j b₀ hb₀ ((congrArg Prod.snd hkey).symm.trans ht)
    exact ⟨hj, fun m hm => hlt m ((hsub.map _).subset hm)⟩
  only j c' hc' := hc.only j c' (h.call j c' hc')

theorem still_ahead (h : Still st' st) {b b₀ : Job} (hb : Ahead st i b₀) (hkey : key b = key b₀)
    (hsub : b.samples.Sublist b₀.samples) : Ahead st' i b := by
  have hids : (ids b.samples).Sublist (ids b₀.samples) := hsub.map _
  have hpeer : b.peer = b₀.peer := congrArg Prod.fst hkey
  have htopic : b.topic = b₀.topic := congrArg Prod.snd hkey
  refine ⟨hb.sorted.sublist hids, fun m hm => ?_, fun m hm k hk => ?_, fun j b' hb' hs => ?_⟩
  · rw [htopic]
    exact Nat.lt_of_lt_of_le (hb.below m (hids.subset hm)) (h.next _)
  · rw [h.sent, hpeer, htopic] at hm
    exact hb.sent m hm k (hids.subset hk)
  · obtain ⟨b₁, hb₁, hkey₁, _, _⟩ := (h.jobs j).samples b' hb'
    exact hb.only j b₁ hb₁ (hkey₁.symm.trans (hs.trans hkey))

theorem still_inv (h : Still st' st) (hi : Inv st) : Inv st' where
  sorted := by
    rw [h.sent]
    exact hi.sorted
  below p t m hm := by
    rw [h.sent] at hm
    exact Nat.lt_of_lt_of_le (hi.below p t m hm) (h.next t)
  samples t := (hi.samples t).sublist (still_retained h t)
  retained t m hm := Nat.lt_of_lt_of_le (hi.retained t m ((still_retained h t).subset hm)) (h.next t)
  jobs i b hb := by
    obtain ⟨b₀, hb₀, hkey, hsub, _⟩ := (h.jobs i).samples b hb
    exact still_ahead h (hi.jobs i b₀ hb₀) hkey hsub
  apart i := (hi.apart i).sublist (h.jobs i).keys
  calls i c hc := still_latest h (hi.calls i c (h.call i c hc))

theorem beginPublish_inv (hi : Inv st) (hidle : st.threads i = .idle) {t : Nat} (data : Bytes)
    (hcalls : ∀ j c, callOf (st.threads j) = some c → c.topic ≠ t)
    (hjobs : ∀ j, ∀ b ∈ jobsOf (st.threads j), b.topic ≠ t) : Inv (beginPublish st i t data) := by
  have hnext : ∀ t', st.next t' ≤ (beginPublish st i t data).next t' := by
    intro t'
    simp only [beginPublish, setThread, update_apply]
    split_ifs with ht
    · rw [ht]
      exact Nat.le_succ _
    · exact Nat.le_refl _
  have hself : (beginPublish st i t data).threads i =
      .busy (some ⟨t, ⟨st.next t, data, st.calls⟩⟩) .retain := setThread_self ..
  have hother : ∀ j, j ≠ i → (beginPublish st i t data).threads j = st.threads j := fun j hj =>
    setThread_of_ne _ _ hj
  have hold : ∀ j, ∀ b ∈ jobsOf ((beginPublish st i t data).threads j), b ∈ jobsOf (st.threads j) := by
    intro j b hb
    by_cases hj : j = i
    · rw [hj, hself] at hb
      cases hb
    · rwa [hother j hj] at hb
  refine ⟨hi.sorted, ?_, hi.samples, ?_, ?_, ?_, ?_⟩
  · exact fun p t' m hm => Nat.lt_of_lt_of_le (hi.below p t' m hm) (hnext t')
  · exact fun t' m hm => Nat.lt_of_lt_of_le (hi.retained t' m hm) (hnext t')
  · intro j b hb
    have hb' := hi.jobs j b (hold j b hb)
    exact ⟨hb'.sorted, fun m hm => Nat.lt_of_lt_of_le (hb'.below m hm) (hnext _), hb'.sent,
      fun j' b' hb'' hs => hb'.only j' b' (hold j' b' hb'') hs⟩
  · intro j
    by_cases hj : j = i
    · rw [hj, hself]
      exact nodup_nil
    · rw [hother j hj]
      exact hi.apart j
  · intro j c hc
    by_cases hj : j = i
    · subst hj
      rw [hself] at hc
      cases hc
      refine ⟨?_, fun p => hi.below p t, fun m hm => Nat.le_of_lt (hi.retained t m hm),
        fun _ hm => Nat.lt_irrefl _ (hi.retained t _ hm), fun j' b hb ht => ?_, fun j' c' hc' ht => ?_⟩
      · simp [beginPublish, setThread]
      · exact absurd ht (hjobs j' b (hold j' b hb))
      · by_contra hne
        rw [hother j' hne] at hc'
        exact hcalls j' c' hc' ht
    · rw [hother j hj] at hc
      have hl := hi.calls j c hc
      refine ⟨Nat.lt_of_lt_of_le hl.below (hnext _), hl.sent, hl.samples, fun hr => ?_,
        fun j' b hb => hl.jobs j' b (hold j' b hb), fun j' c' hc' ht => ?_⟩
      · rw [hother j hj] at hr
        exact hl.unretained hr
      by_cases hj' : j' = i
      · rw [hj', hself] at hc'
        cases hc'
        exact absurd ht.symm (hcalls j c hc)
      · rw [hother j' hj'] at hc'
        exact hl.only j' c' hc' ht

theorem push_inv (hi : Inv st) {c : Call} {history : HistoryKind}
    (hth : st.threads i = .busy (some c) (.push history)) :
    Inv (setThread { st with tables := retainSample st.tables c.topic c.sample history } i
      (.busy (some c) .enter)) := by
  have hl := hi.calls i c (by rw [hth]; rfl)
  have hfresh := hl.unretained (by rw [hth]; rfl)
  have hlt : ∀ m ∈ ids (st.tables.retainedRemoteSamples c.topic), m < c.sample.id := fun m hm =>
    Nat.lt_of_le_of_ne (hl.samples m hm) fun he => hfresh (he ▸ hm)
  -- The thread itself moves on as in a quiet step; only the samples of its topic grow.
  have hstill := retained_still hth
  have hquiet := still_inv hstill hi
  have hnew : ∀ t, ids ((retainSample st.tables c.topic c.sample history).retainedRemoteSamples t) =
      if t = c.topic then
        (ids (st.tables.retainedRemoteSamples c.topic) ++ [c.sample.id]).drop
          ((st.tables.retainedRemoteSamples c.topic ++ [c.sample]).length - historyDepth history)
      else ids (st.tables.retainedRemoteSamples t) := by
    intro t
    simp only [retainSample, setSamples, keepNewest, update_apply, ids]
    split_ifs <;> simp [map_drop]
  have hmem : ∀ t, ∀ m ∈ ids ((retainSample st.tables c.topic c.sample history).retainedRemoteSamples t),
      m ∈ ids (st.tables.retainedRemoteSamples t) ∨ (t = c.topic ∧ m = c.sample.id) := by
    intro t m hm
    rw [hnew] at hm
    split_ifs at hm with ht
    · have hm' := mem_of_mem_drop hm
      simp only [mem_append, mem_singleton] at hm'
      rcases hm' with hm' | hm'
      · exact .inl (ht ▸ hm')
      · exact .inr ⟨ht, hm'⟩
    · exact .inl hm
  refine ⟨hi.sorted, hi.below, fun t => ?_, fun t m hm => ?_, fun j b hb => ?_, hquiet.apart,
    fun j c' hc' => ?_⟩
  · simp only [setThread, hnew]
    split_ifs with ht
    · refine List.Pairwise.sublist (drop_sublist _ _) (pairwise_append.mpr
        ⟨hi.samples _, pairwise_singleton _ _, fun m hm k hk => ?_⟩)
      rw [mem_singleton.mp hk]
      exact hlt m hm
    · exact hi.samples t
  · rcases hmem t m hm with hm | ⟨rfl, rfl⟩
    · exact hi.retained t m hm
    · exact hl.below
  · have hb' := hquiet.jobs j b hb
    exact ⟨hb'.sorted, hb'.below, hb'.sent, hb'.only⟩
  · have hl' := hquiet.calls j c' hc'
    refine ⟨hl'.below, hl'.sent, fun m hm => ?_, fun hr hm => ?_, hl'.jobs, hl'.only⟩
    · rcases hmem _ m hm with hm | ⟨ht, rfl⟩
      · exact hl'.samples m hm
      · have hj := hl.only j c' (hstill.call j c' hc') ht
        subst hj
        rw [setThread_self] at hc'
        cases hc'
        exact Nat.le_refl _
    · rcases hmem _ _ hm with hm | ⟨ht, _⟩
      · exact hl'.unretained hr hm
      · have hj := hl.only j c' (hstill.call j c' hc') ht
        subst hj
        rw [setThread_self] at hr
        cases hr

end RmwAxon.SendInv
