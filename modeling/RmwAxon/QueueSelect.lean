import RmwAxon.QueueHistory

namespace RmwAxon.QueueSelect

open NumberedList SubscriberQueue QueueHistory List Option
open RingBuffer (Bytes)

theorem select_cases (q : Queue) (seq : Nat) : (q.messages = [] ∧ select q seq = none) ∨
    ∃ oldest first newest latest, q.messages.head? = some (oldest, first) ∧
      q.messages.getLast? = some (newest, latest) ∧
      select q seq = if newest < seq then none
        else q.messages[(if seq < oldest then newest else seq) - oldest]?.map
          fun m => (m.2, if seq < oldest then newest else seq) := by
  cases hm : q.messages with
  | nil => exact .inl ⟨rfl, by simp [select, hm]⟩
  | cons m msgs =>
    obtain ⟨oldest, first⟩ := m
    obtain ⟨⟨newest, latest⟩, hlast⟩ : ∃ l, ((oldest, first) :: msgs).getLast? = some l :=
      ⟨_, getLast?_eq_some_getLast (cons_ne_nil _ _)⟩
    exact .inr ⟨oldest, first, newest, latest, rfl, hlast, by simp [select, hm, hlast]⟩

variable {q : Queue} {seq s lo : Nat} {data : Bytes}

/-- The entry asked for is selected, or the newest for a number before all of them. -/
theorem select_some (hs : select q seq = some (data, s)) : ∃ oldest first newest latest v,
    q.messages.head? = some (oldest, first) ∧ q.messages.getLast? = some (newest, latest) ∧
      q.messages[s - oldest]? = some (v, data) ∧ seq ≤ newest ∧
      (seq < oldest ∧ s = newest ∨ oldest ≤ seq ∧ s = seq) := by
  rcases select_cases q seq with ⟨_, hn⟩ | ⟨oldest, first, newest, latest, hhead, hlast, he⟩
  · rw [hn] at hs
    cases hs
  rw [he] at hs
  split_ifs at hs with hnew hold <;> obtain ⟨⟨v, d⟩, hv, hd⟩ := map_eq_some_iff.mp hs <;> cases hd
  · exact ⟨_, _, _, _, v, hhead, hlast, hv, Nat.le_of_not_lt hnew, .inl ⟨hold, rfl⟩⟩
  · exact ⟨_, _, _, _, v, hhead, hlast, hv, Nat.le_of_not_lt hnew, .inr ⟨Nat.le_of_not_lt hold, rfl⟩⟩

theorem select_entry (hs : select q seq = some (data, s)) : ∃ v, (v, data) ∈ q.messages := by
  obtain ⟨_, _, _, _, v, _, _, hv, _⟩ := select_some hs
  exact ⟨v, mem_of_getElem? hv⟩

theorem select_le (hs : select q seq = some (data, s)) : seq ≤ s := by
  obtain ⟨_, _, _, _, _, _, _, _, hle, hcase⟩ := select_some hs
  omega

theorem select_ge {oldest : Nat} (ho : (numbers q).Pairwise (· < ·))
    (hfirst : (numbers q).head? = some oldest) (hs : select q seq = some (data, s)) : oldest ≤ s := by
  obtain ⟨oldest', _, _, _, _, hhead, hlast, _, _, ⟨_, rfl⟩ | ⟨hle, rfl⟩⟩ := select_some hs
  · exact head_le ho hfirst (mem_map_of_mem (mem_of_getLast? hlast))
  · obtain rfl : oldest' = oldest := by simpa [numbers, hhead] using hfirst
    exact hle

/-- The size query finds the entry that the peeks find, also across a gap. -/
theorem messageSize_of_select (ho : (numbers q).Pairwise (· < ·)) (hs : select q seq = some (data, s)) :
    messageSize q seq = some data.length := by
  obtain ⟨oldest, _, _, _, v, hhead, hlast, hv, _, ⟨hold, rfl⟩ | ⟨hold, rfl⟩⟩ := select_some hs
  · have hend : q.messages[s - oldest]? = q.messages.getLast? := by
      rw [getLast?_eq_getElem?]
      congr 1
      obtain ⟨hlt, _⟩ := List.getElem?_eq_some_iff.mp hv
      have hspan := span_le ho (a := oldest) (b := s) (by simp [numbers, hhead]) (by simp [numbers, hlast])
      simp only [numbers, length_map] at hspan
      omega
    rw [hend] at hv
    simp [messageSize, hhead, hold, hv]
  · simp [messageSize, hhead, Nat.not_lt.mpr hold, hv]

theorem select_mem (h : Consecutive lo q.messages) (hs : select q seq = some (data, s)) :
    (s, data) ∈ q.messages := by
  obtain ⟨_, _, _, _, v, hhead, hlast, hv, _, hcase⟩ := select_some hs
  obtain rfl := h.head hhead
  have hn := h.last hlast
  have hnumber := h.number hv
  obtain ⟨hlt, _⟩ := List.getElem?_eq_some_iff.mp hv
  obtain rfl : v = s := by omega
  exact mem_of_getElem? hv

theorem select_of_mem (h : Consecutive lo q.messages) (hs : (seq, data) ∈ q.messages) :
    select q seq = some (data, seq) := by
  obtain ⟨hle, hat⟩ := h.mem_iff.mp hs
  rcases select_cases q seq with ⟨hn, _⟩ | ⟨oldest, first, newest, latest, hhead, hlast, he⟩
  · rw [hn] at hs
    cases hs
  obtain rfl := h.head hhead
  obtain ⟨hlt, _⟩ := List.getElem?_eq_some_iff.mp hat
  have hn := h.last hlast
  rw [he, if_neg (by omega), if_neg (by omega), hat]
  rfl

theorem select_isSome_iff (h : Consecutive lo q.messages) (seq : Nat) :
    (select q seq).isSome ↔ dataAvailableFrom q seq = true := by
  rcases select_cases q seq with ⟨hm, hn⟩ | ⟨oldest, first, newest, latest, hhead, hlast, he⟩
  · simp [hn, dataAvailableFrom, hm]
  obtain rfl := h.head hhead
  have hn := h.last hlast
  have hpos : 0 < q.messages.length := by
    cases hm : q.messages with
    | nil => simp [hm] at hhead
    | cons m msgs => simp
  have hidx : ¬ newest < seq → (if seq < oldest then newest else seq) - oldest <
      q.messages.length := by
    split_ifs <;> omega
  rw [he, dataAvailableFrom, hlast]
  by_cases hnew : newest < seq
  · rw [if_pos hnew]
    simpa using hnew
  · rw [if_neg hnew, getElem?_eq_getElem (hidx hnew)]
    simpa using hnew

theorem select_none_mono {seq' : Nat} (h : Consecutive lo q.messages) (hs : select q seq = none)
    (hle : seq ≤ seq') : select q seq' = none := by
  have hread := mt (select_isSome_iff h seq).mpr (by simp [hs])
  refine not_isSome_iff_eq_none.mp fun hsome => hread ?_
  have hdata := (select_isSome_iff h seq').mp hsome
  unfold dataAvailableFrom at hdata ⊢
  cases hm : q.messages.getLast? with
  | none => simp [hm] at hdata
  | some m =>
    simp only [hm, decide_eq_true_eq] at hdata ⊢
    exact hle.trans hdata

theorem push_last (hr : refuses q = false) (now : Nat) (data : Bytes) :
    (push q now data).2.messages.getLast? = some (q.nextSeq, data) := by
  simp [push_accepted hr]

theorem push_select (h : Window q lo) (hr : refuses q = false) (hsel : select q seq = none)
    (hle : seq ≤ q.nextSeq) (now : Nat) (data : Bytes) :
    select (push q now data).2 seq = some (data, q.nextSeq) := by
  cases hm : q.messages.getLast? with
  | none =>
    have hnil : q.messages = [] := getLast?_eq_none_iff.mp hm
    have hafter : (push q now data).2.messages = [(q.nextSeq, data)] := by
      simp [push_accepted hr, hnil]
    by_cases hlt : seq < q.nextSeq
    · simp [select, hafter, hlt, Nat.not_lt.mpr hle]
    · simp [select, hafter, Nat.le_antisymm hle (Nat.not_lt.mp hlt)]
  | some m =>
    obtain ⟨newest, latest⟩ := m
    obtain rfl : seq = q.nextSeq := by
      have hlast := h.numbered.last hm
      have hread := mt (select_isSome_iff h.numbered seq).mpr (by simp [hsel])
      have := h.next
      simp only [dataAvailableFrom, hm, decide_eq_true_eq] at hread
      omega
    obtain ⟨lo', h'⟩ := push_window h hr now data
    exact select_of_mem h'.numbered (mem_of_getLast? (push_last hr now data))

theorem push_select_none (hr : refuses q = false) (hlt : q.nextSeq < seq) (now : Nat) (data : Bytes) :
    select (push q now data).2 seq = none := by
  rcases select_cases (push q now data).2 seq with ⟨_, hn⟩ | ⟨_, _, newest, latest, _, hlast, he⟩
  · exact hn
  · cases (push_last hr now data).symm.trans hlast
    rw [he, if_pos hlt]

end RmwAxon.QueueSelect
