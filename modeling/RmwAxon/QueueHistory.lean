import RmwAxon.NumberedList
import RmwAxon.RingHistory
import RmwAxon.SubscriberQueue

namespace RmwAxon.QueueHistory

open NumberedList SubscriberQueue Function List
open RingBuffer (Bytes)
open RingHistory (History publish_cases)

def numbers (q : Queue) : List Nat := q.messages.map Prod.fst

/-- What every run keeps, refused pushes included: the numbers increase, the
counter and the timestamps follow the messages, each message holds the bytes
that were pushed under its number, and a number that is missing behind the
oldest message was refused. -/
structure Stored (q : Queue) (pushed : History) : Prop where
  ordered : (numbers q).Pairwise (· < ·)
  below : ∀ s ∈ numbers q, s < q.nextSeq
  counted : q.len = q.messages.length
  bounded : q.messages.length ≤ q.capacity
  keyed : Keyed q.timestamps (numbers q)
  origin : ∀ s data, (s, data) ∈ q.messages → pushed s = some data
  issued : ∀ s data, pushed s = some data → s < q.nextSeq
  missing : ∀ oldest s, (numbers q).head? = some oldest → oldest ≤ s → s ∉ numbers q →
    pushed s = none
  awake : q.messages ≠ [] → q.active = true

structure Window (q : Queue) (lo : Nat) : Prop where
  numbered : Consecutive lo q.messages
  next : lo + q.messages.length = q.nextSeq

variable {q : Queue} {lo : Nat} {pushed : History}

theorem Window.ordered (h : Window q lo) : (numbers q).Pairwise (· < ·) := by
  rw [numbers, h.numbered]
  exact pairwise_lt_range'

theorem fresh_stored (capacity startSeq : Nat) (keepAll : Bool) :
    Stored (withSeqAndMode capacity startSeq keepAll) fun _ => none := by
  refine ⟨.nil, ?_, rfl, Nat.zero_le _, ?_, ?_, ?_, ?_, ?_⟩ <;>
    simp [withSeqAndMode, numbers, Keyed]

theorem fresh_window (capacity startSeq : Nat) (keepAll : Bool) :
    Window (withSeqAndMode capacity startSeq keepAll) startSeq :=
  ⟨.empty _, rfl⟩

theorem evict_fst (capacity : Nat) (msgs : List (Nat × Bytes)) (ts : Timestamps) :
    (evict capacity msgs ts).1 = msgs.drop (msgs.length + 1 - capacity) := by
  induction msgs generalizing ts with
  | nil => simp [evict]
  | cons m msgs ih =>
    rw [evict]
    split_ifs with hfull
    · have hk : (m :: msgs).length + 1 - capacity = (msgs.length + 1 - capacity) + 1 := by
        simp only [length_cons] at hfull ⊢
        omega
      rw [ih, hk, drop_succ_cons]
    · have hk : (m :: msgs).length + 1 - capacity = 0 := by omega
      rw [hk, drop_zero]

theorem evict_keyed (capacity : Nat) {msgs : List (Nat × Bytes)} {ts : Timestamps}
    (ho : (msgs.map Prod.fst).Pairwise (· < ·)) (hk : Keyed ts (msgs.map Prod.fst)) :
    Keyed (evict capacity msgs ts).2 ((evict capacity msgs ts).1.map Prod.fst) := by
  induction msgs generalizing ts with
  | nil => exact hk
  | cons m msgs ih =>
    rw [evict]
    split_ifs with hfull
    · obtain ⟨hm, ho⟩ := pairwise_cons.mp ho
      exact ih ho (hk.remove fun hin => lt_irrefl _ (hm _ hin))
    · exact hk

theorem push_refused (h : refuses q = true) (now : Nat) (data : Bytes) :
    push q now data = (none, { q with nextSeq := q.nextSeq + 1 }) := by
  simp [push, h]

theorem push_accepted (h : refuses q = false) (now : Nat) (data : Bytes) :
    push q now data = (some q.nextSeq, { q with
      messages := q.messages.drop (q.messages.length + 1 - q.capacity) ++ [(q.nextSeq, data)]
      nextSeq := q.nextSeq + 1
      len := (q.messages.drop (q.messages.length + 1 - q.capacity)).length + 1
      active := true
      timestamps := update (evict q.capacity q.messages q.timestamps).2 q.nextSeq
        (some now) }) := by
  simp [push, h, evict_fst]

def record (pushed : History) (reply : Option Nat) (data : Bytes) : History :=
  match reply with
  | some s => update pushed s (some data)
  | none => pushed

theorem missing_of_drop (h : Stored q pushed) {k oldest s : Nat}
    (hhead : ((numbers q).drop k).head? = some oldest) (hle : oldest ≤ s)
    (hs : s ∉ (numbers q).drop k) : pushed s = none := by
  have hmem : oldest ∈ numbers q := mem_of_mem_drop (mem_of_head? hhead)
  obtain ⟨first, hfirst⟩ : ∃ first, (numbers q).head? = some first := by
    cases hq : numbers q with
    | nil => simp [hq] at hmem
    | cons a ks => exact ⟨a, rfl⟩
  exact h.missing first s hfirst ((head_le h.ordered hfirst hmem).trans hle) fun hin =>
    hs (mem_drop_of_head_le h.ordered hhead hle hin)

theorem push_stored (h : Stored q pushed) (now : Nat) (data : Bytes) :
    Stored (push q now data).2 (record pushed (push q now data).1 data) := by
  cases hr : refuses q with
  | true =>
    rw [push_refused hr]
    exact ⟨h.ordered, fun s hs => Nat.lt_succ_of_lt (h.below s hs), h.counted, h.bounded,
      h.keyed, h.origin, fun s d hs => Nat.lt_succ_of_lt (h.issued s d hs), h.missing, h.awake⟩
  | false =>
    have hkept : ∀ s ∈ (q.messages.drop (q.messages.length + 1 - q.capacity)).map Prod.fst,
        s < q.nextSeq := by
      intro s hs
      rw [map_drop] at hs
      exact h.below s (mem_of_mem_drop hs)
    rw [push_accepted hr]
    refine ⟨?_, ?_, ?_, ?_, ?_, ?_, ?_, ?_, fun _ => rfl⟩
    · simp only [numbers, map_append, map_cons, map_nil, pairwise_append, map_drop]
      refine ⟨h.ordered.sublist (drop_sublist _ _), pairwise_singleton _ _, ?_⟩
      intro s hs t ht
      rw [mem_singleton.mp ht]
      exact h.below s (mem_of_mem_drop hs)
    · intro s hs
      simp only [numbers, map_append, mem_append, map_cons, map_nil, mem_singleton] at hs
      rcases hs with hs | rfl
      · exact Nat.lt_succ_of_lt (hkept s hs)
      · exact Nat.lt_succ_self _
    · simp
    · have hpos := q.capacity_pos
      simp only [length_append, length_drop, length_cons, length_nil]
      have hb := h.bounded
      omega
    · have hk := evict_keyed q.capacity h.ordered h.keyed
      rw [evict_fst] at hk
      simpa [numbers] using hk.insert q.nextSeq now
    · intro s d hs
      simp only [mem_append, mem_singleton, Prod.mk.injEq] at hs
      rcases hs with hs | ⟨rfl, rfl⟩
      · have hne : s ≠ q.nextSeq := (hkept s (mem_map_of_mem hs)).ne
        exact (update_of_ne hne ..).trans (h.origin s d (mem_of_mem_drop hs))
      · exact update_self ..
    · intro s d hs
      rcases publish_cases hs with ⟨rfl, _⟩ | ⟨_, hs⟩
      · exact Nat.lt_succ_self _
      · exact Nat.lt_succ_of_lt (h.issued s d hs)
    · intro oldest s hhead hle hs
      simp only [numbers, map_append, mem_append, map_cons, map_nil,
        mem_singleton, not_or, map_drop] at hhead hs
      refine (update_of_ne hs.2 ..).trans ?_
      cases hd : (numbers q).drop (q.messages.length + 1 - q.capacity) with
      | nil =>
        rw [numbers] at hd
        simp only [hd, nil_append, head?_cons, Option.some.injEq] at hhead
        cases hp : pushed s with
        | none => rfl
        | some d => exact absurd (h.issued s d hp) (by omega)
      | cons k ks =>
        have hk : ((numbers q).drop (q.messages.length + 1 - q.capacity)).head? = some oldest := by
          rw [numbers] at hd
          rw [numbers, hd]
          simpa [hd] using hhead
        exact missing_of_drop h hk hle hs.1

theorem push_window (h : Window q lo) (hr : refuses q = false) (now : Nat) (data : Bytes) :
    ∃ lo', Window (push q now data).2 lo' := by
  have hlen : q.messages.length + 1 - q.capacity ≤ q.messages.length := by
    have := q.capacity_pos
    omega
  rw [push_accepted hr]
  refine ⟨lo + (q.messages.length + 1 - q.capacity), ?_, ?_⟩
  · have hc := (h.numbered.drop (q.messages.length + 1 - q.capacity)).concat data
    have hn : lo + (q.messages.length + 1 - q.capacity) +
        (q.messages.drop (q.messages.length + 1 - q.capacity)).length = q.nextSeq := by
      rw [length_drop, ← h.next]
      omega
    rwa [hn] at hc
  · simp only [length_append, length_drop, length_cons, length_nil]
    have := h.next
    omega

theorem tryTake_cases (q : Queue) (seq : Nat) (out : Bytes) : (tryTake q seq out).2.2 = q ∨
    (tryTake q seq out).2.2 = { q with messages := [], len := 0, timestamps := fun _ => none } ∨
    ∃ oldest first offset actual data, q.messages.head? = some (oldest, first) ∧
      q.messages[offset]? = some (actual, data) ∧
      (tryTake q seq out).2.2 = { q with
        messages := q.messages.drop (offset + 1)
        len := (q.messages.drop (offset + 1)).length
        timestamps := removeRange q.timestamps oldest actual } := by
  unfold tryTake
  split
  · rename_i oldest first newest latest hhead hlast
    split_ifs
    · exact .inl rfl
    · exact .inr (.inl rfl)
    simp only
    split
    · exact .inl rfl
    rename_i actual data hat
    split_ifs
    · exact .inl rfl
    · exact .inr (.inr ⟨oldest, first, _, actual, data, hhead, hat, rfl⟩)
  · exact .inl rfl

theorem removeRange_keyed {oldest offset actual : Nat} {first data : Bytes}
    (ho : (numbers q).Pairwise (· < ·)) (hk : Keyed q.timestamps (numbers q))
    (hhead : q.messages.head? = some (oldest, first))
    (hat : q.messages[offset]? = some (actual, data)) :
    Keyed (removeRange q.timestamps oldest actual) ((q.messages.drop (offset + 1)).map Prod.fst) := by
  intro s
  have hi : (numbers q)[offset]? = some actual := by simp [numbers, hat]
  have hle : s ∈ numbers q → oldest ≤ s := fun hs => head_le ho (by simp [numbers, hhead]) hs
  have hs := hk s
  have hdrop : (q.messages.drop (offset + 1)).map Prod.fst = (numbers q).drop (offset + 1) :=
    map_drop
  rw [hdrop, mem_drop_iff ho hi s, ← hs]
  unfold removeRange
  split_ifs with hin
  · simp only [Option.isSome_none, Bool.false_eq_true, false_iff, not_and, not_lt]
    exact fun _ => hin.2
  constructor
  · intro hsome
    have := hle (hs.mp hsome)
    exact ⟨hsome, by omega⟩
  · exact And.left

theorem tryTake_stored (h : Stored q pushed) (seq : Nat) (out : Bytes) :
    Stored (tryTake q seq out).2.2 pushed := by
  rcases tryTake_cases q seq out with he | he | ⟨oldest, first, offset, actual, data, hhead, hat, he⟩
  · rwa [he]
  · rw [he]
    exact ⟨.nil, by simp [numbers], rfl, Nat.zero_le _, by simp [Keyed, numbers], by simp,
      h.issued, by simp [numbers], by simp⟩
  rw [he]
  refine ⟨?_, ?_, rfl, ?_, removeRange_keyed h.ordered h.keyed hhead hat, ?_, h.issued, ?_, ?_⟩
  · simp only [numbers, map_drop]
    exact h.ordered.sublist (drop_sublist _ _)
  · intro s hs
    simp only [numbers, map_drop] at hs
    exact h.below s (mem_of_mem_drop hs)
  · simp only [length_drop]
    exact (Nat.sub_le _ _).trans h.bounded
  · intro s d hs
    exact h.origin s d (mem_of_mem_drop hs)
  · intro oldest' s hfirst hle hs
    simp only [numbers, map_drop] at hfirst hs
    exact missing_of_drop h hfirst hle hs
  · intro hne
    refine h.awake fun hnil => hne ?_
    simp [hnil]

theorem tryTake_window (h : Window q lo) (seq : Nat) (out : Bytes) :
    ∃ lo', Window (tryTake q seq out).2.2 lo' := by
  rcases tryTake_cases q seq out with he | he | ⟨oldest, first, offset, actual, data, hhead, hat, he⟩
  · rw [he]
    exact ⟨lo, h⟩
  · rw [he]
    exact ⟨q.nextSeq, .empty _, rfl⟩
  rw [he]
  obtain ⟨hlt, _⟩ := List.getElem?_eq_some_iff.mp hat
  refine ⟨lo + (offset + 1), h.numbered.drop (offset + 1), ?_⟩
  simp only [length_drop, ← h.next]
  omega

end RmwAxon.QueueHistory
