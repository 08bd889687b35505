import RmwAxon.ServiceRequest

namespace RmwAxon.RequestCall

open RingBuffer RingHistory ServiceEnvelope ServiceRequest List Option

variable {deserialize : Bytes → Bool} {first : Nat} {st st' : State} {r : Request}

def returned (s : Nat) (r : Request) : Returned := ⟨s, r.clientGid, r.requestSequence, r.payload⟩

def Ready (st : State) (r : Request) : Prop :=
  st.requests st.nextSeq = some r ∧ st.completed st.nextSeq = true

structure Waiting (deserialize : Bytes → Bool) (first : Nat) (st : State) : Prop where
  low : first ≤ st.nextSeq
  high : st.nextSeq ≤ st.ring.writeIndex
  window : st.ring.writeIndex ≤ st.nextSeq + slotCount st.ring
  sent : ∀ s r, st.requests s = some r → first ≤ s ∧ s < st.ring.writeIndex ∧
    r.frame.length ≤ payloadCapacity st.ring ∧ deserialize r.payload = true
  known : ∀ s, first ≤ s → s < st.ring.writeIndex → ∃ r, st.requests s = some r
  begun : ∀ s, st.completed s = true → ∃ r, st.requests s = some r
  passed : ∀ s, first ≤ s → s < st.nextSeq → st.completed s = true
  held : ∀ s r, st.requests s = some r → st.completed s = true → st.nextSeq ≤ s →
    Holds (slotAt st.ring s) s r.frame
  fresh : ∀ s, st.completed s = false → st.nextSeq ≤ s →
    (slotAt st.ring s).seq ≠ some s ∨ (slotAt st.ring s).len = 0

def AtPoint (st : State) : Point → Prop
  | .idle => True
  | .size attempt cap => 0 < cap ∧ (attempt = 0 ∨ ∃ r, Ready st r ∧ r.payload.length ≤ cap)
  | .receive attempt cap n =>
    0 < cap ∧ ∃ r, Ready st r ∧ n = r.frame.length ∧ (attempt = 0 ∨ r.payload.length ≤ cap)
  | .sizeAgain _ cap => ∃ r, Ready st r ∧ r.payload.length ≤ cap
  | .receiveAgain _ cap n => ∃ r, Ready st r ∧ n = r.frame.length ∧ r.payload.length ≤ cap
  | .index _ _ => st.nextSeq = st.ring.writeIndex

/-- How far a call is from its end. Between two calls the whole of the next one
is ahead. -/
def rank : Point → Nat
  | .idle => 8
  | .size attempt _ => if attempt = 0 then 7 else 5
  | .receive attempt _ _ => if attempt = 0 then 6 else 4
  | .sizeAgain _ _ => 3
  | .receiveAgain _ _ _ => 2
  | .index _ _ => 1

theorem rank_bounds (p : Point) : 0 < rank p ∧ rank p ≤ 8 := by
  cases p <;> grind [rank]

structure Inv (deserialize : Bytes → Bool) (first : Nat) (st : State) : Prop where
  waiting : Waiting deserialize first st
  ordered : st.taken.map some =
    (List.range' first (st.nextSeq - first)).map fun s => (st.requests s).map (returned s)
  kept : st.missed = false
  promise : st.promised = true → st.point ≠ .idle → st.completed st.nextSeq = true
  atPoint : AtPoint st st.point

theorem decode_frame (r : Request) :
    decodeServiceEnvelope r.frame = some (⟨1, r.clientGid, r.requestSequence⟩, r.payload) := by
  rw [Request.frame, decode_encode 1 r.clientGid r.lower r.upper]

theorem frame_ne_nil (r : Request) : r.frame ≠ [] :=
  encode_ne_nil 1 r.clientGid r.requestSequence r.payload

theorem payloadLen_frame (r : Request) : payloadLen r.frame = r.payload.length := by
  rw [payloadLen, decode_frame]
  rfl

theorem Ready.below (h : Waiting deserialize first st) (hr : Ready st r) : st.nextSeq < st.ring.writeIndex :=
  (h.sent _ _ hr.1).2.1

theorem Inv.returned_mem (h : Inv deserialize first st) {s : Nat} (hfirst : first ≤ s)
    (hs : s < st.nextSeq) : ∃ r ∈ st.requests s, returned s r ∈ st.taken := by
  obtain ⟨r, hr⟩ := h.waiting.known s hfirst (hs.trans_le h.waiting.high)
  have hmem : some (returned s r) ∈ st.taken.map some := by
    rw [h.ordered]
    exact mem_map.mpr ⟨s, mem_range'_1.mpr ⟨hfirst, by omega⟩, by rw [hr]; rfl⟩
  obtain ⟨x, hx, heq⟩ := mem_map.mp hmem
  cases heq
  exact ⟨r, hr, hx⟩

def looksAtIndex : Point → Bool
  | .index _ _ => true
  | _ => false

/-- What is known at a point lasts while requests come in, and a request is not
begun between the last two looks of a call. -/
theorem AtPoint.mono {p : Point} (h : AtPoint st p) (hn : st'.nextSeq = st.nextSeq)
    (hr : ∀ r, Ready st r → Ready st' r)
    (hw : st'.ring.writeIndex = st.ring.writeIndex ∨ looksAtIndex p = false) :
    AtPoint st' p := by
  cases p with
  | idle => trivial
  | size attempt cap =>
    refine ⟨h.1, h.2.imp_right ?_⟩
    rintro ⟨r, hready, hfit⟩
    exact ⟨r, hr r hready, hfit⟩
  | receive attempt cap n =>
    obtain ⟨hcap, r, hready, hrest⟩ := h
    exact ⟨hcap, r, hr r hready, hrest⟩
  | sizeAgain attempt cap =>
    obtain ⟨r, hready, hfit⟩ := h
    exact ⟨r, hr r hready, hfit⟩
  | receiveAgain attempt cap n =>
    obtain ⟨r, hready, hrest⟩ := h
    exact ⟨r, hr r hready, hrest⟩
  | index attempt cap =>
    have hsame := hw.resolve_right (by simp [looksAtIndex])
    exact hn.trans (h.trans hsame.symm)

theorem giveUp_of_incomplete (h : Inv deserialize first st) (hp : st.point ≠ .idle)
    (hc : st.completed st.nextSeq = false) : giveUp st = { st with point := .idle } := by
  have hfalse : st.promised = false := by
    by_contra htrue
    rw [h.promise (Bool.not_eq_false _ ▸ htrue) hp] at hc
    cases hc
  simp [giveUp, hfalse]

section Look

variable {attempt cap : Nat} {next : Nat → Point}

theorem messageSize_ready (h : Waiting deserialize first st) (hr : Ready st r) :
    messageSize st attempt cap next = { st with point := next r.frame.length } := by
  have hheld := h.held _ r hr.1 hr.2 (Nat.le_refl _)
  rw [messageSize, slotDataSize_of_holds hheld (hr.below h) h.window, if_neg (frame_ne_nil r)]

theorem read_ready (h : Waiting deserialize first st) (hr : Ready st r) : ∃ m, SameSlots m st.ring ∧
      read st.ring st.nextSeq (List.replicate r.frame.length 0) = (.ok r.frame.length, r.frame, m) := by
  have hheld := h.held _ r hr.1 hr.2 (Nat.le_refl _)
  have hslot := readSlot_whole hheld (hr.below h) h.window (frame_ne_nil r)
  refine ⟨_, read_frame st.ring st.nextSeq (replicate r.frame.length 0), ?_⟩
  rw [RingBuffer.read, hslot]

end Look

structure GoesOn (st : State) (allocated : Bool) (m : Ring) (p : Point) : Prop where
  same : SameSlots m st.ring
  atPoint : AtPoint st p
  ended : p = .idle → st.completed st.nextSeq = false ∨ allocated = false
  closer : p ≠ .idle → rank p < rank st.point

section Points

variable {allocated : Bool} {attempt cap n : Nat}

variable (h : Inv deserialize first st)
include h

theorem look_goes_on {next : Nat → Point} (hp : st.point ≠ .idle) (hrank : 1 < rank st.point)
    (hnext : ∀ r, Ready st r → AtPoint st (next r.frame.length) ∧ next r.frame.length ≠ .idle ∧
      rank (next r.frame.length) < rank st.point) :
    ∃ p, GoesOn st allocated st.ring p ∧ messageSize st attempt cap next = { st with point := p } := by
  have hw := h.waiting
  rcases Nat.eq_or_lt_of_le hw.high with heq | hlt
  · refine ⟨.index attempt cap, ⟨.refl _, heq, by simp, fun _ => hrank⟩, ?_⟩
    rw [messageSize, slotDataSize_future (Nat.le_of_eq heq.symm)]
    rfl
  cases hc : st.completed st.nextSeq with
  | false =>
    refine ⟨.idle, ⟨.refl _, trivial, fun _ => .inl hc, fun hne => absurd rfl hne⟩, ?_⟩
    rw [← giveUp_of_incomplete h hp hc, messageSize,
      slotDataSize_incomplete hlt hw.window (hw.fresh _ hc (Nat.le_refl _))]
    rfl
  | true =>
    obtain ⟨r, hr⟩ := hw.known _ hw.low hlt
    obtain ⟨hat, hne, hlt⟩ := hnext r ⟨hr, hc⟩
    exact ⟨_, ⟨.refl _, hat, fun he => absurd he hne, fun _ => hlt⟩, messageSize_ready hw ⟨hr, hc⟩⟩

theorem size_goes_on (hp : st.point = .size attempt cap) : ∃ p, GoesOn st allocated st.ring p ∧
      messageSize st attempt cap (.receive attempt cap) = { st with point := p } := by
  have hat := h.atPoint
  rw [hp] at hat
  refine look_goes_on h (by simp [hp]) (by rw [hp, rank]; split_ifs <;> decide) fun r hr =>
    ⟨⟨hat.1, r, hr, rfl, hat.2.imp_right ?_⟩, by simp, ?_⟩
  · rintro ⟨r', hr', hfit⟩
    rwa [some.inj (hr.1.symm.trans hr'.1)]
  · rw [hp, rank, rank]
    split_ifs <;> decide

theorem sizeAgain_goes_on (hp : st.point = .sizeAgain attempt cap) : ∃ p, GoesOn st allocated st.ring p ∧
      messageSize st attempt cap (.receiveAgain attempt cap) = { st with point := p } := by
  have hat := h.atPoint
  rw [hp] at hat
  refine look_goes_on h (by simp [hp]) (by simp [hp, rank]) fun r hr =>
    ⟨⟨r, hr, rfl, ?_⟩, by simp, by simp [hp, rank]⟩
  obtain ⟨r', hr', hfit⟩ := hat
  rwa [some.inj (hr.1.symm.trans hr'.1)]

theorem receive_goes_on (hp : st.point = .receive attempt cap n) :
    ∃ m p, GoesOn st allocated m p ∧ advance deserialize allocated st (.receive attempt cap n) =
        some { st with ring := m, point := p } := by
  have hat := h.atPoint
  rw [hp] at hat
  obtain ⟨hcap, r, hr, rfl, hfit⟩ := hat
  obtain ⟨m, hm, hread⟩ := read_ready h.waiting hr
  simp only [advance, hread, take_length, payloadLen_frame, Nat.ne_of_gt hcap, false_or]
  by_cases hlarge : cap < r.payload.length
  · have hzero : attempt = 0 := hfit.resolve_right (Nat.not_le.mpr hlarge)
    subst hzero
    rw [if_pos hlarge]
    cases allocated with
    | false => exact ⟨m, .idle, ⟨hm, trivial, fun _ => .inr rfl, fun hne => absurd rfl hne⟩, rfl⟩
    | true =>
      exact ⟨m, .size 1 r.payload.length, ⟨hm, ⟨by omega, .inr ⟨r, hr, Nat.le_refl _⟩⟩, by simp,
        by simp [hp, rank]⟩, rfl⟩
  · rw [if_neg hlarge]
    refine ⟨m, .sizeAgain attempt cap, ⟨hm, ⟨r, hr, Nat.le_of_not_lt hlarge⟩, by simp, fun _ => ?_⟩, rfl⟩
    rw [hp, rank, rank]
    split_ifs <;> decide

theorem receiveAgain_takes (hp : st.point = .receiveAgain attempt cap n) :
    ∃ m r, SameSlots m st.ring ∧ Ready st r ∧
      advance deserialize allocated st (.receiveAgain attempt cap n) = some { st with
        ring := m, nextSeq := st.nextSeq + 1, point := .idle
        taken := st.taken ++ [returned st.nextSeq r] } := by
  have hat := h.atPoint
  rw [hp] at hat
  obtain ⟨r, hr, rfl, hfit⟩ := hat
  obtain ⟨m, hm, hread⟩ := read_ready h.waiting hr
  have hok := (h.waiting.sent _ _ hr.1).2.2.2
  refine ⟨m, r, hm, hr, ?_⟩
  simp only [advance, hread, take_length, takeWithInfo, decode_frame, Nat.not_lt.mpr hfit,
    ne_eq, not_true_eq_false, false_or, if_false, give, hok, if_true]
  rfl

theorem index_goes_on (hp : st.point = .index attempt cap) : GoesOn st allocated st.ring .idle ∧
      advance deserialize allocated st (.index attempt cap) = some { st with point := .idle } := by
  have heq := h.atPoint
  rw [hp] at heq
  have hc : st.completed st.nextSeq = false := by
    by_contra hdone
    obtain ⟨r, hr⟩ := h.waiting.begun _ (Bool.not_eq_false _ ▸ hdone)
    exact absurd heq (Nat.ne_of_lt (h.waiting.sent _ _ hr).2.1)
  refine ⟨⟨.refl _, trivial, fun _ => .inl hc, fun hne => absurd rfl hne⟩, ?_⟩
  rw [advance, currentSeq, ← heq, if_neg (Nat.lt_irrefl _), giveUp_of_incomplete h (by simp [hp]) hc]

theorem advance_cases (hs : advance deserialize allocated st st.point = some st') :
    (∃ m p, GoesOn st allocated m p ∧ st' = { st with ring := m, point := p }) ∨
      ∃ m r, SameSlots m st.ring ∧ Ready st r ∧ st' = { st with
        ring := m, nextSeq := st.nextSeq + 1, point := .idle
        taken := st.taken ++ [returned st.nextSeq r] } := by
  cases hp : st.point with
  | idle =>
    rw [hp] at hs
    cases hs
  | size attempt cap =>
    obtain ⟨p, hgo, heq⟩ := size_goes_on h hp
    rw [hp, advance, heq, some.injEq] at hs
    exact .inl ⟨_, p, hgo, hs.symm⟩
  | receive attempt cap n =>
    obtain ⟨m, p, hgo, heq⟩ := receive_goes_on h hp
    rw [hp, heq, some.injEq] at hs
    exact .inl ⟨m, p, hgo, hs.symm⟩
  | sizeAgain attempt cap =>
    obtain ⟨p, hgo, heq⟩ := sizeAgain_goes_on h hp
    rw [hp, advance, heq, some.injEq] at hs
    exact .inl ⟨_, p, hgo, hs.symm⟩
  | receiveAgain attempt cap n =>
    obtain ⟨m, r, hm, hr, heq⟩ := receiveAgain_takes h hp
    rw [hp, heq, some.injEq] at hs
    exact .inr ⟨m, r, hm, hr, hs.symm⟩
  | index attempt cap =>
    obtain ⟨hgo, heq⟩ := index_goes_on h hp
    rw [hp, heq, some.injEq] at hs
    exact .inl ⟨_, .idle, hgo, hs.symm⟩

end Points

structure Later (st st' : State) : Prop where
  next : st.nextSeq ≤ st'.nextSeq
  taken : ∀ x ∈ st'.taken, x ∈ st.taken ∨ x.seq = st.nextSeq

section Later

variable {attempt cap : Nat}

theorem retry_later (h : Later st st') : Later st (retry st' attempt cap) := by
  rw [retry]
  split_ifs <;> exact ⟨h.next, h.taken⟩

theorem failed_later (e : RingError) (h : Later st st') : Later st (failed st' attempt cap e) := by
  rw [failed]
  split_ifs <;> exact ⟨h.next, h.taken⟩

theorem takeWithInfo_later (m : Ring) (data : Bytes) :
    Later st (takeWithInfo deserialize { st with ring := m } attempt cap data) := by
  have hgive : ∀ gid seq payload, Later st (give deserialize { st with ring := m } gid seq payload) := by
    intro gid seq payload
    simp only [give]
    split_ifs
    · refine ⟨Nat.le_succ _, fun x hx => ?_⟩
      rcases mem_append.mp hx with hx | hx
      · exact .inl hx
      · exact .inr (by rw [mem_singleton.mp hx, Nat.add_sub_cancel])
    · exact ⟨Nat.le_succ _, fun _ hx => .inl hx⟩
  rw [takeWithInfo]
  split
  · split_ifs
    · exact ⟨Nat.le_refl _, fun _ hx => .inl hx⟩
    · exact hgive _ _ _
  · split_ifs
    · exact ⟨Nat.le_refl _, fun _ hx => .inl hx⟩
    · exact hgive _ _ _

theorem advance_later {allocated : Bool} {p : Point}
    (hs : advance deserialize allocated st p = some st') : Later st st' := by
  have hsame : ∀ m q, Later st { st with ring := m, point := q } := fun _ _ =>
    ⟨Nat.le_refl _, fun _ hx => .inl hx⟩
  cases p with
  | idle => cases hs
  | size | sizeAgain =>
    cases hs
    rw [messageSize]
    split
    · exact ⟨Nat.le_refl _, fun _ hx => .inl hx⟩
    · exact failed_later _ ⟨Nat.le_refl _, fun _ hx => .inl hx⟩
  | receive attempt cap n =>
    simp only [advance] at hs
    split at hs
    · cases hs
      split_ifs
      · exact retry_later (hsame _ st.point)
      · exact hsame _ _
      · exact hsame _ _
    · cases hs
      exact failed_later _ (hsame _ st.point)
  | receiveAgain attempt cap n =>
    simp only [advance] at hs
    split at hs
    · cases hs
      exact takeWithInfo_later _ _
    · cases hs
      exact failed_later _ (hsame _ st.point)
  | index attempt cap =>
    cases hs
    split_ifs with hlt
    · exact retry_later ⟨Nat.le_of_lt hlt, fun _ hx => .inl hx⟩
    · exact ⟨Nat.le_refl _, fun _ hx => .inl hx⟩

theorem step_later {e : Event} (hs : step deserialize st e = some st') : Later st st' := by
  cases e with
  | reserve | call =>
    rw [step] at hs
    split_ifs at hs
    cases hs
    exact ⟨Nat.le_refl _, fun _ hx => .inl hx⟩
  | complete s =>
    obtain ⟨r, _, hs⟩ := bind_eq_some_iff.mp hs
    split_ifs at hs
    cases hs
    exact ⟨Nat.le_refl _, fun _ hx => .inl hx⟩
  | act allocated => exact advance_later hs

end Later

end RmwAxon.RequestCall
