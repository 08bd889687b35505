import RmwAxon.Advertised

namespace RmwAxon.AdvertisedQos

open Advertised NodeTable Qos

/-- A duration as the daemon reads it out of the table. -/
def shown (d : Option Duration) : Nat :=
  (durationToEntryFields d).1 * nanosPerSec + (durationToEntryFields d).2

def Longer (a b : Option Duration) : Prop := ∃ c ∈ a, ∃ d ∈ b, d < c

def ShownLonger (a b : Option Duration) : Prop := 0 < shown a ∧ 0 < shown b ∧ shown b < shown a

variable {p s : QosProfile}

/-- A refusal that the two decisions have in common. -/
inductive Shared (p s : QosProfile) : Prop
  | reliability : p.reliability = .bestEffort → s.reliability = .reliable → Shared p s
  | durability : s.durability = .transientLocal → p.durability = .volatile → Shared p s
  | deadline : Longer p.deadline s.deadline → ShownLonger p.deadline s.deadline → Shared p s
  | topic : s.liveliness = .manualByTopic → p.liveliness = .automatic → Shared p s
  | participant : s.liveliness = .manualByParticipant → p.liveliness ≠ .manualByParticipant → Shared p s
  | lifespan : Longer s.lifespan p.lifespan → ShownLonger s.lifespan p.lifespan → Shared p s

/-- A refusal that the table hides. -/
inductive Overlooked (p s : QosProfile) : Prop
  | deadline : Longer p.deadline s.deadline → ¬ ShownLonger p.deadline s.deadline → Overlooked p s
  | lifespan : Longer s.lifespan p.lifespan → ¬ ShownLonger s.lifespan p.lifespan → Overlooked p s

/-- A refusal that only the table gives rise to. -/
inductive Invented (p s : QosProfile) : Prop
  | deadline : ¬ Longer p.deadline s.deadline → ShownLonger p.deadline s.deadline → Invented p s
  | liveliness : s.liveliness = .manualByTopic → p.liveliness = .unknown → Invented p s
  | lifespan : ¬ Longer s.lifespan p.lifespan → ShownLonger s.lifespan p.lifespan → Invented p s

theorem violates_iff {test : Duration → Duration → Bool} {a b : Option Duration} :
    violates test a b = true ↔ ∃ c ∈ a, ∃ d ∈ b, test c d = true := by
  cases a with
  | none => simp [violates]
  | some c =>
    cases b with
    | none | some => simp [violates]

theorem deadline_violated :
    violates (fun o r => decide (r < o)) p.deadline s.deadline = true ↔ Longer p.deadline s.deadline := by
  simp [violates_iff, Longer]

theorem lifespan_violated :
    violates (fun o r => decide (o < r)) p.lifespan s.lifespan = true ↔ Longer s.lifespan p.lifespan := by
  rw [violates_iff, Longer]
  constructor
  · rintro ⟨c, hc, d, hd, h⟩
    exact ⟨d, hd, c, hc, of_decide_eq_true h⟩
  · rintro ⟨d, hd, c, hc, h⟩
    exact ⟨c, hc, d, hd, decide_eq_true h⟩

theorem session_refuses : qosProfilesCompatible p s = false ↔ Shared p s ∨ Overlooked p s := by
  constructor
  · intro h
    rw [qosProfilesCompatible] at h
    split_ifs at h with hr hd hl ht hp hs
    · exact .inl (.reliability hr.1 hr.2)
    · exact .inl (.durability hd.1 hd.2)
    · rw [deadline_violated] at hl
      by_cases hshown : ShownLonger p.deadline s.deadline
      · exact .inl (.deadline hl hshown)
      · exact .inr (.deadline hl hshown)
    · exact .inl (.topic ht.1 ht.2)
    · exact .inl (.participant hp.1 hp.2)
    · rw [lifespan_violated] at hs
      by_cases hshown : ShownLonger s.lifespan p.lifespan
      · exact .inl (.lifespan hs hshown)
      · exact .inr (.lifespan hs hshown)
  · intro h
    rw [← Bool.not_eq_true]
    intro hc
    rw [qosProfilesCompatible] at hc
    split_ifs at hc with hr hd hl ht hp hs
    rw [deadline_violated] at hl
    rw [lifespan_violated] at hs
    rcases h with h | h
    · cases h with
      | reliability a b => exact hr ⟨a, b⟩
      | durability a b => exact hd ⟨a, b⟩
      | deadline a _ => exact hl a
      | topic a b => exact ht ⟨a, b⟩
      | participant a b => exact hp ⟨a, b⟩
      | lifespan a _ => exact hs a
    · cases h with
      | deadline a _ => exact hl a
      | lifespan a _ => exact hs a

section Entry

variable {o o' : Owner} {a b : Advert}

theorem livelinessField_one {l : Liveliness} : livelinessField l = 1 ↔ l = .manualByTopic := by
  cases l <;> decide

theorem livelinessField_two {l : Liveliness} : livelinessField l = 2 ↔ l = .manualByParticipant := by
  cases l <;> decide

theorem livelinessField_zero {l : Liveliness} : livelinessField l = 0 ↔ l = .automatic ∨ l = .unknown := by
  cases l <;> decide

theorem reliability_shown : ((topicEntry o a).qos.reliability = 0 ∧ (topicEntry o' b).qos.reliability = 1) ↔
      a.qos.reliability = .bestEffort ∧ b.qos.reliability = .reliable := by
  change (if _ then 1 else 0) = 0 ∧ (if _ then 1 else 0) = 1 ↔ _
  cases a.qos.reliability <;> cases b.qos.reliability <;> decide

theorem durability_shown : ((topicEntry o' b).qos.durability = 1 ∧ (topicEntry o a).qos.durability = 0) ↔
      b.qos.durability = .transientLocal ∧ a.qos.durability = .volatile := by
  change (if _ then 1 else 0) = 1 ∧ (if _ then 1 else 0) = 0 ↔ _
  cases a.qos.durability <;> cases b.qos.durability <;> decide

theorem daemon_refuses : topicEntryQosCompatible (topicEntry o a) (topicEntry o' b) = false ↔
      Shared a.qos b.qos ∨ Invented a.qos b.qos := by
  constructor
  · intro h
    simp only [topicEntryQosCompatible] at h
    split_ifs at h with hr hd hl ht hp hs
    · rw [reliability_shown] at hr
      exact .inl (.reliability hr.1 hr.2)
    · rw [durability_shown] at hd
      exact .inl (.durability hd.1 hd.2)
    · by_cases hlonger : Longer a.qos.deadline b.qos.deadline
      · exact .inl (.deadline hlonger hl)
      · exact .inr (.deadline hlonger hl)
    · obtain ⟨htopic, hzero⟩ := ht
      rcases livelinessField_zero.mp hzero with hauto | hunknown
      · exact .inl (.topic (livelinessField_one.mp htopic) hauto)
      · exact .inr (.liveliness (livelinessField_one.mp htopic) hunknown)
    · exact .inl (.participant (livelinessField_two.mp hp.1) fun h => hp.2 (livelinessField_two.mpr h))
    · by_cases hlonger : Longer b.qos.lifespan a.qos.lifespan
      · exact .inl (.lifespan hlonger ⟨hs.2.1, hs.1, hs.2.2⟩)
      · exact .inr (.lifespan hlonger ⟨hs.2.1, hs.1, hs.2.2⟩)
  · intro h
    rw [← Bool.not_eq_true]
    intro hc
    simp only [topicEntryQosCompatible] at hc
    split_ifs at hc with hr hd hl ht hp hs
    rw [reliability_shown] at hr
    rw [durability_shown] at hd
    rcases h with h | h
    · cases h with
      | reliability a b => exact hr ⟨a, b⟩
      | durability a b => exact hd ⟨a, b⟩
      | deadline _ b => exact hl b
      | topic a b => exact ht ⟨livelinessField_one.mpr a, livelinessField_zero.mpr (.inl b)⟩
      | participant a b => exact hp ⟨livelinessField_two.mpr a, fun h => b (livelinessField_two.mp h)⟩
      | lifespan _ b => exact hs ⟨b.2.1, b.1, b.2.2⟩
    · cases h with
      | deadline _ b => exact hl b
      | liveliness a b => exact ht ⟨livelinessField_one.mpr a, livelinessField_zero.mpr (.inr b)⟩
      | lifespan _ b => exact hs ⟨b.2.1, b.1, b.2.2⟩

/-- The daemon decides as the session does exactly if both refuse for a common
reason, or the table hides a refusal exactly where it gives rise to one. -/
theorem daemon_decides_as_session_iff (o o' : Owner) (a b : Advert) :
    topicEntryQosCompatible (topicEntry o a) (topicEntry o' b) = qosProfilesCompatible a.qos b.qos ↔
      Shared a.qos b.qos ∨ (Overlooked a.qos b.qos ↔ Invented a.qos b.qos) := by
  have hiff (x y : Bool) : x = y ↔ (x = false ↔ y = false) := by cases x <;> cases y <;> decide
  rw [hiff, daemon_refuses, session_refuses]
  -- The common refusals cancel, and the others have to come together.
  by_cases hc : Shared a.qos b.qos
  · simp [hc]
  · simp only [hc, false_or]
    exact iff_comm

end Entry

/-- Every duration that is set is positive and fits the table, and the liveliness
is one of the three policies. -/
structure Ordinary (q : QosProfile) : Prop where
  deadline : ∀ d ∈ q.deadline, 0 < d ∧ d < 2 ^ 32 * nanosPerSec
  lifespan : ∀ d ∈ q.lifespan, 0 < d ∧ d < 2 ^ 32 * nanosPerSec
  liveliness : q.liveliness ≠ .unknown

theorem shown_of_lt {d : Duration} (h : d < 2 ^ 32 * nanosPerSec) : shown (some d) = d := by
  have hsec : d / nanosPerSec < 2 ^ 32 := Nat.div_lt_of_lt_mul (by rwa [Nat.mul_comm])
  have hmin : min (d / nanosPerSec) (2 ^ 32 - 1) = d / nanosPerSec :=
    Nat.min_eq_left (Nat.le_sub_one_of_lt hsec)
  rw [shown, durationToEntryFields, hmin]
  exact Nat.div_add_mod' d nanosPerSec

theorem shownLonger_iff {a b : Option Duration} (ha : ∀ d ∈ a, 0 < d ∧ d < 2 ^ 32 * nanosPerSec)
    (hb : ∀ d ∈ b, 0 < d ∧ d < 2 ^ 32 * nanosPerSec) : ShownLonger a b ↔ Longer a b := by
  have hnone : shown none = 0 := rfl
  cases a with
  | none => simp [ShownLonger, Longer, hnone]
  | some c =>
    obtain ⟨hc, hc'⟩ := ha c rfl
    cases b with
    | none => simp [ShownLonger, Longer, hnone]
    | some d =>
      obtain ⟨hd, hd'⟩ := hb d rfl
      simp [ShownLonger, Longer, shown_of_lt hc', shown_of_lt hd', hc, hd]

/-- The table neither hides nor invents anything of ordinary profiles. -/
theorem Ordinary.read_alike (hp : Ordinary p) (hs : Ordinary s) : ¬ Overlooked p s ∧ ¬ Invented p s := by
  have hdeadline := shownLonger_iff hp.deadline hs.deadline
  have hlifespan := shownLonger_iff hs.lifespan hp.lifespan
  constructor
  · intro h
    cases h with
    | deadline a b => exact b (hdeadline.mpr a)
    | lifespan a b => exact b (hlifespan.mpr a)
  · intro h
    cases h with
    | deadline a b => exact a (hdeadline.mp b)
    | liveliness _ b => exact hp.liveliness b
    | lifespan a b => exact a (hlifespan.mp b)

def ownerless : Owner := ⟨"", ""⟩

def withDeadline (d : Duration) : Advert :=
  ⟨5, "/chatter", "std_msgs/msg/String", { defaultSensor with deadline := some d }⟩

/-- Both deadlines are longer than the seconds of the table can say. The session
refuses the publisher, and the daemon sees two equal deadlines. -/
theorem long_deadline_overlooked :
    qosProfilesCompatible (withDeadline (5000000000 * nanosPerSec)).qos
        (withDeadline (4500000000 * nanosPerSec)).qos = false ∧
      topicEntryQosCompatible (topicEntry ownerless (withDeadline (5000000000 * nanosPerSec)))
        (topicEntry ownerless (withDeadline (4500000000 * nanosPerSec))) = true := by
  decide

def durationFromFields (sec nsec : Nat) : Option Duration :=
  if sec = 0 ∧ nsec = 0 then none else some (sec * nanosPerSec + nsec)

def historyFromFields (kind : Nat) (depth : Int) : HistoryKind :=
  if kind = 0 then .keepAll else .keepLast (if depth ≤ 0 then 10 else depth.toNat)

/-- The fields that the table does not have are those of a command. -/
def entryFieldsToQos (e : EntryQos) : QosProfile where
  reliability := if e.reliability = 0 then .bestEffort else .reliable
  durability := if e.durability = 0 then .volatile else .transientLocal
  history := historyFromFields e.historyKind e.historyDepth
  bandwidthLimit := none
  maxMessageSize := defaultMaxMessageSize
  deadline := durationFromFields e.deadlineSec e.deadlineNsec
  lifespan := durationFromFields e.lifespanSec e.lifespanNsec
  liveliness :=
    if e.liveliness = 1 then .manualByTopic
    else if e.liveliness = 2 then .manualByParticipant
    else .automatic
  livelinessLeaseDuration := durationFromFields e.livelinessLeaseSec e.livelinessLeaseNsec

structure Representable (q : QosProfile) : Prop extends Ordinary q where
  lease : ∀ d ∈ q.livelinessLeaseDuration, 0 < d ∧ d < 2 ^ 32 * nanosPerSec
  depth : ∀ depth, q.history = .keepLast depth → 0 < depth ∧ depth < 2 ^ 31

theorem durationFromFields_toFields {d : Option Duration} (h : ∀ c ∈ d, 0 < c ∧ c < 2 ^ 32 * nanosPerSec) :
    durationFromFields (durationToEntryFields d).1 (durationToEntryFields d).2 = d := by
  cases d with
  | none => rfl
  | some c =>
    have hc : (durationToEntryFields (some c)).1 * nanosPerSec + (durationToEntryFields (some c)).2 = c :=
      shown_of_lt (h c rfl).2
    rw [durationFromFields, hc, if_neg]
    rintro ⟨hsec, hnsec⟩
    rw [hsec, hnsec] at hc
    exact (h c rfl).1.ne hc

theorem entryFieldsToQos_fields {q : QosProfile} (h : Representable q) :
    entryFieldsToQos (qosToEntryFields q) =
      { q with bandwidthLimit := none, maxMessageSize := defaultMaxMessageSize } := by
  obtain ⟨reliability, durability, history, _, _, _, _, liveliness, _⟩ := q
  simp only [entryFieldsToQos, qosToEntryFields, durationFromFields_toFields h.deadline,
    durationFromFields_toFields h.lifespan, durationFromFields_toFields h.lease, QosProfile.mk.injEq,
    and_true, true_and]
  refine ⟨by cases reliability <;> rfl, by cases durability <;> rfl, ?_, ?_⟩
  · cases history with
    | keepAll => rfl
    | keepLast depth =>
      obtain ⟨hpos, hlt⟩ := h.depth depth rfl
      have hmod : (depth : Int).bmod (2 ^ 32) = depth :=
        Int.bmod_eq_of_le (by omega) (by omega)
      rw [historyFields, hmod, historyFromFields, if_neg Nat.one_ne_zero, if_neg (by omega),
        Int.toNat_natCast]
  · cases liveliness with
    | unknown => exact absurd rfl h.liveliness
    | automatic | manualByTopic | manualByParticipant => rfl

/-- A profile comes back out of the table, and two of them are found compatible
there exactly if they are. -/
theorem decoded_alike {q : QosProfile} (hq : Representable q) : entryFieldsToQos (qosToEntryFields q) =
        { q with bandwidthLimit := none, maxMessageSize := defaultMaxMessageSize } ∧
      ∀ p, Representable p →
        qosProfilesCompatible (entryFieldsToQos (qosToEntryFields p))
          (entryFieldsToQos (qosToEntryFields q)) = qosProfilesCompatible p q := by
  refine ⟨entryFieldsToQos_fields hq, fun p hp => ?_⟩
  rw [entryFieldsToQos_fields hp, entryFieldsToQos_fields hq]
  rfl

theorem sensor_decoded :
    entryFieldsToQos (qosToEntryFields (withDeadline nanosPerSec).qos) = (withDeadline nanosPerSec).qos :=
  (decoded_alike ⟨⟨by decide, by decide, by decide⟩, by decide, by simp [withDeadline, defaultSensor]⟩).1

end RmwAxon.AdvertisedQos
