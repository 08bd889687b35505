import RmwAxon.AclGate
import RmwAxon.PublishPaths

namespace RmwAxon.LoanedPublish

open EventMonitor PublishPaths PublisherQos RingBuffer RingHistory Function List Option
open Acl (Text)
open AclGate (firstSession literal secret)
open AclSession (SendError allows create setWorld shown)
open Qos (defaultSensor)
open RemoteFanout (publishPeers)
open RetainedHistory (noTables)
open Session (ringOf pruneBelow)
open SubscriberQueue (Timestamps)

variable {env : Env} {s : State} {t h n : Nat} {data : Bytes}

theorem recordStamp_eq_self {table : Timestamps} {k oldest now : Nat} (hold : oldest ≤ k) :
    recordStamp table k oldest now = table ↔
      table k = some now ∧ (k % 128 = 0 → ∀ j, j < oldest → table j = none) := by
  constructor
  · intro he
    refine ⟨?_, fun hmod j hj => ?_⟩
    · rw [← he, recordStamp]
      split_ifs
      · simp [pruneBelow, hold]
      · simp
    · rw [← he, recordStamp, if_pos hmod, pruneBelow, if_neg (Nat.not_le.mpr hj)]
  · rintro ⟨hk, hbelow⟩
    have hsame : update table k (some now) = table := by
      rw [← hk]
      exact update_eq_self k table
    rw [recordStamp, hsame]
    split_ifs with hmod
    · funext j
      unfold pruneBelow
      split_ifs with hj
      · rfl
      · exact (hbelow hmod j (Nat.lt_of_not_le hj)).symm
    · rfl

variable {α : Type}

theorem eq_of_append_eq_cons {x : α} {l : List α} {a : α} (h : l ++ [x] = a :: l) :
    a = x ∧ ∀ b ∈ l, b = x := by
  induction l generalizing a with
  | nil =>
    cases h
    exact ⟨rfl, by simp⟩
  | cons c l ih =>
    obtain ⟨rfl, hl⟩ := cons.inj h
    obtain ⟨rfl, hall⟩ := ih hl
    exact ⟨rfl, by simpa using hall⟩

theorem retained_eq_self (l : List α) (x : α) (d : Nat) :
    (l ++ [x]).drop (l.length + 1 - d) = l ↔ l = List.replicate d x := by
  constructor
  · intro h
    have hlen : d = l.length := by
      have := congrArg length h
      rw [length_drop, length_append, length_singleton] at this
      omega
    subst hlen
    rw [Nat.add_sub_cancel_left] at h
    cases l with
    | nil => rfl
    | cons a l =>
      obtain ⟨rfl, hall⟩ := eq_of_append_eq_cons h
      exact eq_replicate_iff.mpr ⟨rfl, by simpa using hall⟩
  · intro h
    subst h
    rw [length_replicate, Nat.add_sub_cancel_left, ← replicate_succ']
    rfl

theorem map_eq_self {f : α → α} {l : List α} : l.map f = l ↔ ∀ a ∈ l, f a = a := by
  have h := @List.map_inj_left α α l f id
  rwa [List.map_id] at h

theorem note_eq_self (m : Monitor) : note s t 0 m = m ↔ (∀ d ∈ m.deadlines, d.topic = t → d.last = s.now) ∧
      (assertsLiveliness s.tables t = true →
        ∀ l ∈ m.livelinesses, l.node = s.tables.nodeId → l.last = s.now) := by
  have hd : ∀ d : DeadlineMonitor, (if d.topic = t then { d with last := s.now } else d) = d ↔
      (d.topic = t → d.last = s.now) := by
    rintro ⟨⟩
    simp [eq_comm]
  have hl : ∀ l : LivelinessMonitor, (if l.node = s.tables.nodeId then { l with last := s.now } else l) = l ↔
        (l.node = s.tables.nodeId → l.last = s.now) := by
    rintro ⟨⟩
    simp [eq_comm]
  obtain ⟨events, tokens, next, deadlines, livelinesses⟩ := m
  cases ha : assertsLiveliness s.tables t with
  | false => simp [note, ha, updateDeadlinePublishTime, map_eq_self, hd]
  | true => simp [note, ha, updateDeadlinePublishTime, assertLiveliness, map_eq_self, hd, hl]

structure SameEffect (t : Nat) (p : Outcome (Except SendError Nat)) (q : Outcome Bool) : Prop where
  decision : (∃ seq, p.result = .ok seq) ↔ q.result = true
  message : ∀ seq h, p.result = .ok seq → q.state.tables.publishers t = some h → ∀ out,
    readSlot (ringOf q.state.world h) seq out = readSlot (ringOf p.state.world h) seq out
  timestamps : ∀ h, q.state.tables.publishers t = some h →
    (q.state.world.handles h).timestamps = (p.state.world.handles h).timestamps
  messageTimestamps : q.state.tables.messageTimestamps = p.state.tables.messageTimestamps
  monitor : q.state.monitor = p.state.monitor
  retained : q.state.retained = p.state.retained
  peers : ∀ peer, peer ∈ q.sends.map Send.peer ↔ peer ∈ p.sends.map Send.peer

def AlreadyStamped (table : Timestamps) (m : Ring) (now : Nat) : Prop :=
  table m.writeIndex = some now ∧
    (m.writeIndex % 128 = 0 → ∀ j, j < oldestNext m → table j = none)

/-- The call is let through, and all that it would note down is there before it. -/
structure NothingToNote (env : Env) (s : State) (t h : Nat) (data : Bytes) : Prop where
  allowed : allows env.glob s.session t = true
  inBudget : InBudget s t data
  stamped : AlreadyStamped (s.world.handles h).timestamps (ringOf s.world h) s.now
  topicStamped : AlreadyStamped (s.tables.messageTimestamps t) (ringOf s.world h) s.now
  deadlines : ∀ m, s.monitor = some m → ∀ d ∈ m.deadlines, d.topic = t → d.last = s.now
  liveliness : assertsLiveliness s.tables t = true → ∀ m, s.monitor = some m →
    ∀ l ∈ m.livelinesses, l.node = s.tables.nodeId → l.last = s.now
  retained : ∀ depth, retainDepth (delivered s.remote t) (cachedQos s.tables t) = some depth →
    s.retained t = List.replicate depth ((ringOf s.world h).writeIndex, data)
  unmatched : s.tables.quicTransport = true → publishPeers s.remote env.entry env.order t = []

theorem readSlot_fillSlot {m : Ring} {k : Nat} (hfit : data.length ≤ payloadCapacity m)
    (hk : m.writeIndex = k + 1) (out : Bytes) :
    readSlot (fillSlot m k data) k out = readMessage data out := by
  have hpos : 0 < slotCount m := m.geometry.slotCount_pos
  refine readSlot_of_holds ?_ ?_ ?_ out
  · rw [fillSlot_eq, slotAt_updateSlot_self]
    exact holds_of_fill _ k hfit
  · rw [fillSlot_writeIndex, hk]
    exact Nat.lt_succ_self k
  · rw [fillSlot_writeIndex, slotCount, fillSlot_geometry, hk]
    exact Nat.add_le_add_left hpos k

theorem oldestNext_le (m : Ring) : oldestNext m ≤ m.writeIndex := by
  have hpos : 0 < slotCount m := m.geometry.slotCount_pos
  unfold oldestNext
  omega

theorem monitor_eq_self : s.monitor = s.monitor.map (note s t 0) ↔
    (∀ m, s.monitor = some m → ∀ d ∈ m.deadlines, d.topic = t → d.last = s.now) ∧
      (assertsLiveliness s.tables t = true → ∀ m, s.monitor = some m →
        ∀ l ∈ m.livelinesses, l.node = s.tables.nodeId → l.last = s.now) := by
  cases s.monitor with
  | none => simp
  | some m =>
    rw [map_some, some.injEq, eq_comm, note_eq_self]
    simp only [some.injEq, forall_eq']

theorem retainRemoteSample_eq_self {tables : Session.Tables} {given : Bool} {l : List (Nat × Bytes)}
    {seq : Nat} :
    retainRemoteSample tables t given l seq data = l ↔
      ∀ depth, retainDepth given (cachedQos tables t) = some depth →
        l = List.replicate depth (seq, data) := by
  unfold retainRemoteSample
  cases retainDepth given (cachedQos tables t) with
  | none => simp
  | some depth => simpa using retained_eq_self l (seq, data) depth

section Compare

variable {q : Outcome Bool} (hh : s.tables.publishers t = some h)

include hh

theorem nothingToNote_of_same (hc : Committed s h data q)
    (hsame : SameEffect t (publishWithGid env s t data 0) q) : NothingToNote env s t h data := by
  have hlet : allows env.glob s.session t = true ∧ InBudget s t data := by
    by_contra hno
    obtain ⟨seq, hseq⟩ := hsame.decision.mpr hc.result
    exact publishWithGid_refused hno seq hseq
  have hp := publishWithGid_published hh hlet.1 hlet.2 hc.fits
  have hold := oldestNext_le (ringOf s.world h)
  have htime := hsame.timestamps h (by rw [hc.tables]; exact hh)
  rw [hc.handles, hp.timestamps] at htime
  have hmsg := hsame.messageTimestamps
  rw [hc.tables, hp.messageTimestamps, eq_update_self_iff] at hmsg
  have hmon := hsame.monitor
  rw [hc.monitor, hp.monitor, monitor_eq_self] at hmon
  have hret := hsame.retained
  rw [hc.retained, hp.retained, eq_update_self_iff] at hret
  refine ⟨hlet.1, hlet.2, (recordStamp_eq_self hold).mp htime.symm,
    (recordStamp_eq_self hold).mp hmsg.symm, hmon.1, hmon.2, retainRemoteSample_eq_self.mp hret.symm, ?_⟩
  intro hquic
  have hpeers := hsame.peers
  rw [hc.sends, hp.peers, if_pos hquic] at hpeers
  exact eq_nil_iff_forall_not_mem.mpr fun peer hmem => by simpa using (hpeers peer).mpr hmem

theorem same_of_nothingToNote (hc : Committed s h data q) (hnote : NothingToNote env s t h data) :
    SameEffect t (publishWithGid env s t data 0) q := by
  have hp := publishWithGid_published hh hnote.allowed hnote.inBudget hc.fits
  have hold := oldestNext_le (ringOf s.world h)
  have hpub (g : Nat) (hg : q.state.tables.publishers t = some g) : g = h := by
    rw [hc.tables, hh] at hg
    exact (some.inj hg).symm
  refine ⟨?_, ?_, ?_, ?_, ?_, ?_, ?_⟩
  · simp [hc.result, hp.result]
  · intro seq g hseq hg out
    obtain rfl := hpub g hg
    rw [hp.result] at hseq
    cases hseq
    obtain ⟨r, hr⟩ := hp.ring
    rw [hc.ring, hr]
    refine (readSlot_fillSlot ?_ ?_ out).trans (readSlot_fillSlot ?_ ?_ out).symm
    · exact hc.fits
    · rfl
    · exact hc.fits
    · rfl
  · intro g hg
    obtain rfl := hpub g hg
    rw [hc.handles, hp.timestamps, (recordStamp_eq_self hold).mpr hnote.stamped]
  · rw [hc.tables, hp.messageTimestamps, eq_update_self_iff]
    exact ((recordStamp_eq_self hold).mpr hnote.topicStamped).symm
  · rw [hc.monitor, hp.monitor]
    exact monitor_eq_self.mpr ⟨hnote.deadlines, hnote.liveliness⟩
  · rw [hc.retained, hp.retained, eq_update_self_iff]
    exact (retainRemoteSample_eq_self.mpr hnote.retained).symm
  · intro peer
    rw [hc.sends, hp.peers]
    split_ifs with hquic
    · rw [hnote.unmatched hquic]
      rfl
    · rfl

/-- The loan is as good as a publish exactly where a publish would only have
put the message into the ring. -/
theorem loan_as_publish_iff (hne : data ≠ []) (hn : data.length ≤ n)
    (hq : publishLoaned s t n data = some q) :
    SameEffect t (publishWithGid env s t data 0) q ↔ NothingToNote env s t h data := by
  have hc := publishLoaned_committed hh hne hn hq
  exact ⟨nothingToNote_of_same hh hc, same_of_nothingToNote hh hc⟩

/-- A number that has no timestamp before it is given out tells the two ways apart. -/
theorem fresh_number_differs (hne : data ≠ []) (hn : data.length ≤ n) (hq : publishLoaned s t n data = some q)
    (hfresh : (s.world.handles h).timestamps (ringOf s.world h).writeIndex = none) :
    ¬ SameEffect t (publishWithGid env s t data 0) q := by
  intro hsame
  have hnote := nothingToNote_of_same hh (publishLoaned_committed hh hne hn hq) hsame
  have hstamp := hnote.stamped.1
  rw [hfresh] at hstamp
  cases hstamp

end Compare

def noDaemon : Env := ⟨literal, ⟨false, 0, 0, []⟩, id⟩

def opened (rules : Option Text) (stamps : Timestamps) : State :=
  let a := create literal (firstSession rules) (.publisher none secret defaultSensor (.ok (0, 0)))
  { session := setWorld a { a.world with
      handles := fun _ => ⟨0, stamps, fun _ => none⟩
      session := { a.world.session with messageTimestamps := fun _ => stamps } }
    budgets := fun _ => none
    monitor := none
    retained := fun _ => []
    remote := noTables
    now := 9 }

/-- The rules admit the topic, and every number has the time of now. -/
def stampedRing : State := opened (some "/secret".toList) fun _ => some 9

theorem stamped_loan_same :
    ∃ q, publishLoaned stampedRing 5 1 [7] = some q ∧
      SameEffect 5 (publishWithGid noDaemon stampedRing 5 [7] 0) q := by
  obtain ⟨q, hq⟩ := isSome_iff_exists.mp
    (show (publishLoaned stampedRing 5 1 [7]).isSome = true by decide +kernel)
  have hpub : stampedRing.tables.publishers 5 = some 0 := by decide +kernel
  have hold : oldestNext (ringOf stampedRing.world 0) = 0 := by decide +kernel
  have hnote : NothingToNote noDaemon stampedRing 5 0 [7] := by
    refine ⟨by decide +kernel, ?_, ⟨rfl, ?_⟩, ⟨rfl, ?_⟩, ?_, ?_, ?_, ?_⟩
    · intro b hb
      cases hb
    · intro _ j hj
      rw [hold] at hj
      cases hj
    · intro _ j hj
      rw [hold] at hj
      cases hj
    · intro m hm
      cases hm
    · intro _ m hm
      cases hm
    · intro depth hd
      have hnone : retainDepth (delivered stampedRing.remote 5)
        (cachedQos stampedRing.tables 5) = none := by decide +kernel
      rw [hnone] at hd
      cases hd
    · intro hquic
      exact absurd hquic (by decide +kernel)
  exact ⟨q, hq, (loan_as_publish_iff hpub (by simp) (by decide) hq).mpr hnote⟩

/-- The rules deny the topic: the publish is refused, and the loan is read by everyone. -/
theorem denied_loan_published :
    ∃ q, publishLoaned (opened (some "/other".toList) fun _ => none) 5 1 [7] = some q ∧
      q.result = true ∧ shown (ringOf q.state.world 0) 0 = some [7] ∧
      (publishWithGid noDaemon (opened (some "/other".toList) fun _ => none) 5 [7] 0).result =
        .error .accessDenied ∧
      ¬ SameEffect 5 (publishWithGid noDaemon (opened (some "/other".toList) fun _ => none) 5 [7] 0) q := by
  obtain ⟨q, hq, hres, hshown⟩ := Transition.exists_of_any (show (publishLoaned
    (opened (some "/other".toList) fun _ => none) 5 1 [7]).any (fun q =>
      decide (q.result = true ∧ shown (ringOf q.state.world 0) 0 = some [7])) = true by decide +kernel)
  have hdenied : (publishWithGid noDaemon (opened (some "/other".toList) fun _ => none) 5 [7] 0).result =
      .error .accessDenied := by decide +kernel
  refine ⟨q, hq, hres, hshown, hdenied, fun hsame => ?_⟩
  obtain ⟨seq, hseq⟩ := hsame.decision.mpr hres
  rw [hdenied] at hseq
  cases hseq

end RmwAxon.LoanedPublish
