import RmwAxon.ReplayCache

namespace RmwAxon.ReplayRun

open NodeTable (Text)
open QkdEnvelope ReplayCache Transition List
open SyncWire (Bytes)

structure Kept (aead : Aead) (s : State) : Prop where
  covered : ∀ k ∈ recent qkdReplayCacheSize s.accepted, k ∈ s.seen
  genuine : ∀ o ∈ s.accepted, ∃ envelope data, readEnvelope o.context o.wire = .ok envelope ∧
    o.answers.store = .ok () ∧ unlock aead o.context envelope o.answers = .ok data

section Step

variable {aead : Aead} {s t : State} {call : Call} {envelope : Envelope}

theorem offerKey_of_read {offer : Offer} (h : readEnvelope offer.context offer.wire = .ok envelope) :
    offerKey offer = some (replayKey envelope) := by
  rw [offerKey, h]
  rfl

theorem step_eq (h : step aead s call = some t) : (qkdReplayCacheSize ≤ s.seen.card → call.oldest ∈ s.seen) ∧
      t.seen = (openWire aead call.oldest call.offer s.seen).2 ∧
      t.accepted = if accepts aead s.seen call then call.offer :: s.accepted else s.accepted := by
  rw [step] at h
  by_cases holdest : qkdReplayCacheSize ≤ s.seen.card ∧ call.oldest ∉ s.seen
  · rw [if_pos holdest] at h
    cases h
  rw [if_neg holdest] at h
  cases h
  exact ⟨fun hfull => not_not.mp fun hmem => holdest ⟨hfull, hmem⟩, rfl, rfl⟩

inductive Effect (aead : Aead) (s : State) (call : Call) : State → Prop
  | stale : (¬ ∃ envelope, Fresh call.offer s.seen envelope) → Effect aead s call s
  | failed (envelope : Envelope) : Fresh call.offer s.seen envelope → accepts aead s.seen call = false →
      Effect aead s call ⟨makeRoom call.oldest s.seen, s.accepted⟩
  | opened (envelope : Envelope) (data : Bytes) : Fresh call.offer s.seen envelope →
      unlock aead call.offer.context envelope call.offer.answers = .ok data →
      accepts aead s.seen call = true →
      Effect aead s call
        ⟨insert (replayKey envelope) (makeRoom call.oldest s.seen), call.offer :: s.accepted⟩

theorem step_effect (h : step aead s call = some t) : Effect aead s call t := by
  obtain ⟨-, hseen, haccepted⟩ := step_eq h
  obtain ⟨seen, accepted⟩ := t
  simp only at hseen haccepted
  by_cases hfresh : ∃ envelope, Fresh call.offer s.seen envelope
  · obtain ⟨envelope, hfresh⟩ := hfresh
    cases hdata : unlock aead call.offer.context envelope call.offer.answers with
    | error error =>
      have hopen := openWire_failed call.oldest hfresh hdata
      have hnot : accepts aead s.seen call = false := by
        rw [accepts, hopen]
        rfl
      rw [hnot] at haccepted
      rw [hopen] at hseen
      subst hseen haccepted
      exact .failed envelope hfresh hnot
    | ok data =>
      obtain ⟨payload, hopen⟩ := openWire_unlocked call.oldest hfresh hdata
      have hyes : accepts aead s.seen call = true := by
        rw [accepts, hopen]
        rfl
      rw [hyes, if_pos rfl] at haccepted
      rw [hopen] at hseen
      subst hseen haccepted
      exact .opened envelope data hfresh hdata hyes
  · obtain ⟨error, hopen⟩ := openWire_stale call.oldest aead hfresh
    have hnot : accepts aead s.seen call = false := by
      rw [accepts, hopen]
      rfl
    rw [hnot] at haccepted
    rw [hopen] at hseen
    subst hseen haccepted
    exact .stale hfresh

theorem mem_makeRoom {oldest k : Bytes} {seen : Finset Bytes} (hk : k ∈ seen)
    (hne : qkdReplayCacheSize ≤ seen.card → k ≠ oldest) : k ∈ makeRoom oldest seen := by
  unfold makeRoom
  split_ifs with hfull
  · exact Finset.mem_erase.mpr ⟨hne hfull, hk⟩
  · exact hk

theorem step_kept (hs : Kept aead s) (hspares : Spares aead s call) (h : step aead s call = some t) :
    Kept aead t := by
  cases step_effect h with
  | stale _ => exact hs
  | failed envelope hfresh hnot =>
    refine ⟨fun k hk => mem_makeRoom (hs.covered k hk) fun hfull => ?_, hs.genuine⟩
    rintro rfl
    have hnot' := hspares ⟨envelope, hfresh⟩ hfull
    rw [hnot] at hnot'
    exact hnot' hk
  | opened envelope data hfresh hdata hyes =>
    constructor
    · intro k hk
      rw [show qkdReplayCacheSize = (qkdReplayCacheSize - 1) + 1 from rfl,
        recent, take_succ_cons, filterMap_cons_some (offerKey_of_read hfresh.read), ← recent] at hk
      rcases mem_cons.mp hk with rfl | hk
      · exact Finset.mem_insert_self ..
      refine Finset.mem_insert_of_mem (mem_makeRoom ?_ fun hfull => ?_)
      · exact hs.covered k (((take_sublist_take_left (Nat.sub_le _ 1)).filterMap offerKey).subset hk)
      rintro rfl
      have hnot' := hspares ⟨envelope, hfresh⟩ hfull
      rw [hyes, if_pos rfl] at hnot'
      exact hnot' hk
    · intro o ho
      rcases mem_cons.mp ho with rfl | ho
      · exact ⟨envelope, data, hfresh.read, hfresh.store, hdata⟩
      · exact hs.genuine o ho

theorem accepts_again (hs : Kept aead s) {o : Offer} (ho : o ∈ s.accepted) {k : Bytes}
    (hk : offerKey o = some k) {seen : Finset Bytes} (hnew : k ∉ seen) (oldest : Bytes) :
    accepts aead seen ⟨o, oldest⟩ = true := by
  obtain ⟨envelope, data, hread, hstore, hdata⟩ := hs.genuine o ho
  rw [offerKey_of_read hread] at hk
  cases hk
  exact accepts_iff.mpr ⟨envelope, ⟨hread, hstore, hnew⟩, data, hdata⟩

theorem replay_refused (hs : Kept aead s) {o : Offer} (ho : o ∈ s.accepted.take qkdReplayCacheSize)
    (hwire : call.offer.wire = o.wire) : accepts aead s.seen call = false := by
  rw [Bool.eq_false_iff]
  intro h
  obtain ⟨envelope, hfresh, -⟩ := accepts_iff.mp h
  obtain ⟨envelope', -, hread, -⟩ := hs.genuine o (mem_of_mem_take ho)
  have hsame : envelope = envelope' := readEnvelope_unique (hwire ▸ hfresh.read) hread
  refine hfresh.new (hs.covered _ (mem_recent.mpr ⟨o, ho, ?_⟩))
  rw [offerKey_of_read hread, hsame]

/-- A call that does not spare the keys leaves one of the last envelopes to be
accepted again. -/
theorem replay_accepted (hs : Kept aead s) (h : step aead s call = some t) (hspares : ¬ Spares aead s call) :
    ∃ o ∈ t.accepted.take qkdReplayCacheSize, ∀ oldest, accepts aead t.seen ⟨o, oldest⟩ = true := by
  obtain ⟨holdest, -, -⟩ := step_eq h
  simp only [Spares, not_forall, not_not] at hspares
  obtain ⟨⟨envelope, hfresh⟩, hfull, hmem⟩ := hspares
  have hgone : call.oldest ∉ makeRoom call.oldest s.seen := by
    rw [makeRoom, if_pos hfull]
    exact Finset.notMem_erase call.oldest s.seen
  cases step_effect h with
  | stale hstale => exact absurd ⟨envelope, hfresh⟩ hstale
  | failed _ _ hnot =>
    rw [hnot] at hmem
    obtain ⟨o, ho, hkey⟩ := mem_recent.mp hmem
    exact ⟨o, ho, fun oldest => accepts_again hs (mem_of_mem_take ho) hkey hgone oldest⟩
  | opened envelope' data hfresh' hdata hyes =>
    rw [hyes, if_pos rfl] at hmem
    obtain ⟨o, ho, hkey⟩ := mem_recent.mp hmem
    refine ⟨o, ?_, fun oldest => accepts_again hs (mem_of_mem_take ho) hkey ?_ oldest⟩
    · rw [show qkdReplayCacheSize = (qkdReplayCacheSize - 1) + 1 from rfl, take_succ_cons]
      exact mem_cons_of_mem _ ho
    · rw [Finset.mem_insert, not_or]
      refine ⟨fun heq => ?_, hgone⟩
      exact hfresh'.new (heq ▸ holdest hfull)

theorem step_opened (hroom : s.seen.card < qkdReplayCacheSize) (hfresh : Fresh call.offer s.seen envelope)
    {data : Bytes} (hdata : unlock aead call.offer.context envelope call.offer.answers = .ok data) :
    step aead s call = some ⟨insert (replayKey envelope) s.seen, call.offer :: s.accepted⟩ := by
  obtain ⟨payload, hopen⟩ := openWire_unlocked call.oldest hfresh hdata
  rw [makeRoom, if_neg (by omega)] at hopen
  rw [step, if_neg (by omega), accepts, hopen]
  rfl

theorem step_failed (call : Call) (hfull : qkdReplayCacheSize ≤ s.seen.card) (holdest : call.oldest ∈ s.seen)
    (hfresh : Fresh call.offer s.seen envelope) {error : String}
    (herror : unlock aead call.offer.context envelope call.offer.answers = .error error) :
    ∃ t, step aead s call = some t ∧ t.accepted = s.accepted ∧ call.oldest ∉ t.seen := by
  refine ⟨⟨s.seen.erase call.oldest, s.accepted⟩, ?_, rfl, Finset.notMem_erase _ _⟩
  rw [step, if_neg (fun h => h.2 holdest), accepts, openWire_failed call.oldest hfresh herror, makeRoom,
    if_pos hfull]
  rfl

theorem run_fills {count : Nat} (hcount : count ≤ qkdReplayCacheSize) {offer : Nat → Offer}
    {key : Nat → Bytes}
    (hgenuine : ∀ i < count, ∃ envelope data, readEnvelope (offer i).context (offer i).wire = .ok envelope ∧
      replayKey envelope = key i ∧ (offer i).answers.store = .ok () ∧
      unlock aead (offer i).context envelope (offer i).answers = .ok data)
    (hkeys : ∀ i < count, ∀ j < count, key i = key j → i = j) :
    run (step aead) ((List.range count).map fun i => ⟨offer i, []⟩) start =
      some ⟨(Finset.range count).image key, ((List.range count).map offer).reverse⟩ := by
  induction count with
  | zero => rfl
  | succ m ih =>
    have hrun := ih (by omega) (fun i hi => hgenuine i (by omega)) fun i hi j hj =>
      hkeys i (by omega) j (by omega)
    obtain ⟨envelope, data, hread, hkey, hstore, hdata⟩ := hgenuine m (by omega)
    have hcard : ((Finset.range m).image key).card ≤ m :=
      Finset.card_image_le.trans (Finset.card_range m).le
    have hnew : key m ∉ (Finset.range m).image key := by
      intro hmem
      obtain ⟨i, hi, heq⟩ := Finset.mem_image.mp hmem
      have hlt := Finset.mem_range.mp hi
      exact absurd (hkeys i (by omega) m (by omega) heq) (by omega)
    rw [range_succ, map_append, run_append, hrun, Option.bind_some, map_singleton, run,
      step_opened (by simp only; omega) ⟨hread, hstore, hkey ▸ hnew⟩ hdata, hkey, Finset.range_add_one,
      Finset.image_insert]
    simp [run]

end Step

/-- An envelope is accepted once while it is one of the last that were, as long
as every call spares their keys; one that does not is all that a replay takes. -/
theorem envelope_accepted_once (aead : Aead) (s : State) (hs : Reach (step aead) (Spares aead) start s) :
    (∀ o ∈ s.accepted.take qkdReplayCacheSize, ∀ call : Call, call.offer.wire = o.wire →
      accepts aead s.seen call = false) ∧
    ∀ call t, step aead s call = some t → ¬ Spares aead s call →
      ∃ o ∈ t.accepted.take qkdReplayCacheSize, ∀ oldest, accepts aead t.seen ⟨o, oldest⟩ = true := by
  have hkept : Kept aead s := by
    refine hs.invariant ⟨?_, ?_⟩ fun s a t h ha hstep => step_kept h ha hstep
    · simp [start, recent]
    · simp [start]
  exact ⟨fun o ho call hwire => replay_refused hkept ho hwire,
    fun call t h hspares => replay_accepted hkept h hspares⟩

def senderOf (i : Nat) : Text := [UInt8.ofNat (65 + i / 260 % 26)]

def keyIdOf (i : Nat) : Text := [UInt8.ofNat (65 + i / 10 % 26)]

def sealedWith (byte : UInt8) (i : Nat) : Bytes :=
  (sealWithMaterial tagged (senderOf i) ⟨.topic, 7⟩ (List.replicate 32 byte) (keyIdOf i)
    (some (Endian.toBe 12 i)) []).toOption.getD []

def message (byte : UInt8) (i : Nat) : Offer :=
  ⟨sealedWith byte i, ⟨.topic, 7⟩, .ok (), .ready (List.replicate 32 9), .ok ()⟩

def messageKey (i : Nat) : Bytes := senderOf i ++ [0] ++ keyIdOf i ++ [0] ++ Endian.toBe 12 i

def filled : State :=
  ⟨(Finset.range qkdReplayCacheSize).image messageKey,
    ((List.range qkdReplayCacheSize).map (message 9)).reverse⟩

theorem validUtf8_letter (k : Nat) : SyncWire.validUtf8 [UInt8.ofNat (65 + k % 26)] = true := by
  have hletters : ∀ a : Fin 26, SyncWire.validUtf8 [UInt8.ofNat (65 + a)] = true := by decide +kernel
  exact hletters ⟨k % 26, Nat.mod_lt _ (by decide)⟩

theorem message_read (byte : UInt8) (i : Nat) :
    ∃ envelope, readEnvelope ⟨.topic, 7⟩ (sealedWith byte i) = .ok envelope ∧
      replayKey envelope = messageKey i ∧
      openWithMaterial tagged ⟨.topic, 7⟩ envelope (List.replicate 32 byte) = .ok [] := by
  have hsealed : sealWithMaterial tagged (senderOf i) ⟨.topic, 7⟩ (replicate 32 byte) (keyIdOf i)
      (some (Endian.toBe 12 i)) [] = .ok (sealedWith byte i) := rfl
  obtain ⟨envelope, hread, hkeyId, hsender, hnonce, hopen⟩ :=
    open_sealWithMaterial hsealed (by decide) (Endian.toBe_length 12 i) (validUtf8_letter _)
      (validUtf8_letter _)
  refine ⟨envelope, hread, ?_, hopen⟩
  rw [replayKey, messageKey, hkeyId, hsender, hnonce]

theorem first_message_refused_again :
    ∃ s, run (step tagged) [⟨message 9 0, []⟩] start = some s ∧ s.accepted = [message 9 0] ∧
      accepts tagged s.seen ⟨message 9 0, []⟩ = false := by
  obtain ⟨envelope, hread, -, hopen⟩ := message_read 9 0
  have hstep : step tagged start ⟨message 9 0, []⟩ = some ⟨{replayKey envelope}, [message 9 0]⟩ :=
    step_opened (by decide) ⟨hread, rfl, Finset.notMem_empty _⟩ hopen
  have hreach : Reach (step tagged) (Spares tagged) start ⟨{replayKey envelope}, [message 9 0]⟩ :=
    .tail _ .refl (fun _ hfull => absurd hfull (by decide)) hstep
  refine ⟨⟨{replayKey envelope}, [message 9 0]⟩, ?_, rfl, ?_⟩
  · rw [run, hstep]
    rfl
  · exact (envelope_accepted_once tagged _ hreach).1 (message 9 0) mem_cons_self ⟨message 9 0, []⟩ rfl

theorem messageKey_inj_le {i j : Nat} (hi : i ≤ qkdReplayCacheSize) (hj : j ≤ qkdReplayCacheSize)
    (h : messageKey i = messageKey j) : i = j := by
  have hlt : qkdReplayCacheSize < 256 ^ 12 := by decide
  have hnonce : Endian.toBe 12 i = Endian.toBe 12 j := congrArg (drop 4) h
  rw [← Endian.fromBe_toBe (hi.trans_lt hlt), ← Endian.fromBe_toBe (hj.trans_lt hlt), hnonce]

theorem run_filled :
    run (step tagged) ((List.range qkdReplayCacheSize).map fun i => ⟨message 9 i, []⟩) start =
      some filled := by
  refine run_fills (Nat.le_refl qkdReplayCacheSize) (fun i _ => ?_)
    fun i hi j hj => messageKey_inj_le hi.le hj.le
  obtain ⟨envelope, hread, hkey, hopen⟩ := message_read 9 i
  exact ⟨envelope, [], hread, hkey, rfl, hopen⟩

theorem filled_card : filled.seen.card = qkdReplayCacheSize := by
  rw [filled, Finset.card_image_of_injOn, Finset.card_range]
  intro i hi j hj
  exact messageKey_inj_le (Finset.mem_range.mp hi).le (Finset.mem_range.mp hj).le

theorem filled_head : filled.accepted.head? = some (message 9 (qkdReplayCacheSize - 1)) := by
  rw [filled, show qkdReplayCacheSize = (qkdReplayCacheSize - 1) + 1 from rfl, range_succ,
    map_append, reverse_append]
  rfl

theorem mem_filled {i : Nat} (hi : i ≤ qkdReplayCacheSize) :
    messageKey i ∈ filled.seen ↔ i < qkdReplayCacheSize := by
  constructor
  · intro hmem
    obtain ⟨j, hj, heq⟩ := Finset.mem_image.mp hmem
    have hlt := Finset.mem_range.mp hj
    exact messageKey_inj_le hlt.le hi heq ▸ hlt
  · exact fun hlt => Finset.mem_image_of_mem _ (Finset.mem_range.mpr hlt)

/-- Once the set is full, a message that does not open costs the key of the last
one that did. -/
theorem forged_message_lets_replay_in :
    ∃ s t, run (step tagged) ((List.range qkdReplayCacheSize).map fun i => ⟨message 9 i, []⟩) start = some s ∧
      s.accepted.head? = some (message 9 (qkdReplayCacheSize - 1)) ∧
      step tagged s ⟨message 8 qkdReplayCacheSize, messageKey (qkdReplayCacheSize - 1)⟩ = some t ∧
      t.accepted = s.accepted ∧
      accepts tagged t.seen ⟨message 9 (qkdReplayCacheSize - 1), []⟩ = true := by
  obtain ⟨forged, hforged, hkey, -⟩ := message_read 8 qkdReplayCacheSize
  have herror : unlock tagged ⟨.topic, 7⟩ forged (message 8 qkdReplayCacheSize).answers =
      .error "QKD message authentication failed" := by
    have hfail : (readEnvelope ⟨.topic, 7⟩ (sealedWith 8 qkdReplayCacheSize)).toOption.map
        (fun e => unlock tagged ⟨.topic, 7⟩ e (message 8 qkdReplayCacheSize).answers) =
          some (.error "QKD message authentication failed") := by decide +kernel
    rw [hforged] at hfail
    exact Option.some.inj hfail
  have hfresh : Fresh (message 8 qkdReplayCacheSize) filled.seen forged := by
    refine ⟨hforged, rfl, ?_⟩
    rw [hkey, mem_filled (Nat.le_refl _)]
    exact Nat.lt_irrefl _
  have hlast : messageKey (qkdReplayCacheSize - 1) ∈ filled.seen :=
    (mem_filled (Nat.sub_le _ 1)).mpr (by decide)
  obtain ⟨t, hstep, haccepted, hgone⟩ := step_failed
    ⟨message 8 qkdReplayCacheSize, messageKey (qkdReplayCacheSize - 1)⟩
    filled_card.ge hlast hfresh herror
  obtain ⟨envelope, hread, hkey', hopen⟩ := message_read 9 (qkdReplayCacheSize - 1)
  refine ⟨filled, t, run_filled, filled_head, hstep, haccepted, ?_⟩
  exact accepts_iff.mpr ⟨envelope, ⟨hread, rfl, hkey' ▸ hgone⟩, [], hopen⟩

end RmwAxon.ReplayRun
