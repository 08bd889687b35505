import RmwAxon.KeyViews

namespace RmwAxon.KeyAgreement

open KeyNegotiation KeyViews MessageKeys KeyPeers KeyStore Transition
open NodeTable (Text)
open SyncWire (Bytes)

variable {n : Nat}

section Step

variable [NeZero n] {p : Parties} {keyOf : Text → Bytes} {s t : State n} {v w : Option Held} {k k' : Held}
  {data : Bytes}

omit [NeZero n] in
theorem not_agree {h h' : Held} (hlow : Represents (s.store .low) (p.id .high) (p.sae .high) (some h))
    (hhigh : Represents (s.store .high) (p.id .low) (p.sae .low) (some h')) (hactive : h.active = true)
    (hactive' : h'.active = true) (hne : h.keyId ≠ h'.keyId) : ¬ Agree p s := by
  intro hagree
  refine hne (hagree _ _ (represents_entry .low hlow) (represents_entry .high hhigh) ?_ ?_).1
  · exact of_decide_eq_true ((stateOf_eq_active h.active).trans hactive)
  · exact of_decide_eq_true ((stateOf_eq_active h'.active).trans hactive')

theorem ack_taken (keyOf : Text → Bytes) {h : Held}
    (hlow : Represents (s.store .low) (p.id .high) (p.sae .high) (some h))
    (hnamed : Named maxKeyIdLen h.keyId) (hack : encodeKeyAck h.keyId = .ok data) (hmem : data ∈ s.network)
    (answer : Except String Unit) :
    ∃ t, step p keyOf s (.deliver .low data answer) = some t ∧ t.store .high = s.store .high ∧
      Represents (t.store .low) (p.id .high) (p.sae .high) (some { h with active := true }) := by
  rw [step, if_pos hmem, handleControl, if_neg (by rw [ack_head hack]; decide), if_pos (ack_head hack)]
  refine ⟨_, rfl, ?_, ?_⟩
  · simp [settle]
  · simp only [settle, Function.update_self, handleAck, decodeKeyAck_encode hnamed.utf8 hack]
    exact activateByKeyId_same (p.named .high) hlow hnamed

omit [NeZero n] in
theorem announcement_of_decode (hp : Packet p data) {a : QkdKeyAnnouncement}
    (hdecode : decodeKeyAnnouncement data = .ok a) :
    Named maxKeyIdLen a.keyId ∧ encodeKeyAnnouncement ⟨p.id .low, p.sae .low, a.keyId⟩ = .ok data := by
  cases hp with
  | announcement keyId hnamed hdata =>
    rw [decodeKeyAnnouncement_encode (p.id_lt .low) (p.named .low).utf8 hnamed.utf8 hdata] at hdecode
    cases hdecode
    exact ⟨hnamed, hdata⟩
  | ack _ _ hack => simp [decodeKeyAnnouncement, ack_head hack, msgQkdKeyAnnounce, msgQkdKeyAck] at hdecode
  | error hhead => simp [decodeKeyAnnouncement, hhead, msgQkdKeyError, msgQkdKeyAnnounce] at hdecode

theorem untimely_ack_disagrees (hv : Views p keyOf s (some k) (some k'))
    (h : step p keyOf s (.deliver .low data (.ok ())) = some t) (hmem : data ∈ s.network)
    (hdecode : decodeKeyAck data = some k.keyId) (hne : k.keyId ≠ k'.keyId) : ¬ Agree p t := by
  have hack : encodeKeyAck k.keyId = .ok data := by
    cases hv.packets data hmem with
    | announcement _ _ hdata =>
      simp [decodeKeyAck, announcement_head hdata, msgQkdKeyAnnounce, msgQkdKeyAck] at hdecode
    | ack keyId hnamed hack =>
      rw [decodeKeyAck_encode hnamed.utf8 hack] at hdecode
      exact Option.some.inj hdecode ▸ hack
    | error hhead => simp [decodeKeyAck, hhead, msgQkdKeyError, msgQkdKeyAck] at hdecode
  obtain ⟨t', ht', hhigh, hlow⟩ := ack_taken keyOf hv.low (hv.lowKey k rfl).named hack hmem (.ok ())
  rw [h] at ht'
  cases ht'
  exact not_agree hlow (hhigh ▸ hv.high) rfl (hv.highActive k' rfl) hne

theorem untimely_announcement_disagrees (hv : Views p keyOf s (some k) w) (hsae : p.sae .low ≠ p.sae .high)
    (h : step p keyOf s (.deliver .high data (.ok ())) = some t) (hmem : data ∈ s.network)
    {a : QkdKeyAnnouncement} (hdecode : decodeKeyAnnouncement data = .ok a) (hne : k.keyId ≠ a.keyId)
    {ack : Bytes} (hack : encodeKeyAck k.keyId = .ok ack) (hackmem : ack ∈ s.network) :
    ∃ e u, step p keyOf t e = some u ∧ ¬ Agree p u := by
  obtain ⟨hnamed, hdata⟩ := announcement_of_decode (hv.packets data hmem) hdecode
  rw [step, if_pos hmem, handleControl, if_pos (announcement_head hdata)] at h
  rcases announcement_outcome hv hnamed hdata hsae (.ok ()) with
    ⟨-, k', hr, -, hactive, hid⟩ | ⟨_, hbad, -⟩
  · have hhigh : Represents (t.store .high) (p.id .low) (p.sae .low) (some k') := by
      cases h
      simpa [settle] using hr
    have hlow : Represents (t.store .low) (p.id .high) (p.sae .high) (some k) := by
      cases h
      simpa [settle] using hv.low
    have hmem' : ack ∈ t.network := by
      cases h
      exact List.mem_append_right _ hackmem
    obtain ⟨u, hu, hsame, hlow'⟩ := ack_taken keyOf hlow (hv.lowKey k rfl).named hack hmem' (.ok ())
    refine ⟨_, u, hu, not_agree hlow' (hsame ▸ hhigh) rfl hactive ?_⟩
    rw [hid]
    exact hne
  · cases hbad

/-- A message that comes too late leads to two different active keys, at once or
with one acknowledgement more. -/
theorem untimely_disagrees (hv : Views p keyOf s v w) (hsae : p.sae .low ≠ p.sae .high) {side : Side}
    (h : step p keyOf s (.deliver side data (.ok ())) = some t)
    (huntimely : ¬ Timely p s (.deliver side data (.ok ()))) :
    ∃ u, (u = t ∨ ∃ e, step p keyOf t e = some u) ∧ ¬ Agree p u := by
  have hmem : data ∈ s.network := by
    rw [step] at h
    split_ifs at h with hmem
    exact hmem
  cases side with
  | low =>
    simp only [Timely, not_forall] at huntimely
    obtain ⟨e, e', hdecode, he, he', hne⟩ := huntimely
    obtain ⟨k, hk, rfl⟩ := entry_of_represents hv.low he
    obtain ⟨k', hk', rfl⟩ := entry_of_represents hv.high he'
    cases hk
    cases hk'
    exact ⟨t, .inl rfl, untimely_ack_disagrees hv h hmem hdecode fun heq => hne heq.symm⟩
  | high =>
    simp only [Timely, not_forall, not_not] at huntimely
    obtain ⟨a, e, ack, hdecode, he, hne, hack, hackmem⟩ := huntimely
    obtain ⟨k, hk, rfl⟩ := entry_of_represents hv.low he
    cases hk
    obtain ⟨e, u, hu, hparted⟩ := untimely_announcement_disagrees hv hsae h hmem hdecode hne hack hackmem
    exact ⟨u, .inr ⟨e, hu⟩, hparted⟩

end Step

/-- Two daemons that have a key of each other active have the same key, as long
as no message comes too late; and one that does is all it takes to part them. -/
theorem sessions_agree [NeZero n] (p : Parties) (keyOf : Text → Bytes) (s : State n)
    (hs : Reach (step p keyOf) (Timely p) (start n) s) :
    Agree p s ∧ (p.sae .low ≠ p.sae .high → ∀ side data t,
      step p keyOf s (.deliver side data (.ok ())) = some t → ¬ Timely p s (.deliver side data (.ok ())) →
      ∃ u, (u = t ∨ ∃ e, step p keyOf t e = some u) ∧ ¬ Agree p u) := by
  have hviews : ∃ v w, Views p keyOf s v w := by
    refine hs.invariant (I := fun s => ∃ v w, Views p keyOf s v w) ⟨none, none, start_views p keyOf n⟩ ?_
    rintro s e t ⟨v, w, hv⟩ htimely hstep
    exact step_views hv htimely hstep
  obtain ⟨v, w, hv⟩ := hviews
  exact ⟨hv.agreed, fun hsae side data t hstep huntimely => untimely_disagrees hv hsae hstep huntimely⟩

def twoDaemons : Parties where
  id := fun side => if side = .low then 1 else 2
  sae := fun side => if side = .low then [65] else [66]
  id_lt := by
    intro side
    cases side <;> decide
  lower := by decide
  named := by
    intro side
    cases side <;> exact ⟨by decide, fun _ => rfl⟩

def oneByte (keyId : Text) : Bytes := List.replicate qkdKeyBytes (keyId.headD 0)

def announceOf (keyId : Text) : Bytes := (encodeKeyAnnouncement ⟨1, [65], keyId⟩).toOption.getD []

def ackOf (keyId : Text) : Bytes := (encodeKeyAck keyId).toOption.getD []

def firstHello : Event := .hello .low (.ok ⟨[107], by decide⟩)

def secondHello : Event := .hello .low (.ok ⟨[109], by decide⟩)

def runOf (events : List Event) : Option (State maxQkdSessions) :=
  run (step twoDaemons oneByte) events (start maxQkdSessions)

theorem negotiated_session_agrees :
    ∃ s, runOf [firstHello, .deliver .high (announceOf [107]) (.ok ()),
        .deliver .low (ackOf [107]) (.ok ())] =
        some s ∧ (s.store .low 0).state = .active ∧ (s.store .high 0).state = .active ∧
      Agree twoDaemons s := by
  obtain ⟨s₁, hs₁, hnetwork⟩ := exists_of_any (o := step twoDaemons oneByte (start maxQkdSessions) firstHello)
    (p := fun s => s.network = [announceOf [107]]) (by decide +kernel)
  obtain ⟨s₂, hs₂, hhigh⟩ := exists_of_any
    (o := runOf [firstHello, .deliver .high (announceOf [107]) (.ok ())])
    (p := fun s => ∀ i, (s.store .high i).state ≠ .empty → (s.store .high i).keyId = [107])
    (by decide +kernel)
  obtain ⟨s₃, hs₃, hlow⟩ := exists_of_any (o := runOf [firstHello, .deliver .high (announceOf [107]) (.ok ()),
      .deliver .low (ackOf [107]) (.ok ())])
    (p := fun s => (s.store .low 0).state = .active ∧ (s.store .high 0).state = .active) (by decide +kernel)
  have hstep₂ : step twoDaemons oneByte s₁ (.deliver .high (announceOf [107]) (.ok ())) = some s₂ := by
    simpa [runOf, run, hs₁] using hs₂
  have hstep₃ : step twoDaemons oneByte s₂ (.deliver .low (ackOf [107]) (.ok ())) = some s₃ := by
    simpa [runOf, run, hs₁, hstep₂] using hs₃
  have htimely₂ : Timely twoDaemons s₁ (.deliver .high (announceOf [107]) (.ok ())) := by
    intro a e ack _ _ _ hack hmem
    rw [hnetwork, List.mem_singleton] at hmem
    have hhead := ack_head hack
    rw [hmem] at hhead
    cases hhead
  have htimely₃ : Timely twoDaemons s₂ (.deliver .low (ackOf [107]) (.ok ())) := by
    intro e e' hdecode _ he'
    obtain ⟨hused, -, i, rfl⟩ := he'
    have hkey : decodeKeyAck (ackOf [107]) = some [107] := by decide +kernel
    rw [hhigh i hused]
    exact Option.some.inj (hkey.symm.trans hdecode)
  have hreach : Reach (step twoDaemons oneByte) (Timely twoDaemons) (start maxQkdSessions) s₃ :=
    .tail _ (.tail _ (.tail firstHello .refl trivial hs₁) htimely₂ hstep₂) htimely₃ hstep₃
  exact ⟨s₃, hs₃, hlow.1, hlow.2, (sessions_agree twoDaemons oneByte s₃ hreach).1⟩

/-- The first daemon has let its session go and made another one when the old
announcement comes once more. -/
theorem late_announcement_parts_sessions :
    ∃ s, runOf [firstHello, .deliver .high (announceOf [107]) (.ok ()), .deliver .low (ackOf [107]) (.ok ()),
        .remove .low, secondHello, .deliver .high (announceOf [109]) (.ok ()),
        .deliver .low (ackOf [109]) (.ok ()), .deliver .high (announceOf [107]) (.ok ())] = some s ∧
      ¬ Agree twoDaemons s := by
  obtain ⟨s, hrun, hlow, hhigh⟩ := exists_of_any
    (o := runOf [firstHello, .deliver .high (announceOf [107]) (.ok ()), .deliver .low (ackOf [107]) (.ok ()),
        .remove .low, secondHello, .deliver .high (announceOf [109]) (.ok ()),
        .deliver .low (ackOf [109]) (.ok ()), .deliver .high (announceOf [107]) (.ok ())])
    (p := fun s => s.store .low 0 = ⟨.active, 2, [109], [66], oneByte [109]⟩ ∧
      s.store .high 0 = ⟨.active, 1, [107], [65], oneByte [107]⟩) (by decide +kernel)
  refine ⟨s, hrun, fun hagree => ?_⟩
  have hsame := (hagree _ _ ⟨by decide, rfl, 0, hlow⟩ ⟨by decide, rfl, 0, hhigh⟩ rfl rfl).1
  exact absurd hsame (by decide)

end RmwAxon.KeyAgreement
