import RmwAxon.KeyNegotiation

namespace RmwAxon.KeyViews

open KeyNegotiation MessageKeys KeyPeers KeyStore List
open NodeTable (Text)
open SyncWire (Bytes validUtf8)

variable {n : Nat}

inductive Packet (p : Parties) : Bytes → Prop
  | announcement {data : Bytes} (keyId : Text) : Named maxKeyIdLen keyId →
      encodeKeyAnnouncement ⟨p.id .low, p.sae .low, keyId⟩ = .ok data → Packet p data
  | ack {data : Bytes} (keyId : Text) : Named maxKeyIdLen keyId → encodeKeyAck keyId = .ok data →
      Packet p data
  | error {data : Bytes} : data.head? = some msgQkdKeyError → Packet p data

structure Genuine (keyOf : Text → Bytes) (h : Held) : Prop where
  named : Named maxKeyIdLen h.keyId
  key : h.key = keyOf h.keyId

structure Views (p : Parties) (keyOf : Text → Bytes) (s : State n) (v w : Option Held) : Prop where
  low : Represents (s.store .low) (p.id .high) (p.sae .high) v
  high : Represents (s.store .high) (p.id .low) (p.sae .low) w
  lowKey : ∀ h ∈ v, Genuine keyOf h
  highKey : ∀ h ∈ w, Genuine keyOf h
  highActive : ∀ h ∈ w, h.active = true
  packets : ∀ data ∈ s.network, Packet p data
  acked : ∀ h ∈ v, h.active = true → ∃ ack ∈ s.network, encodeKeyAck h.keyId = .ok ack
  agree : ∀ h ∈ v, ∀ h' ∈ w, h.active = true → h.keyId = h'.keyId

section Views

variable {p : Parties} {keyOf : Text → Bytes} {s : State n} {v w v' w' : Option Held} {store : Store n}
  {reply : Option Bytes}

theorem start_views (p : Parties) (keyOf : Text → Bytes) (n : Nat) : Views p keyOf (start n) none none where
  low := represents_empty _ _
  high := represents_empty _ _
  lowKey := by simp
  highKey := by simp
  highActive := by simp
  packets := by simp [start]
  acked := by simp
  agree := by simp

section

variable (hv : Views p keyOf s v w)
include hv

theorem packets_settle (hreply : ∀ d ∈ reply, Packet p d) :
    ∀ data ∈ reply.toList ++ s.network, Packet p data := by
  intro data hdata
  rcases mem_append.mp hdata with hdata | hdata
  · exact hreply data (Option.mem_toList.mp hdata)
  · exact hv.packets data hdata

theorem Views.settleLow (hr : Represents store (p.id .high) (p.sae .high) v')
    (hkey : ∀ h ∈ v', Genuine keyOf h)
    (hacked : ∀ h ∈ v', h.active = true → ∃ ack ∈ s.network, encodeKeyAck h.keyId = .ok ack)
    (hagree : ∀ h ∈ v', ∀ h' ∈ w, h.active = true → h.keyId = h'.keyId)
    (hreply : ∀ d ∈ reply, Packet p d) : Views p keyOf (settle s .low (store, reply)) v' w where
  low := by simpa [settle] using hr
  high := by simpa [settle] using hv.high
  lowKey := hkey
  highKey := hv.highKey
  highActive := hv.highActive
  packets := packets_settle hv hreply
  acked := by
    intro h hh hactive
    obtain ⟨ack, hmem, hack⟩ := hacked h hh hactive
    exact ⟨ack, mem_append_right _ hmem, hack⟩
  agree := hagree

theorem Views.settleHigh (hr : Represents store (p.id .low) (p.sae .low) w')
    (hkey : ∀ h ∈ w', Genuine keyOf h) (hactive : ∀ h ∈ w', h.active = true)
    (hagree : ∀ h ∈ v, ∀ h' ∈ w', h.active = true → h.keyId = h'.keyId)
    (hreply : ∀ d ∈ reply, Packet p d) : Views p keyOf (settle s .high (store, reply)) v w' where
  low := by simpa [settle] using hv.low
  high := by simpa [settle] using hr
  lowKey := hv.lowKey
  highKey := hkey
  highActive := hactive
  packets := packets_settle hv hreply
  acked := by
    intro h hh hactive
    obtain ⟨ack, hmem, hack⟩ := hv.acked h hh hactive
    exact ⟨ack, mem_append_right _ hmem, hack⟩
  agree := hagree

theorem Views.settleSame (side : Side) (hreply : ∀ d ∈ reply, Packet p d) :
    Views p keyOf (settle s side (s.store side, reply)) v w := by
  cases side with
  | low => exact hv.settleLow hv.low hv.lowKey hv.acked hv.agree hreply
  | high => exact hv.settleHigh hv.high hv.highKey hv.highActive hv.agree hreply

end

theorem entry_of_represents {side : Side} {sae : Text}
    (hr : Represents (s.store side) (p.id side.other) sae v) {e : QkdEntry}
    (he : Entry p s side e) : ∃ h ∈ v, e = entryOf (p.id side.other) sae h := by
  obtain ⟨hused, -, i, rfl⟩ := he
  cases v with
  | none => exact absurd (hr i) hused
  | some h =>
    obtain ⟨j, hj, hother⟩ := hr
    by_cases hij : i = j
    · exact ⟨h, rfl, hij ▸ hj⟩
    · exact absurd (hother i hij) hused

theorem represents_entry (side : Side) {sae : Text} {h : Held}
    (hr : Represents (s.store side) (p.id side.other) sae (some h)) :
    Entry p s side (entryOf (p.id side.other) sae h) := by
  obtain ⟨i, hi, -⟩ := hr
  exact ⟨entryOf_state _ _ _, rfl, i, hi⟩

theorem Views.agreed (hv : Views p keyOf s v w) : Agree p s := by
  intro e e' he he' hactive _
  obtain ⟨h, hh, rfl⟩ := entry_of_represents hv.low he
  obtain ⟨h', hh', rfl⟩ := entry_of_represents hv.high he'
  have hon : h.active = true := (stateOf_eq_active h.active).symm.trans (decide_eq_true hactive)
  have hid : h.keyId = h'.keyId := hv.agree h hh h' hh' hon
  refine ⟨hid, ?_⟩
  have hkey := (hv.lowKey h hh).key
  have hkey' := (hv.highKey h' hh').key
  exact hkey.trans ((congrArg keyOf hid).trans hkey'.symm)

end Views

section Packets

variable {p : Parties} {keyOf : Text → Bytes}

theorem announcement_packet {keyId : Text} (h : Named maxKeyIdLen keyId) :
    ∀ d ∈ (encodeKeyAnnouncement ⟨p.id .low, p.sae .low, keyId⟩).toOption, Packet p d := by
  intro d hd
  cases ha : encodeKeyAnnouncement ⟨p.id .low, p.sae .low, keyId⟩ with
  | error _ =>
    rw [ha] at hd
    cases hd
  | ok data =>
    rw [ha] at hd
    cases hd
    exact .announcement keyId h ha

theorem getEncryptionKey_ok {peer : Text} {answer : Except String { id : Text // validUtf8 id = true }}
    {material : QkdKeyMaterial} (h : getEncryptionKey keyOf peer (answer.map Subtype.val) = .ok material) :
    Named maxKeyIdLen material.keyId ∧ material.key = keyOf material.keyId := by
  rw [getEncryptionKey] at h
  cases hs : validateIdentifier "peer SAE ID" peer maxSaeIdLen with
  | error _ =>
    rw [hs] at h
    cases h
  | ok _ =>
    cases answer with
    | error _ =>
      rw [hs] at h
      cases h
    | ok id =>
      cases hk : validateIdentifier "QKD key_ID" id.val maxKeyIdLen with
      | error _ =>
        simp only [hs, Except.map, hk, bind, Except.bind] at h
        cases h
      | ok _ =>
        simp only [hs, Except.map, hk, bind, Except.bind] at h
        cases h
        refine ⟨⟨id.property, fun name => ?_⟩, rfl⟩
        rw [validateIdentifier] at hk ⊢
        split_ifs at hk ⊢
        rfl

end Packets

section Step

variable [NeZero n] {p : Parties} {keyOf : Text → Bytes} {s t : State n} {v w : Option Held} {data : Bytes}
  {keyId : Text} {answer : Except String Unit}

theorem hello_low (hv : Views p keyOf s v w) (answer : Except String { id : Text // validUtf8 id = true }) :
    ∃ v', Views p keyOf (settle s .low (handleHello p keyOf .low (s.store .low) (answer.map Subtype.val)))
      v' w := by
  have hlower : p.id .low < p.id Side.low.other := p.lower
  rw [handleHello, if_pos hlower]
  cases v with
  | some h =>
    have hnamed := (hv.lowKey h rfl).named
    cases hh : h.active with
    | true =>
      rw [hasActiveSession, Side.other, findForDaemon_some hv.low (p.named .high) hnamed true fun _ => hh]
      exact ⟨_, hv.settleSame .low (by simp)⟩
    | false =>
      rw [hasActiveSession, Side.other, findForDaemon_pending hv.low hh,
        prepareOutbound, findForDaemon_some hv.low (p.named .high) hnamed false (by simp)]
      simp only [Option.filter]
      exact ⟨_, hv.settleSame .low (announcement_packet hnamed)⟩
  | none =>
    rw [hasActiveSession, Side.other, findForDaemon_none hv.low]
    cases hfetched : getEncryptionKey keyOf (p.sae .high) (answer.map Subtype.val) with
    | error error =>
      simp only [prepareOutbound, findForDaemon_none hv.low, Option.filter_none, Except.bind]
      exact ⟨_, hv.settleSame .low (by simp)⟩
    | ok material =>
      obtain ⟨hnamed, hkey⟩ := getEncryptionKey_ok hfetched
      obtain ⟨store, hprepare, hr⟩ := prepareOutbound_fetched (p.named .high) hv.low hnamed
      rw [hprepare]
      refine ⟨_, hv.settleLow hr ?_ (by simp) (by simp) (announcement_packet hnamed)⟩
      rintro h ⟨⟩
      exact ⟨hnamed, hkey⟩

def Taken (p : Parties) (keyOf : Text → Bytes) (keyId : Text) (result : Store n × Option Bytes) : Prop :=
  result.2 = some (ackOrError keyId) ∧ ∃ h, Represents result.1 (p.id .low) (p.sae .low) (some h) ∧
    Genuine keyOf h ∧ h.active = true ∧ h.keyId = keyId

theorem announcement_outcome (hv : Views p keyOf s v w) (hnamed : Named maxKeyIdLen keyId)
    (hdata : encodeKeyAnnouncement ⟨p.id .low, p.sae .low, keyId⟩ = .ok data)
    (hsae : p.sae .low ≠ p.sae .high) (answer : Except String Unit) :
    Taken p keyOf keyId (handleAnnouncement p keyOf .high (s.store .high) data answer) ∨
      ∃ error, answer = .error error ∧ handleAnnouncement p keyOf .high (s.store .high) data answer =
        (s.store .high, some (encodeKeyError error)) := by
  have hdecode := decodeKeyAnnouncement_encode (p.id_lt .low) (p.named .low).utf8 hnamed.utf8 hdata
  simp only [handleAnnouncement, hdecode, if_neg hsae]
  by_cases hsame : ∃ h ∈ w, h.keyId = keyId
  · obtain ⟨h, rfl, rfl⟩ := hsame
    obtain ⟨store, haccept, hr⟩ := acceptInbound_same (p.named .low) hv.high hnamed
      (getDecryptionKey keyOf (p.sae .low) h.keyId answer)
    rw [haccept]
    exact .inl ⟨rfl, _, hr, ⟨hnamed, (hv.highKey h rfl).key⟩, rfl, rfl⟩
  · push Not at hsame
    have hget : getDecryptionKey keyOf (p.sae .low) keyId answer =
        answer.map fun _ => ⟨keyId, keyOf keyId⟩ := by
      rw [getDecryptionKey, hnamed.valid, (p.named .low).valid]
      cases answer <;> rfl
    rw [acceptInbound_other (p.named .low) hv.high (fun h hh => (hv.highKey h hh).named) hsame, hget]
    cases answer with
    | error error => exact .inr ⟨error, rfl, rfl⟩
    | ok _ =>
      obtain ⟨store, himport, hr⟩ := importInbound_fetched (p.named .low) ⟨keyId, keyOf keyId⟩ hv.high hnamed
      simp only [Except.map, himport]
      exact .inl ⟨rfl, _, hr, ⟨hnamed, rfl⟩, rfl, rfl⟩

theorem announcement_high (hv : Views p keyOf s v w) (hnamed : Named maxKeyIdLen keyId)
    (hdata : encodeKeyAnnouncement ⟨p.id .low, p.sae .low, keyId⟩ = .ok data)
    (answer : Except String Unit)
    (htimely : ∀ h ∈ v, h.keyId ≠ keyId → ∀ ack, encodeKeyAck h.keyId = .ok ack → ack ∉ s.network) :
    ∃ w', Views p keyOf
      (settle s .high (handleAnnouncement p keyOf .high (s.store .high) data answer)) v w' := by
  -- A key that the first daemon has active was acknowledged, so it is this one.
  have hagree : ∀ h ∈ v, h.active = true → h.keyId = keyId := by
    intro h hh hactive
    obtain ⟨ack, hmem, hack⟩ := hv.acked h hh hactive
    by_contra hne
    exact htimely h hh hne ack hack hmem
  by_cases hsae : p.sae .low = p.sae .high
  · have hdecode := decodeKeyAnnouncement_encode (p.id_lt .low) (p.named .low).utf8 hnamed.utf8 hdata
    simp only [handleAnnouncement, hdecode, if_pos hsae]
    exact ⟨_, hv.settleSame .high (by simp)⟩
  obtain ⟨ack, hack, hor⟩ : ∃ ack, encodeKeyAck keyId = .ok ack ∧ ackOrError keyId = ack := by
    rw [ackOrError, encodeKeyAck, hnamed.valid]
    exact ⟨_, rfl, rfl⟩
  have houtcome := announcement_outcome hv hnamed hdata hsae answer
  generalize handleAnnouncement p keyOf .high (s.store .high) data answer = result at houtcome ⊢
  obtain ⟨store, reply⟩ := result
  rcases houtcome with ⟨hreply, h, hr, hgenuine, hactive, hid⟩ | ⟨error, -, hresult⟩
  · refine ⟨some h, hv.settleHigh hr ?_ ?_ ?_ ?_⟩
    · rintro h' ⟨⟩
      exact hgenuine
    · rintro h' ⟨⟩
      exact hactive
    · rintro h' hh' h'' ⟨⟩ hon
      exact (hagree h' hh' hon).trans hid.symm
    · rw [show reply = some ack from hor ▸ hreply]
      rintro d ⟨⟩
      exact .ack keyId hnamed hack
  · rw [hresult]
    refine ⟨w, hv.settleSame .high fun d hd => ?_⟩
    cases hd
    exact .error rfl

omit [NeZero n] in
theorem ack_low (hv : Views p keyOf s v w) (hdecode : decodeKeyAck data = some keyId)
    (hmem : data ∈ s.network) (hack : encodeKeyAck keyId = .ok data)
    (htimely : ∀ h ∈ v, h.keyId = keyId → ∀ h' ∈ w, h'.keyId = keyId) :
    ∃ v', Views p keyOf (settle s .low (handleAck (s.store .low) data, none)) v' w := by
  simp only [handleAck, hdecode]
  by_cases hsame : ∃ h ∈ v, h.keyId = keyId
  · obtain ⟨h, rfl, rfl⟩ := hsame
    have hr := activateByKeyId_same (p.named .high) hv.low (hv.lowKey h rfl).named
    refine ⟨_, hv.settleLow hr ?_ ?_ ?_ (by simp)⟩
    · rintro h' ⟨⟩
      exact ⟨(hv.lowKey h rfl).named, (hv.lowKey h rfl).key⟩
    · rintro h' ⟨⟩ _
      exact ⟨data, hmem, hack⟩
    · rintro h' ⟨⟩ h'' hh'' _
      exact (htimely h rfl rfl h'' hh'').symm
  · push Not at hsame
    rw [activateByKeyId_other hv.low (fun h hh => (hv.lowKey h hh).named) hsame]
    exact ⟨_, hv.settleSame .low (by simp)⟩

omit [NeZero n] in
theorem ack_high (hv : Views p keyOf s v w) (hdecode : decodeKeyAck data = some keyId) :
    Views p keyOf (settle s .high (handleAck (s.store .high) data, none)) v w := by
  simp only [handleAck, hdecode]
  by_cases hsame : ∃ h ∈ w, h.keyId = keyId
  · obtain ⟨h, rfl, rfl⟩ := hsame
    have hr := activateByKeyId_same (p.named .low) hv.high (hv.highKey h rfl).named
    rw [show ({ h with active := true } : Held) = h by rw [← hv.highActive h rfl]] at hr
    exact hv.settleHigh hr hv.highKey hv.highActive hv.agree (by simp)
  · push Not at hsame
    rw [activateByKeyId_other hv.high (fun h hh => (hv.highKey h hh).named) hsame]
    exact hv.settleSame .high (by simp)

theorem announcement_head (h : encodeKeyAnnouncement ⟨p.id .low, p.sae .low, keyId⟩ = .ok data) :
    data.head? = some msgQkdKeyAnnounce := by
  rw [(encodeKeyAnnouncement_iff.mp h).2]
  rfl

theorem ack_head (h : encodeKeyAck keyId = .ok data) : data.head? = some msgQkdKeyAck := by
  rw [(encodeKeyAck_iff.mp h).2]
  rfl

theorem step_views (hv : Views p keyOf s v w) {e : Event} (htimely : Timely p s e)
    (h : step p keyOf s e = some t) : ∃ v' w', Views p keyOf t v' w' := by
  cases e with
  | hello side answer =>
    cases h
    cases side with
    | low =>
      obtain ⟨v', hv'⟩ := hello_low hv answer
      exact ⟨v', w, hv'⟩
    | high =>
      have hlower : ¬ p.id .high < p.id Side.high.other := Nat.not_lt.mpr p.lower.le
      rw [handleHello, if_neg hlower, ite_self]
      exact ⟨v, w, hv.settleSame .high (by simp)⟩
  | remove side =>
    cases h
    cases side with
    | low => exact ⟨none, w, hv.settleLow (remove_represents hv.low) (by simp) (by simp) (by simp) (by simp)⟩
    | high =>
      exact ⟨v, none, hv.settleHigh (remove_represents hv.high) (by simp) (by simp) (by simp) (by simp)⟩
  | deliver side data answer =>
    rw [step] at h
    split_ifs at h with hmem
    cases h
    cases hv.packets data hmem with
    | announcement keyId hnamed hdata =>
      rw [handleControl, if_pos (announcement_head hdata)]
      cases side with
      | low =>
        have hdecode := decodeKeyAnnouncement_encode (p.id_lt .low) (p.named .low).utf8 hnamed.utf8 hdata
        simp only [handleAnnouncement, hdecode, if_true]
        exact ⟨v, w, hv.settleSame .low (by simp)⟩
      | high =>
        obtain ⟨w', hv'⟩ := announcement_high hv hnamed hdata answer fun h hh hne ack hack =>
          htimely _ (entryOf (p.id .high) (p.sae .high) h) ack
            (decodeKeyAnnouncement_encode (p.id_lt .low) (p.named .low).utf8 hnamed.utf8 hdata)
            (represents_entry .low (hh ▸ hv.low)) hne hack
        exact ⟨v, w', hv'⟩
    | ack keyId hnamed hack =>
      have hdecode := decodeKeyAck_encode hnamed.utf8 hack
      rw [handleControl, if_neg (by rw [ack_head hack]; decide), if_pos (ack_head hack)]
      cases side with
      | low =>
        obtain ⟨v', hv'⟩ := ack_low hv hdecode hmem hack fun h hh hid h' hh' =>
          (htimely (entryOf (p.id .high) (p.sae .high) h) (entryOf (p.id .low) (p.sae .low) h')
            (hdecode.trans (congrArg some hid.symm)) (represents_entry .low (hh ▸ hv.low))
            (represents_entry .high (hh' ▸ hv.high))).trans hid
        exact ⟨v', w, hv'⟩
      | high => exact ⟨v, w, ack_high hv hdecode⟩
    | error hhead =>
      rw [handleControl, if_neg (by rw [hhead]; decide), if_neg (by rw [hhead]; decide)]
      exact ⟨v, w, hv.settleSame side (by simp)⟩

end Step

end RmwAxon.KeyViews
