import RmwAxon.MessageSeal

namespace RmwAxon.SealChange

open KeyStore MessageKeys MessageSeal QkdEnvelope Function Option
open NodeTable (Text)
open SyncWire (Bytes)

variable {aead : Aead} {keyOf : Text → Bytes} {localSaeId : Text} {s s' t : State} {c : Nat} {call : Call}

inductive Working : Point → Prop
  | find (remoteDaemonId : Nat) : Working (.find remoteDaemonId)
  | fetch (remoteSaeId : Text) : Working (.fetch remoteSaeId)
  | seal (remoteSaeId : Text) (material : QkdKeyMaterial) : Working (.seal remoteSaeId material)

def opened (s : State) (call : Call) (key : TopicSealKey) : State :=
  { s with
    topicSeals := ⟨(key, s.cells.length) :: (makeRoom s.topicSeals.entries s.topicSeals.order).entries,
      (makeRoom s.topicSeals.entries s.topicSeals.order).order ++ [key]⟩
    cells := s.cells ++ [⟨call.request, .empty⟩] }

inductive Granted (keyOf : Text → Bytes) (s : State) (remoteSaeId : Text) :
    CachedOutboundKey → List (Text × QkdKeyMaterial) → Prop
  | reused {cached : CachedOutboundKey} : s.outboundKeys remoteSaeId = some cached →
      cached.uses < qkdMessagesPerKey →
      Granted keyOf s remoteSaeId { cached with uses := cached.uses + 1 } s.obtained
  | obtained {answer : Except String Text} {material : QkdKeyMaterial} :
      getEncryptionKey keyOf remoteSaeId answer = .ok material →
      Granted keyOf s remoteSaeId ⟨material, 1⟩ ((remoteSaeId, material) :: s.obtained)

inductive Change (aead : Aead) (keyOf : Text → Bytes) (localSaeId : Text) (s : State) (c : Nat) : State → Prop
  | called {request : Request} : s.calls c = none →
      Change aead keyOf localSaeId s c (setCall s c ⟨request, none, first request⟩)
  | found {call : Call} {key : TopicSealKey} {i : Nat} : s.calls c = some call → call.point = .enter →
      call.request.sealKey = some key → s.topicSeals.entries.lookup key = some i →
      Change aead keyOf localSaeId s c (setCall s c { call with point := .wait i })
  | opened {call : Call} {key : TopicSealKey} : s.calls c = some call → call.point = .enter →
      call.request.sealKey = some key →
      Change aead keyOf localSaeId s c
        (setCall (opened s call key) c { call with point := .wait s.cells.length })
  | taken {call : Call} {i : Nat} {x : Cell} {wire : Bytes} : s.calls c = some call →
      call.point = .wait i → s.cells[i]? = some x → x.content = .full wire →
      Change aead keyOf localSaeId s c (setCall s c { call with point := .returned (.ok wire) })
  | claimed {call : Call} {i : Nat} {key : TopicSealKey} : s.calls c = some call →
      call.point = .wait i → call.request.sealKey = some key →
      Change aead keyOf localSaeId s c
        (setCall (setContent s i .running) c ⟨call.request, some i, .find key.1⟩)
  | failed {call : Call} {error : String} : s.calls c = some call → Working call.point →
      Change aead keyOf localSaeId s c (fail s c call error)
  | located {call : Call} {remoteDaemonId : Nat} {remoteSaeId : Text} : s.calls c = some call →
      call.point = .find remoteDaemonId →
      Change aead keyOf localSaeId s c
        (setCall { s with sessions := (remoteDaemonId, remoteSaeId) :: s.sessions } c
          { call with point := .fetch remoteSaeId })
  | granted {call : Call} {remoteSaeId : Text} {key : CachedOutboundKey}
      {obtained : List (Text × QkdKeyMaterial)} : s.calls c = some call → call.point = .fetch remoteSaeId →
      Granted keyOf s remoteSaeId key obtained →
      Change aead keyOf localSaeId s c (grant { s with obtained := obtained } c call remoteSaeId key)
  | made {call : Call} {remoteSaeId : Text} {material : QkdKeyMaterial} {nonce : Nonce} {wire : Bytes} :
      s.calls c = some call → call.point = .seal remoteSaeId material →
      sealWithMaterial aead localSaeId call.request.context material.key material.keyId (some nonce.1)
        call.request.payload = .ok wire →
      Change aead keyOf localSaeId s c
        (succeed { s with sealed := ⟨c, call.request, remoteSaeId, material, wire⟩ :: s.sealed } c call wire)
  | cleaned {call : Call} {i : Nat} {error : String} {entries : List (TopicSealKey × Nat)}
      {order : List TopicSealKey} : s.calls c = some call → call.point = .clean i error →
      (∀ e ∈ entries, e ∈ s.topicSeals.entries) →
      Change aead keyOf localSaeId s c
        (setCall { s with topicSeals := ⟨entries, order⟩ } c { call with point := .returned (.error error) })

variable {key : TopicSealKey}

theorem find_change {remoteDaemonId : Nat} (hc : s.calls c = some call)
    (hp : call.point = .find remoteDaemonId) (answer : Except String (Store maxQkdSessions)) :
    Change aead keyOf localSaeId s c (find s c call remoteDaemonId answer) := by
  have hworking : Working call.point := hp ▸ .find remoteDaemonId
  cases answer with
  | error error => exact .failed hc hworking
  | ok store =>
    rw [find]
    cases findForDaemon store remoteDaemonId true with
    | none => exact .failed hc hworking
    | some session => exact .located hc hp

theorem encryptionKey_change {remoteSaeId : Text} (hc : s.calls c = some call)
    (hp : call.point = .fetch remoteSaeId) (answer : Except String Text) :
    Change aead keyOf localSaeId s c (encryptionKey keyOf s c call remoteSaeId answer) := by
  rw [encryptionKey]
  cases hk : (s.outboundKeys remoteSaeId).filter fun k => decide (k.uses < qkdMessagesPerKey) with
  | some cached =>
    obtain ⟨hcached, huses⟩ := filter_eq_some_iff.mp hk
    exact .granted hc hp (.reused hcached (by simpa using huses))
  | none =>
    cases hm : getEncryptionKey keyOf remoteSaeId answer with
    | error error => exact .failed hc (hp ▸ .fetch remoteSaeId)
    | ok material => exact .granted hc hp (.obtained hm)

theorem sealUp_change {remoteSaeId : Text} {material : QkdKeyMaterial} (hc : s.calls c = some call)
    (hp : call.point = .seal remoteSaeId material) (nonce : Option Nonce) :
    Change aead keyOf localSaeId s c (sealUp aead localSaeId s c call remoteSaeId material nonce) := by
  rw [sealUp]
  cases nonce with
  | none => exact .failed hc (hp ▸ .seal remoteSaeId material)
  | some nonce =>
    rw [map_some]
    cases hw : sealWithMaterial aead localSaeId call.request.context material.key material.keyId
      (some nonce.1) call.request.payload with
    | error error => exact .failed hc (hp ▸ .seal remoteSaeId material)
    | ok wire => exact .made hc hp hw

theorem clean_change {i : Nat} {error : String} (hc : s.calls c = some call)
    (hp : call.point = .clean i error) : Change aead keyOf localSaeId s c (clean s c call key i error) := by
  simp only [clean]
  split_ifs
  · exact .cleaned hc hp fun e he => List.mem_of_mem_filter he
  · have hkept : Change aead keyOf localSaeId s c (setCall { s with topicSeals := s.topicSeals } c
        { call with point := .returned (.error error) }) := .cleaned hc hp fun e he => he
    exact hkept

theorem advance_change {input : Input} (hc : s.calls c = some call)
    (h : advance aead keyOf localSaeId s c call call.point input = some t) :
    Change aead keyOf localSaeId s c t := by
  generalize hp : call.point = p at h
  unfold advance at h
  split at h
  next =>
    obtain ⟨key, hkey, rfl⟩ := map_eq_some_iff.mp h
    rw [enter]
    cases hl : s.topicSeals.entries.lookup key with
    | none => exact .opened hc hp hkey
    | some i => exact .found hc hp hkey hl
  next i =>
    obtain ⟨x, hx, h⟩ := bind_eq_some_iff.mp h
    obtain ⟨key, hkey, h⟩ := bind_eq_some_iff.mp h
    cases hcontent : x.content with
    | empty =>
      rw [hcontent] at h
      cases h
      exact .claimed hc hp hkey
    | running =>
      rw [hcontent] at h
      cases h
    | full wire =>
      rw [hcontent] at h
      cases h
      exact .taken hc hp hx hcontent
  next remoteDaemonId answer =>
    cases h
    exact find_change hc hp answer
  next remoteSaeId answer =>
    cases h
    exact encryptionKey_change hc hp answer
  next remoteSaeId material nonce =>
    cases h
    exact sealUp_change hc hp nonce
  next i error =>
    obtain ⟨key, hkey, rfl⟩ := map_eq_some_iff.mp h
    exact clean_change hc hp
  next => cases h

theorem step_change {e : Event} (h : step aead keyOf localSaeId s e = some t) :
    Change aead keyOf localSaeId s e.caller t := by
  cases e with
  | call c request =>
    simp only [step] at h
    split_ifs at h with hc
    cases h
    exact .called (not_isSome_iff_eq_none.mp hc)
  | advance c input =>
    obtain ⟨call, hc, h⟩ := bind_eq_some_iff.mp h
    exact advance_change hc h

theorem Change.calls (h : Change aead keyOf localSaeId s c t) (hc : s.calls c = some call) :
    ∃ call', t.calls = update s.calls c (some call') ∧ call'.request = call.request := by
  cases h with
  | called hnone => cases hc.symm.trans hnone
  | found h | opened h | taken h | claimed h | located h | granted h | cleaned h =>
    cases hc.symm.trans h
    exact ⟨_, rfl, rfl⟩
  | failed h =>
    cases hc.symm.trans h
    rw [fail]
    cases call.cell <;> exact ⟨_, rfl, rfl⟩
  | made h =>
    cases hc.symm.trans h
    rw [succeed]
    cases call.cell <;> exact ⟨_, rfl, rfl⟩

theorem step_request {e : Event} {d : Nat} (h : step aead keyOf localSaeId s e = some t)
    (hd : t.calls d = some call) :
    (∃ before, s.calls d = some before ∧ before.request = call.request) ∨ e = .call d call.request := by
  cases e with
  | call c request =>
    simp only [step] at h
    split_ifs at h
    cases h
    by_cases hdc : d = c
    · subst hdc
      rw [setCall_self] at hd
      cases hd
      exact .inr rfl
    · rw [setCall_of_ne s _ hdc] at hd
      exact .inl ⟨call, hd, rfl⟩
  | advance c input =>
    obtain ⟨before, hc, h⟩ := bind_eq_some_iff.mp h
    obtain ⟨call', hcalls, hrequest⟩ := (advance_change hc h).calls hc
    rw [hcalls] at hd
    by_cases hdc : d = c
    · subst hdc
      rw [update_self] at hd
      cases hd
      exact .inl ⟨before, hc, hrequest.symm⟩
    · rw [update_of_ne hdc] at hd
      exact .inl ⟨call, hd, rfl⟩

end RmwAxon.SealChange
