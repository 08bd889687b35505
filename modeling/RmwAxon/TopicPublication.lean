import RmwAxon.OneRing
import RmwAxon.SealUses

namespace RmwAxon.TopicPublication

open Compress HostRun MessageSeal QkdEnvelope SealChange SealHistory SealSteps SealUses Transition Option
open NodeTable (Text)
open SyncWire (Bytes)

structure Publication where
  topic : Nat
  number : Nat
  data : Bytes
  deriving DecidableEq, Repr

structure State where
  host : HostRun.State
  published : List Publication
  crypto : MessageSeal.State

/-- A publication is sent to a peer when it is made or from the retained history.
Sealing is tried again with a new call. -/
inductive Event
  | host (e : HostRun.Event)
  | publish (e : Nat) (data : Bytes) (gid : Nat)
  | send (c remoteDaemonId : Nat) (p : Publication) (compressed : Bool)
  | request (c : Nat) (request : Request)
  | advance (c : Nat) (input : Input)

section Step

variable (codec : Codec) (aead : Aead) (keyOf : Text → Bytes) (localSaeId : Text) (session : Nat)

/-- The frame that prepare_topic_send seals: a task that ends early leaves the
data uncompressed. -/
def frame (compressed : Bool) (data : Bytes) : Bytes := if compressed then compress codec data else 0 :: data

def publishedBy (host : HostRun.State) (e : Nat) (data : Bytes) (gid : Nat) : List Publication :=
  match (publisherOf host e).filter fun p => decide (p.session = session) with
  | none => []
  | some p =>
    match (Host.publishWithGid host.machine session p.topic host.clock data gid).1 with
    | .error _ => []
    | .ok number => [⟨p.topic, number, data⟩]

def sealStep (s : State) (e : MessageSeal.Event) : Option State :=
  if s.host.alive session then
    (MessageSeal.step aead keyOf localSaeId s.crypto e).map fun crypto => { s with crypto := crypto }
  else none

def step (s : State) : Event → Option State
  | .host e => (HostRun.step codec s.host e).map fun host => { s with host := host }
  | .publish e data gid => (HostRun.step codec s.host (.publish e data gid)).map fun host =>
    { s with host := host, published := publishedBy session s.host e data gid ++ s.published }
  | .send c remoteDaemonId p compressed =>
    if p ∈ s.published then
      sealStep aead keyOf localSaeId session s
        (.call c (.topic remoteDaemonId p.topic p.number (frame codec compressed p.data)))
    else none
  | .request c request =>
    if request.sealKey = none then sealStep aead keyOf localSaeId session s (.call c request) else none
  | .advance c input => sealStep aead keyOf localSaeId session s (.advance c input)

def start (quicTransport : Nat → Bool) : State := ⟨HostRun.start quicTransport, [], MessageSeal.start⟩

end Step

/-- A call for a publication that finds a cell in the cache has the payload that
the cell was made for. -/
def SamePayload (s : State) : Event → Prop
  | .advance c _ => ∀ call ∈ s.crypto.calls c, call.point = .enter → ∀ key ∈ call.request.sealKey,
      ∀ i ∈ s.crypto.topicSeals.entries.lookup key, ∀ x ∈ s.crypto.cells[i]?,
        call.request.payload = x.opener.payload
  | _ => True

instance (s : State) (e : Event) : Decidable (SamePayload s e) := by
  unfold SamePayload
  split <;> infer_instance

def Encrypts (aead : Aead) (localSaeId : Text) (context : WireContext) (payload wire : Bytes) : Prop :=
  ∃ (key : Bytes) (keyId : Text) (nonce : Nonce),
    sealWithMaterial aead localSaeId context key keyId (some nonce.1) payload = .ok wire

def SameMessage (a b : Request) : Prop := SameTarget a b ∧ a.payload = b.payload

theorem sameMessage_equivalence : Equivalence SameMessage where
  refl a := ⟨sameTarget_equivalence.refl a, rfl⟩
  symm h := ⟨sameTarget_equivalence.symm h.1, h.2.symm⟩
  trans h h' := ⟨sameTarget_equivalence.trans h.1 h'.1, h.2.trans h'.2⟩

variable {codec : Codec} {aead : Aead} {keyOf : Text → Bytes} {localSaeId : Text} {session : Nat}
  {quicTransport : Nat → Bool} {s t : State}

def Sends (codec : Codec) (published : List Publication) : Request → Prop
  | .topic _ topicHash publicationId payload => ∃ p ∈ published, ∃ compressed,
      p.topic = topicHash ∧ p.number = publicationId ∧ frame codec compressed p.data = payload
  | _ => True

variable {request : Request} {c : Nat} {wire : Bytes}

theorem Sends.mono {published published' : List Publication} (h : Sends codec published request)
    (hsub : ∀ p ∈ published, p ∈ published') :
    Sends codec published' request := by
  cases request with
  | daemon | reply => trivial
  | topic d hash number payload =>
    obtain ⟨p, hp, hrest⟩ := h
    exact ⟨p, hsub p hp, hrest⟩

structure Inv (codec : Codec) (aead : Aead) (localSaeId : Text) (s : State) : Prop where
  history : SealHistory.Inv SameMessage aead localSaeId s.crypto
  sends : ∀ c call, s.crypto.calls c = some call → Sends codec s.published call.request

theorem inv_start : Inv codec aead localSaeId (start quicTransport) :=
  ⟨SealHistory.inv_start, by simp [start, MessageSeal.start]⟩

variable {e : MessageSeal.Event}

theorem sealStep_eq_some (h : sealStep aead keyOf localSaeId session s e = some t) :
    ∃ crypto, MessageSeal.step aead keyOf localSaeId s.crypto e = some crypto ∧
      t = { s with crypto := crypto } := by
  rw [sealStep] at h
  split_ifs at h
  obtain ⟨crypto, hcrypto, rfl⟩ := map_eq_some_iff.mp h
  exact ⟨crypto, hcrypto, rfl⟩

theorem Inv.sealStep (h : Inv codec aead localSaeId s) (hrel : Admits SameMessage s.crypto e)
    (hcall : ∀ c request, e = .call c request → Sends codec s.published request)
    (hstep : TopicPublication.sealStep aead keyOf localSaeId session s e = some t) :
    Inv codec aead localSaeId t := by
  obtain ⟨crypto, hcrypto, rfl⟩ := sealStep_eq_some hstep
  refine ⟨step_inv sameMessage_equivalence h.history hrel hcrypto, fun c call hc => ?_⟩
  rcases step_request hcrypto hc with ⟨before, hbefore, hrequest⟩ | he
  · exact hrequest ▸ h.sends c before hbefore
  · exact hcall c call.request he

theorem Inv.begin (h : Inv codec aead localSaeId s) (hsends : Sends codec s.published request)
    (hstep : TopicPublication.sealStep aead keyOf localSaeId session s (.call c request) = some t) :
    Inv codec aead localSaeId t := by
  obtain ⟨crypto, hcrypto, -⟩ := sealStep_eq_some hstep
  refine h.sealStep (fun call _ _ hc => ?_) (fun d other he => ?_) hstep
  · simp only [MessageSeal.step] at hcrypto
    split_ifs at hcrypto with hsome
    exact absurd (isSome_iff_exists.mpr ⟨call, hc⟩) hsome
  · cases he
    exact hsends

theorem step_inv {e : Event} (h : Inv codec aead localSaeId s) (hok : SamePayload s e)
    (hstep : step codec aead keyOf localSaeId session s e = some t) : Inv codec aead localSaeId t := by
  cases e with
  | host e =>
    obtain ⟨host, -, rfl⟩ := map_eq_some_iff.mp hstep
    exact ⟨h.history, h.sends⟩
  | publish e data gid =>
    obtain ⟨host, -, rfl⟩ := map_eq_some_iff.mp hstep
    refine ⟨h.history, fun c call hc => (h.sends c call hc).mono fun p hp => ?_⟩
    exact List.mem_append_right _ hp
  | send c d p compressed =>
    simp only [step] at hstep
    split_ifs at hstep with hp
    have hsends : Sends codec s.published (.topic d p.topic p.number (frame codec compressed p.data)) :=
      ⟨p, hp, compressed, rfl, rfl, rfl⟩
    exact h.begin hsends hstep
  | request c request =>
    simp only [step] at hstep
    split_ifs at hstep with hkey
    refine h.begin ?_ hstep
    cases request with
    | daemon | reply => trivial
    | topic => cases hkey
  | advance c input =>
    refine h.sealStep (fun call key i hc hp hkey hl x hx => ?_) (fun d other he => ?_) hstep
    · have hplaced := h.history.placed
      exact ⟨sameTarget_of_lookup hplaced hkey hl hx, hok call hc hp key hkey i hl x hx⟩
    · cases he

theorem reach_inv (h : Reach (step codec aead keyOf localSaeId session) SamePayload (start quicTransport) s) :
    Inv codec aead localSaeId s :=
  h.invariant inv_start fun _ _ _ hi hok hs => step_inv hi hok hs

theorem sameTarget_context {a b : Request} (h : SameTarget a b) : a.context = b.context := by
  cases ha : a.sealKey with
  | none => rw [h.2 ha]
  | some key =>
    cases a with
    | daemon | reply => cases ha
    | topic =>
      have hb := h.1.symm.trans ha
      cases ha
      cases b with
      | daemon | reply => cases hb
      | topic =>
        cases hb
        rfl

theorem encrypts_made {r : Sealed} (hmade : Made aead localSaeId r) (h : SameMessage request r.request) :
    Encrypts aead localSaeId request.context request.payload r.wire := by
  obtain ⟨nonce, hnonce⟩ := hmade
  rw [sameTarget_context h.1, h.2]
  exact ⟨r.material.key, r.material.keyId, nonce, hnonce⟩

theorem Inv.filled (h : Inv codec aead localSaeId s) {i : Nat} {x : Cell}
    (hx : s.crypto.cells[i]? = some x) (hfull : x.content = .full wire) :
    Encrypts aead localSaeId x.opener.context x.opener.payload wire := by
  obtain ⟨r, hr, rfl, hopener⟩ := h.history.filled i x wire hx hfull
  exact encrypts_made (h.history.made r hr).1 (sameMessage_equivalence.symm hopener)

theorem found_returned {crypto : MessageSeal.State} {i : Nat} {call : Call} {key : TopicSealKey}
    {x : Cell} (hc : crypto.calls c = some call) (hp : call.point = .enter)
    (hkey : call.request.sealKey = some key) (hl : crypto.topicSeals.entries.lookup key = some i)
    (hx : crypto.cells[i]? = some x) (hfull : x.content = .full wire) :
    ∃ crypto', run (MessageSeal.step aead keyOf localSaeId) [.advance c .none, .advance c .none] crypto =
        some crypto' ∧ crypto'.calls c = some { call with point := .returned (.ok wire) } := by
  have henter : MessageSeal.step aead keyOf localSaeId crypto (.advance c .none) =
      some (setCall crypto c { call with point := .wait i }) := by
    simp [MessageSeal.step, hc, hp, advance, hkey, enter, hl]
  have hwait : MessageSeal.step aead keyOf localSaeId (setCall crypto c { call with point := .wait i })
      (.advance c .none) = some (setCall (setCall crypto c { call with point := .wait i }) c
          { call with point := .returned (.ok wire) }) := by
    have hx' : (setCall crypto c { call with point := .wait i }).cells[i]? = some x := hx
    simp [MessageSeal.step, setCall_self, advance, hx', hkey, getOrTryInit, hfull]
  have hrun : run (MessageSeal.step aead keyOf localSaeId) [.advance c .none, .advance c .none] crypto =
      some (setCall (setCall crypto c { call with point := .wait i }) c
        { call with point := .returned (.ok wire) }) := by
    rw [run, henter, bind_some, run, hwait, bind_some, run]
  exact ⟨_, hrun, setCall_self ..⟩

/-- As long as no call for a publication finds a cell that was made for another
payload, every envelope is one of the payload that was passed. A call that finds
an envelope of another payload returns it. -/
theorem published_payload_sealed
    (h : Reach (step codec aead keyOf localSaeId session) SamePayload (start quicTransport) s) :
    (∀ c call wire, s.crypto.calls c = some call → call.point = .returned (.ok wire) →
      Encrypts aead localSaeId call.request.context call.request.payload wire ∧
        Sends codec s.published call.request) ∧
    ∀ c call key i (x : Cell) wire, s.crypto.calls c = some call → call.point = .enter →
      call.request.sealKey = some key → s.crypto.topicSeals.entries.lookup key = some i →
      s.crypto.cells[i]? = some x → x.content = .full wire →
      Encrypts aead localSaeId call.request.context x.opener.payload wire ∧
        ∃ crypto', run (MessageSeal.step aead keyOf localSaeId) [.advance c .none, .advance c .none]
          s.crypto = some crypto' ∧ crypto'.calls c = some { call with point := .returned (.ok wire) } := by
  have hinv := reach_inv h
  constructor
  · intro c call wire hc hp
    obtain ⟨r, hr, rfl, hsame⟩ := (hinv.history.calls c call hc).returned wire hp
    exact ⟨encrypts_made (hinv.history.made r hr).1 hsame, hinv.sends c call hc⟩
  · intro c call key i x wire hc hp hkey hl hx hfull
    rw [sameTarget_context (sameTarget_of_lookup hinv.history.placed hkey hl hx)]
    exact ⟨hinv.filled hx hfull, found_returned hc hp hkey hl hx hfull⟩

def peerStore : KeyStore.Store KeyStore.maxQkdSessions := fun i =>
  if i.1 = 0 then ⟨.active, 9, [115], peerSae, List.replicate MessageKeys.qkdKeyBytes 0⟩
  else KeyStore.clearEntry

def kmeKey : Text → Bytes := fun _ => List.replicate MessageKeys.qkdKeyBytes 9

def firstEvents : List Event :=
  [.host (.createPublisher roomyOs none 0 SessionRun.chatter (OneRing.sized 64)), .publish 0 [1] 0,
    .send 0 9 ⟨5, 0, [1]⟩ true, .advance 0 .none, .advance 0 .none, .advance 0 (.store (.ok peerStore)),
    .advance 0 (.kme (.ok [107])), .advance 0 (.random (some zeroNonce))]

/-- The publisher is destroyed and one with a larger message size is created,
which replaces the ring. Its first message has the number of the earlier one. -/
def againEvents : List Event :=
  [.host (.destroy 0), .host (.createPublisher roomyOs none 0 SessionRun.chatter (OneRing.sized 128)),
    .publish 1 [2] 0, .send 1 9 ⟨5, 0, [2]⟩ true, .advance 1 .none, .advance 1 .none]

def firstWire : Bytes :=
  (sealWithMaterial tagged [65] ⟨.topic, 5⟩ (kmeKey [107]) [107] (some zeroNonce.1) [0, 1]).toOption.getD []

theorem first_message_sealed :
    ∃ s, Reach (step plain tagged kmeKey [65] 0) SamePayload (start fun _ => true) s ∧
      s.crypto.calls 0 = some ⟨.topic 9 5 0 [0, 1], some 0, .returned (.ok firstWire)⟩ ∧
      Encrypts tagged [65] ⟨.topic, 5⟩ [0, 1] firstWire := by
  obtain ⟨s, hrun, hcall⟩ := exists_of_any
    (o := guardedRun (step plain tagged kmeKey [65] 0) SamePayload firstEvents (start fun _ => true))
    (p := fun s => s.crypto.calls 0 = some ⟨.topic 9 5 0 [0, 1], some 0, .returned (.ok firstWire)⟩)
    (by decide +kernel)
  have hreach := reach_of_guardedRun hrun
  exact ⟨s, hreach, hcall, ((published_payload_sealed hreach).1 0 _ firstWire hcall rfl).1⟩

theorem tagged_payload_unique {context : WireContext} {payload payload' : Bytes}
    (h : Encrypts tagged localSaeId context payload wire)
    (h' : Encrypts tagged localSaeId context payload' wire) : payload = payload' := by
  obtain ⟨key, keyId, nonce, h⟩ := h
  obtain ⟨key', keyId', nonce', h'⟩ := h'
  obtain ⟨header, body, hheader, hbody, rfl⟩ := sealWithMaterial_ok h
  obtain ⟨header', body', hheader', hbody', hwire⟩ := sealWithMaterial_ok h'
  obtain ⟨-, rfl⟩ := encodeHeader_unique hheader nonce.2 hheader' nonce'.2 hwire
  cases hbody
  exact (List.append_inj_left' (some.inj hbody') (by simp)).symm

/-- The second message goes out as the envelope of the first. -/
theorem renumbered_message_sealed_as_first :
    ∃ s, run (step plain tagged kmeKey [65] 0) (firstEvents ++ againEvents) (start fun _ => true) = some s ∧
      s.published = [⟨5, 0, [2]⟩, ⟨5, 0, [1]⟩] ∧
      s.crypto.calls 1 = some ⟨.topic 9 5 0 [0, 2], none, .returned (.ok firstWire)⟩ ∧
      Encrypts tagged [65] ⟨.topic, 5⟩ [0, 1] firstWire ∧
      ¬ Encrypts tagged [65] ⟨.topic, 5⟩ [0, 2] firstWire := by
  obtain ⟨s, hrun, hpublished, hcall⟩ := exists_of_any
    (o := run (step plain tagged kmeKey [65] 0) (firstEvents ++ againEvents) (start fun _ => true))
    (p := fun s => s.published = [⟨5, 0, [2]⟩, ⟨5, 0, [1]⟩] ∧
      s.crypto.calls 1 = some ⟨.topic 9 5 0 [0, 2], none, .returned (.ok firstWire)⟩)
    (by decide +kernel)
  have hfirst : Encrypts tagged [65] ⟨.topic, 5⟩ [0, 1] firstWire := ⟨kmeKey [107], [107], zeroNonce, rfl⟩
  refine ⟨s, hrun, hpublished, hcall, hfirst, fun hsecond => ?_⟩
  exact absurd (tagged_payload_unique hfirst hsecond) (by decide)

end RmwAxon.TopicPublication
