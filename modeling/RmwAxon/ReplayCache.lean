import Mathlib.Data.Finset.Card
import RmwAxon.QkdEnvelope
import RmwAxon.Transition

namespace RmwAxon.ReplayCache

open NodeTable (Text)
open QkdEnvelope List
open SyncWire (Bytes)

def qkdReplayCacheSize : Nat := 4096

structure OpenedPayload where
  data : Bytes
  qkdReply : Option Text
  deriving DecidableEq, Repr

/-- What the shared cache and the KME say of a key: no slot is found for it, it
is there, it is claimed and the KME gives it, or the KME refuses. -/
inductive KeyAnswer
  | unavailable (error : String)
  | ready (key : Bytes)
  | fetched (key : Bytes)
  | refused (error : String)
  deriving DecidableEq, Repr

structure Answers where
  store : Except String Unit
  lookup : KeyAnswer
  publish : Except String Unit
  deriving DecidableEq

structure Offer where
  wire : Bytes
  context : WireContext
  answers : Answers
  deriving DecidableEq

def replayKey (envelope : Envelope) : Bytes :=
  envelope.senderSaeId ++ [0] ++ envelope.keyId ++ [0] ++ envelope.nonce

/-- The payload, once the key is there. A key that was fetched is published after
it has opened the envelope. -/
def unlock (aead : Aead) (context : WireContext) (envelope : Envelope) (answers : Answers) :
    Except String Bytes :=
  match answers.lookup with
  | .unavailable error => .error error
  | .refused error => .error error
  | .ready key => openWithMaterial aead context envelope key
  | .fetched key => do
      let plaintext ← openWithMaterial aead context envelope key
      answers.publish
      pure plaintext

def makeRoom (oldest : Bytes) (seen : Finset Bytes) : Finset Bytes :=
  if qkdReplayCacheSize ≤ seen.card then seen.erase oldest else seen

def openWire (aead : Aead) (oldest : Bytes) (offer : Offer) (seen : Finset Bytes) :
    Except String OpenedPayload × Finset Bytes :=
  match readEnvelope offer.context offer.wire with
  | .error error => (.error error, seen)
  | .ok envelope =>
    match offer.answers.store with
    | .error error => (.error ("open QKD key store: " ++ error), seen)
    | .ok () =>
      if replayKey envelope ∈ seen then (.error "QKD message key ID was already used", seen)
      else
        let seen := insert (replayKey envelope) (makeRoom oldest seen)
        match unlock aead offer.context envelope offer.answers with
        | .error error => (.error error, seen.erase (replayKey envelope))
        | .ok data =>
          (.ok ⟨data, if offer.context.kind = .serviceRequest then some envelope.senderSaeId else none⟩,
            seen)

structure State where
  seen : Finset Bytes
  accepted : List Offer

structure Call where
  offer : Offer
  oldest : Bytes

def start : State := ⟨∅, []⟩

def accepts (aead : Aead) (seen : Finset Bytes) (call : Call) : Bool :=
  (openWire aead call.oldest call.offer seen).1.isOk

def step (aead : Aead) (s : State) (call : Call) : Option State :=
  if qkdReplayCacheSize ≤ s.seen.card ∧ call.oldest ∉ s.seen then none
  else some ⟨(openWire aead call.oldest call.offer s.seen).2,
    if accepts aead s.seen call then call.offer :: s.accepted else s.accepted⟩

def offerKey (offer : Offer) : Option Bytes :=
  (readEnvelope offer.context offer.wire).toOption.map replayKey

def recent (count : Nat) (accepted : List Offer) : List Bytes := (accepted.take count).filterMap offerKey

structure Fresh (offer : Offer) (seen : Finset Bytes) (envelope : Envelope) : Prop where
  read : readEnvelope offer.context offer.wire = .ok envelope
  store : offer.answers.store = .ok ()
  new : replayKey envelope ∉ seen

/-- The key that makes room is not one of those that the set is to keep. -/
def Spares (aead : Aead) (s : State) (call : Call) : Prop :=
  (∃ envelope, Fresh call.offer s.seen envelope) → qkdReplayCacheSize ≤ s.seen.card →
    call.oldest ∉ recent
      (if accepts aead s.seen call then qkdReplayCacheSize - 1 else qkdReplayCacheSize) s.accepted

section Open

variable {aead : Aead} (oldest : Bytes) {offer : Offer} {seen : Finset Bytes} {envelope : Envelope}

theorem openWire_stale (aead : Aead) (h : ¬ ∃ envelope, Fresh offer seen envelope) :
    ∃ error, openWire aead oldest offer seen = (.error error, seen) := by
  rw [openWire]
  cases hread : readEnvelope offer.context offer.wire with
  | error error => exact ⟨error, rfl⟩
  | ok envelope =>
    cases hstore : offer.answers.store with
    | error error => exact ⟨_, rfl⟩
    | ok _ =>
      by_cases hmem : replayKey envelope ∈ seen
      · exact ⟨_, if_pos hmem⟩
      · exact absurd ⟨envelope, hread, hstore, hmem⟩ h

theorem openWire_unlocked (h : Fresh offer seen envelope) {data : Bytes}
    (hdata : unlock aead offer.context envelope offer.answers = .ok data) :
    ∃ payload, openWire aead oldest offer seen =
      (.ok payload, insert (replayKey envelope) (makeRoom oldest seen)) := by
  simp only [openWire, h.read, h.store, if_neg h.new, hdata]
  exact ⟨_, rfl⟩

/-- An offer that fails takes its own key back, but not the one that made room. -/
theorem openWire_failed (h : Fresh offer seen envelope) {error : String}
    (herror : unlock aead offer.context envelope offer.answers = .error error) :
    openWire aead oldest offer seen = (.error error, makeRoom oldest seen) := by
  have hnew : replayKey envelope ∉ makeRoom oldest seen := by
    unfold makeRoom
    split_ifs
    · exact fun hmem => h.new (Finset.mem_of_mem_erase hmem)
    · exact h.new
  simp only [openWire, h.read, h.store, if_neg h.new, herror, Finset.erase_insert hnew]

theorem accepts_iff {call : Call} : accepts aead seen call = true ↔
    ∃ envelope, Fresh call.offer seen envelope ∧
      ∃ data, unlock aead call.offer.context envelope call.offer.answers = .ok data := by
  rw [accepts]
  by_cases h : ∃ envelope, Fresh call.offer seen envelope
  · obtain ⟨envelope, hfresh⟩ := h
    cases hdata : unlock aead call.offer.context envelope call.offer.answers with
    | error error =>
      rw [openWire_failed call.oldest hfresh hdata]
      constructor
      · intro h
        cases h
      rintro ⟨envelope', hfresh', data, hdata'⟩
      obtain rfl : envelope = envelope' := Except.ok.inj (hfresh.read.symm.trans hfresh'.read)
      rw [hdata] at hdata'
      cases hdata'
    | ok data =>
      obtain ⟨payload, hopen⟩ := openWire_unlocked call.oldest hfresh hdata
      rw [hopen]
      exact ⟨fun _ => ⟨envelope, hfresh, data, hdata⟩, fun _ => rfl⟩
  · obtain ⟨error, hopen⟩ := openWire_stale call.oldest aead h
    rw [hopen]
    constructor
    · intro h
      cases h
    · rintro ⟨envelope, hfresh, -⟩
      exact absurd ⟨envelope, hfresh⟩ h

theorem readEnvelope_unique {context context' : WireContext} {wire : Bytes} {envelope' : Envelope}
    (h : readEnvelope context wire = .ok envelope) (h' : readEnvelope context' wire = .ok envelope') :
    envelope = envelope' := by
  simp only [readEnvelope] at h h'
  split_ifs at h h'
  cases h
  cases h'
  rfl

end Open

section Recent

variable {count : Nat} {accepted : List Offer} {offer : Offer} {k : Bytes}

theorem mem_recent : k ∈ recent count accepted ↔ ∃ o ∈ accepted.take count, offerKey o = some k :=
  mem_filterMap

end Recent

end RmwAxon.ReplayCache
