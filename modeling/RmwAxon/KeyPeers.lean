import RmwAxon.KeyStore
import RmwAxon.Transition

namespace RmwAxon.KeyPeers

open MessageKeys KeyStore Function List Option
open NodeTable (Text)
open SyncWire (Bytes validUtf8)

variable {n : Nat}

structure Held where
  keyId : Text
  key : Bytes
  active : Bool

def stateOf (active : Bool) : EntryState := if active then .active else .pending

def entryOf (peer : Nat) (sae : Text) (h : Held) : QkdEntry :=
  ⟨stateOf h.active, peer, h.keyId, sae, h.key⟩

def Represents (store : Store n) (peer : Nat) (sae : Text) : Option Held → Prop
  | none => ∀ i, (store i).state = .empty
  | some h => ∃ i, store i = entryOf peer sae h ∧ ∀ j, j ≠ i → (store j).state = .empty

structure Named (maxLen : Nat) (s : Text) : Prop where
  utf8 : validUtf8 s = true
  valid : ∀ name, validateIdentifier name s maxLen = .ok ()

theorem Named.atomicString {maxLen : Nat} {s : Text} (h : Named maxLen s) : atomicString s = some s := by
  exact atomicString_self (validateIdentifier_ok (h.valid "")).1 h.utf8

section Find

variable {α : Type} {i : Fin n}

theorem find_only {p : Fin n → Bool} (hi : p i = true) (hother : ∀ j, j ≠ i → p j = false) :
    (List.finRange n).find? p = some i := by
  cases h : (finRange n).find? p with
  | none =>
    have hnone := find?_eq_none.mp h i (mem_finRange i)
    exact absurd hi hnone
  | some j =>
    have hj := find?_some h
    by_cases hji : j = i
    · rw [hji]
    · rw [hother j hji] at hj
      cases hj

theorem findSome_only {f : Fin n → Option α} {a : α} (hi : f i = some a) (hother : ∀ j, j ≠ i → f j = none) :
    (List.finRange n).findSome? f = some a := by
  cases h : (finRange n).findSome? f with
  | none =>
    rw [findSome?_eq_none_iff.mp h i (mem_finRange i)] at hi
    cases hi
  | some b =>
    obtain ⟨j, -, hj⟩ := exists_of_findSome?_eq_some h
    by_cases hji : j = i
    · rw [← hi, ← hj, hji]
    · rw [hother j hji] at hj
      cases hj

theorem findSome_nothing {f : Fin n → Option α} (h : ∀ j, f j = none) :
    (List.finRange n).findSome? f = none :=
  findSome?_eq_none_iff.mpr fun j _ => h j

end Find

section Store

variable {store : Store n} {peer : Nat} {sae keyId : Text} {h : Held}

theorem represents_empty (peer : Nat) (sae : Text) : Represents (emptyStore n) peer sae none := fun _ => rfl

theorem stateOf_eq_active (active : Bool) : decide (stateOf active = .active) = active := by
  cases active <;> rfl

theorem entryOf_state (peer : Nat) (sae : Text) (h : Held) : (entryOf peer sae h).state ≠ .empty := by
  have hstate : ∀ active, stateOf active ≠ .empty := by decide
  exact hstate h.active

theorem entryOf_used (peer : Nat) (sae : Text) (h : Held) :
    (entryOf peer sae h).state = .pending ∨ (entryOf peer sae h).state = .active := by
  have hstate : ∀ active, stateOf active = .pending ∨ stateOf active = .active := by decide
  exact hstate h.active

theorem copyEntry_entryOf (hsae : Named maxSaeIdLen sae) (hkey : Named maxKeyIdLen h.keyId) :
    copyEntry (entryOf peer sae h) = some ⟨peer, sae, h.keyId, h.key, h.active⟩ := by
  have hactive : decide ((entryOf peer sae h).state = .active) = h.active := stateOf_eq_active h.active
  rw [copyEntry, hactive]
  simp only [entryOf, hsae.atomicString, hkey.atomicString]
  rfl

theorem findForDaemon_none (hr : Represents store peer sae none) (requireActive : Bool) :
    findForDaemon store peer requireActive = none :=
  findSome_nothing fun j => if_pos (.inl (hr j))

theorem findForDaemon_some (hr : Represents store peer sae (some h)) (hsae : Named maxSaeIdLen sae)
    (hkey : Named maxKeyIdLen h.keyId) (requireActive : Bool)
    (hactive : requireActive = true → h.active = true) :
    findForDaemon store peer requireActive = some ⟨peer, sae, h.keyId, h.key, h.active⟩ := by
  obtain ⟨i, hi, hother⟩ := hr
  refine findSome_only (i := i) ?_ fun j hj => if_pos (.inl (hother j hj))
  simp only [hi]
  rw [if_neg, copyEntry_entryOf hsae hkey]
  rintro (hempty | ⟨hrequire, hnot⟩ | hid)
  · exact entryOf_state peer sae h hempty
  · simp [entryOf, stateOf, hactive hrequire] at hnot
  · exact hid rfl

theorem findForDaemon_pending (hr : Represents store peer sae (some h)) (hactive : h.active = false) :
    findForDaemon store peer true = none := by
  obtain ⟨i, hi, hother⟩ := hr
  refine findSome_nothing fun j => ?_
  by_cases hj : j = i
  · subst hj
    refine if_pos (.inr (.inl ⟨rfl, ?_⟩))
    simp [hi, entryOf, stateOf, hactive]
  · exact if_pos (.inl (hother j hj))

section

variable (hr : Represents store peer sae (some h))
include hr

theorem findByKeyIdForTls_other (hkey : Named maxKeyIdLen h.keyId)
    (hne : h.keyId ≠ keyId) : findByKeyIdForTls store keyId = none := by
  obtain ⟨i, hi, hother⟩ := hr
  refine findSome_nothing fun j => ?_
  by_cases hj : j = i
  · subst hj
    have hstored : atomicString (entryOf peer sae h).keyId = some h.keyId := hkey.atomicString
    simp [hi, hstored, hne]
  · exact if_pos (by simp [hother j hj])

theorem findByKeyIdForTls_some (hsae : Named maxSaeIdLen sae) (hkey : Named maxKeyIdLen h.keyId) :
    findByKeyIdForTls store h.keyId = some ⟨peer, sae, h.keyId, h.key, h.active⟩ := by
  obtain ⟨i, hi, hother⟩ := hr
  refine findSome_only (i := i) ?_ fun j hj => if_pos (by simp [hother j hj])
  have hstored : atomicString (entryOf peer sae h).keyId = some h.keyId := hkey.atomicString
  simp only [hi]
  rw [if_neg, if_pos hstored, copyEntry_entryOf hsae hkey]
  rintro ⟨hactive, hpending⟩
  exact (entryOf_used peer sae h).elim hpending hactive

theorem activate_some (hkey : Named maxKeyIdLen h.keyId) : (activate store peer h.keyId).1 = true ∧
      Represents (activate store peer h.keyId).2 peer sae (some { h with active := true }) := by
  obtain ⟨i, hi, hother⟩ := hr
  have hstored : atomicString (entryOf peer sae h).keyId = some h.keyId := hkey.atomicString
  have hfound : position store (fun e => decide ((e.state = .pending ∨ e.state = .active) ∧
      e.remoteDaemonId = peer ∧ atomicString e.keyId = some h.keyId)) = some i := by
    refine find_only ?_ fun j hj => ?_
    · rw [hi, decide_eq_true_iff]
      exact ⟨entryOf_used peer sae h, rfl, hstored⟩
    · simp [hother j hj]
  rw [activate, hfound]
  by_cases hactive : (store i).state = .active
  · simp only [if_pos hactive]
    refine ⟨trivial, i, ?_, hother⟩
    rw [hi] at hactive ⊢
    cases hh : h.active with
    | false => simp [entryOf, stateOf, hh] at hactive
    | true => simp [entryOf, hh]
  · simp only [if_neg hactive]
    refine ⟨trivial, i, ?_, fun j hj => ?_⟩
    · rw [update_self, hi]
      rfl
    · rw [update_of_ne hj]
      exact hother j hj

end

theorem remove_represents {v : Option Held} (hr : Represents store peer sae v) :
    Represents (remove store peer) peer sae none := by
  intro i
  rw [remove]
  split_ifs with hi
  · rfl
  cases v with
  | none => exact hr i
  | some h =>
    obtain ⟨j, hj, hother⟩ := hr
    by_cases hij : i = j
    · subst hij
      rw [hj] at hi
      exact absurd ⟨entryOf_state peer sae h, rfl⟩ hi
    · exact hother i hij

variable [NeZero n]

theorem put_represents {v : Option Held} (hr : Represents store peer sae v) (hsae : Named maxSaeIdLen sae)
    {material : QkdKeyMaterial} (hkey : Named maxKeyIdLen material.keyId) (active : Bool) :
    ∃ store', put store peer sae material active = .ok store' ∧
      Represents store' peer sae (some ⟨material.keyId, material.key, active⟩) := by
  rw [put, hsae.valid, hkey.valid]
  refine ⟨_, rfl, ?_⟩
  cases v with
  | none =>
    refine ⟨_, update_self .., fun j hj => ?_⟩
    rw [update_of_ne hj]
    exact hr j
  | some h =>
    obtain ⟨i, hi, hother⟩ := hr
    have hfound : position store (fun e => decide (e.state ≠ .empty ∧ e.remoteDaemonId = peer)) = some i := by
      refine find_only ?_ fun j hj => ?_
      · rw [hi, decide_eq_true_iff]
        exact ⟨entryOf_state peer sae h, rfl⟩
      · simp [hother j hj]
    rw [hfound]
    refine ⟨i, update_self .., fun j hj => ?_⟩
    rw [show ((some i).or _).getD 0 = i from rfl, update_of_ne hj]
    exact hother j hj

end Store

section Manager

variable {store : Store n} {peer : Nat} {sae keyId : Text} {h : Held} {v : Option Held}
  {fetched : Except String QkdKeyMaterial} {material : QkdKeyMaterial} (hsae : Named maxSaeIdLen sae)

include hsae

theorem prepareOutbound_fetched [NeZero n] (hr : Represents store peer sae none)
    (hkey : Named maxKeyIdLen material.keyId) :
    ∃ store', prepareOutbound store peer sae (.ok material) =
        (.ok ⟨peer, sae, material.keyId, material.key, false⟩, store') ∧
      Represents store' peer sae (some ⟨material.keyId, material.key, false⟩) := by
  obtain ⟨store', hput, hr'⟩ := put_represents hr hsae hkey false
  refine ⟨store', ?_, hr'⟩
  simp only [prepareOutbound, findForDaemon_none hr, filter_none, Except.bind, hput,
    findForDaemon_some hr' hsae hkey false (by simp)]

theorem importInbound_fetched [NeZero n] (material : QkdKeyMaterial) (hr : Represents store peer sae v)
    (hkey : Named maxKeyIdLen material.keyId) :
    ∃ store', importInbound store peer sae (.ok material) = (.ok (), store') ∧
      Represents store' peer sae (some ⟨material.keyId, material.key, true⟩) := by
  obtain ⟨store', hput, hr'⟩ := put_represents hr hsae hkey true
  refine ⟨store', ?_, hr'⟩
  simp only [importInbound, Except.bind, hput]

theorem acceptInbound_same [NeZero n] (hr : Represents store peer sae (some h))
    (hkey : Named maxKeyIdLen h.keyId) (fetched : Except String QkdKeyMaterial) :
    ∃ store', acceptInbound store peer sae h.keyId fetched = (.ok (), store') ∧
      Represents store' peer sae (some { h with active := true }) := by
  obtain ⟨hactivated, hr'⟩ := activate_some hr hkey
  rw [acceptInbound, findForDaemon_some hr hsae hkey false (by simp)]
  cases hh : h.active with
  | true =>
    refine ⟨store, by simp [Option.filter], ?_⟩
    rwa [show ({ h with active := true } : Held) = h by rw [← hh]]
  | false => exact ⟨_, by simp [Option.filter, hactivated], hr'⟩

theorem acceptInbound_other [NeZero n] (hr : Represents store peer sae v)
    (hkeys : ∀ h ∈ v, Named maxKeyIdLen h.keyId) (hne : ∀ h ∈ v, h.keyId ≠ keyId) :
    acceptInbound store peer sae keyId fetched = importInbound store peer sae fetched := by
  rw [acceptInbound]
  cases v with
  | none => rw [findForDaemon_none hr, filter_none]
  | some h =>
    rw [findForDaemon_some hr hsae (hkeys h rfl) false (by simp)]
    simp [Option.filter, hne h rfl]

theorem activateByKeyId_same (hr : Represents store peer sae (some h)) (hkey : Named maxKeyIdLen h.keyId) :
    Represents (activateOutboundByKeyId store h.keyId).2 peer sae (some { h with active := true }) := by
  obtain ⟨-, hr'⟩ := activate_some hr hkey
  rw [activateOutboundByKeyId, findByKeyIdForTls_some hr hsae hkey]
  cases hh : h.active with
  | true =>
    rw [show ({ h with active := true } : Held) = h by rw [← hh]]
    simpa using hr
  | false => simpa using hr'

omit hsae in
theorem activateByKeyId_other (hr : Represents store peer sae v) (hkeys : ∀ h ∈ v, Named maxKeyIdLen h.keyId)
    (hne : ∀ h ∈ v, h.keyId ≠ keyId) : (activateOutboundByKeyId store keyId).2 = store := by
  cases v with
  | none => rw [activateOutboundByKeyId, findByKeyIdForTls, findSome_nothing fun j => if_pos (by simp [hr j])]
  | some h => rw [activateOutboundByKeyId, findByKeyIdForTls_other hr (hkeys h rfl) (hne h rfl)]

end Manager

end RmwAxon.KeyPeers
