import RmwAxon.KeyStore
import RmwAxon.SharedMemory

namespace RmwAxon.KeyCells

open KeyStore MessageKeys SharedMemory Function List Option
open NodeTable (Text)
open SyncWire (validUtf8)

inductive Cell
  | state
  | remoteDaemonId
  | keyIdLen
  | remoteSaeLen
  | key (i : Fin qkdKeyBytes)
  | keyId (i : Fin maxKeyIdLen)
  | remoteSaeId (i : Fin maxSaeIdLen)
  deriving DecidableEq

abbrev Memory := Cell → Nat

abbrev Stores := List (Cell × Nat)

def entryEmpty : Nat := 0
def entryPending : Nat := 1
def entryActive : Nat := 2

def stateWord (active : Bool) : Nat := if active then entryActive else entryPending

structure KeyRecord where
  remoteDaemonId : Nat
  remoteSaeId : Text
  material : QkdKeyMaterial
  saeValid : validateIdentifier "remote SAE ID" remoteSaeId maxSaeIdLen = .ok ()
  keyIdValid : validateIdentifier "QKD key_ID" material.keyId maxKeyIdLen = .ok ()
  keyLength : material.key.length = qkdKeyBytes

def byteAt (source : List UInt8) (i : Nat) : Nat := (source[i]?.getD 0).toNat

section Bytes

variable {n : Nat}

def storeAtomicBytes (destination : Fin n → Cell) (source : List UInt8) : Stores :=
  (List.finRange n).map fun i => (destination i, byteAt source i)

def clearAtomicBytes (destination : Fin n → Cell) : Stores :=
  (List.finRange n).map fun i => (destination i, 0)

end Bytes

def putStores (r : KeyRecord) : Stores :=
  clearAtomicBytes .key ++ clearAtomicBytes .keyId ++ clearAtomicBytes .remoteSaeId ++
    (.remoteDaemonId, r.remoteDaemonId) ::
    (storeAtomicBytes .key r.material.key ++ storeAtomicBytes .keyId r.material.keyId ++
      storeAtomicBytes .remoteSaeId r.remoteSaeId ++
      [(.keyIdLen, r.material.keyId.length), (.remoteSaeLen, r.remoteSaeId.length)])

def removeStores : Stores :=
  clearAtomicBytes .key ++ clearAtomicBytes .keyId ++ clearAtomicBytes .remoteSaeId ++
    [(.remoteDaemonId, 0), (.keyIdLen, 0), (.remoteSaeLen, 0)]

structure SessionKey extends QkdSessionKey where
  localSaeId : Text
  deriving DecidableEq, Repr

def toBytes (words : List Nat) : List UInt8 := words.map UInt8.ofNat

def atomicString {n : Nat} {α : Type} (len : Cell) (bytes : Fin n → Cell) (next : Text → Loads Cell Nat α) :
    Loads Cell Nat α :=
  .load len fun len =>
    if len = 0 ∨ n < len then .done none
    else .loadAll (((List.finRange n).take len).map bytes) fun value =>
      if validUtf8 (toBytes value) then next (toBytes value) else .done none

/-- The header with the local identifier is written by no put and no removal. -/
def copyEntry (localSaeId : Option Text) (active : Bool) : Loads Cell Nat SessionKey :=
  match localSaeId with
  | none => .done none
  | some localSaeId =>
    atomicString .remoteSaeLen .remoteSaeId fun remoteSaeId =>
    atomicString .keyIdLen .keyId fun keyId =>
    .loadAll ((List.finRange qkdKeyBytes).map .key) fun key =>
    .load .remoteDaemonId fun remoteDaemonId =>
    .load .state fun state =>
      if state ≠ stateWord active then .done none
      else .done (some ⟨⟨remoteDaemonId, remoteSaeId, keyId, toBytes key, active⟩, localSaeId⟩)

def image (r : KeyRecord) (active : Bool) : Memory
  | .state => stateWord active
  | .remoteDaemonId => r.remoteDaemonId
  | .keyIdLen => r.material.keyId.length
  | .remoteSaeLen => r.remoteSaeId.length
  | .key i => byteAt r.material.key i
  | .keyId i => byteAt r.material.keyId i
  | .remoteSaeId i => byteAt r.remoteSaeId i

def sessionKey (r : KeyRecord) (active : Bool) (localSaeId : Text) : SessionKey :=
  ⟨⟨r.remoteDaemonId, r.remoteSaeId, r.material.keyId, r.material.key, active⟩, localSaeId⟩

def entry (r : KeyRecord) (active : Bool) : QkdEntry :=
  ⟨if active then .active else .pending, r.remoteDaemonId, r.material.keyId, r.remoteSaeId, r.material.key⟩

theorem stateWord_inj {a b : Bool} : stateWord a = stateWord b ↔ a = b := by
  revert a b
  decide

theorem toBytes_take {n : Nat} {source : List UInt8} (h : source.length ≤ n) :
    toBytes (((List.finRange n).take source.length).map fun i : Fin n => byteAt source i) = source := by
  apply ext_getElem
  · simpa [toBytes] using h
  · intro i _ hi
    simp [toBytes, byteAt, hi]

def putCells : List Cell :=
  .remoteDaemonId :: ((List.finRange qkdKeyBytes).map .key ++ (List.finRange maxKeyIdLen).map .keyId ++
    (List.finRange maxSaeIdLen).map .remoteSaeId ++ [.keyIdLen, .remoteSaeLen])

theorem applyStores_putStores (mem : Memory) (r : KeyRecord) (active : Bool) :
    update (applyStores mem (putStores r)) .state (stateWord active) = image r active := by
  funext c
  by_cases hc : c = .state
  · subst hc
    simp [image]
  · have heq : putStores r = clearAtomicBytes .key ++ clearAtomicBytes .keyId ++
        clearAtomicBytes .remoteSaeId ++ putCells.map fun c => (c, image r active c) := by
      simp [putStores, putCells, storeAtomicBytes, image, comp_def]
    rw [update_of_ne hc, heq, applyStores, foldl_append, ← applyStores, applyStores_map,
      if_pos (by cases c <;> simp_all [putCells])]

theorem guarded_atomicString {n : Nat} {α : Type} {len : Cell} {bytes : Fin n → Cell}
    {next : Text → Loads Cell Nat α} (h : ∀ text, (next text).Guarded .state entryEmpty) :
    (atomicString len bytes next).Guarded .state entryEmpty := by
  refine .load fun len => ?_
  split_ifs
  · exact .fail
  refine Loads.guarded_loadAll fun value => ?_
  split_ifs
  · exact h _
  · exact .fail

theorem guarded_copyEntry (localSaeId : Option Text) (active : Bool) :
    (copyEntry localSaeId active).Guarded .state entryEmpty := by
  cases localSaeId with
  | none => exact .fail
  | some localSaeId =>
    rw [copyEntry]
    refine guarded_atomicString fun remoteSaeId => guarded_atomicString fun keyId =>
      Loads.guarded_loadAll fun key => .load fun remoteDaemonId => .check ?_ fun state => ?_
    · exact if_pos (by cases active <;> decide)
    · split_ifs <;> exact ⟨_, rfl⟩

theorem eval_atomicString {n : Nat} {α : Type} (mem : Memory) (len : Cell) (bytes : Fin n → Cell)
    (next : Text → Loads Cell Nat α) {text : Text} (hlen : mem len = text.length) (h : text.length < n)
    (hmem : ∀ i, mem (bytes i) = byteAt text i) :
    (atomicString len bytes next).eval mem =
      (MessageKeys.atomicString text).bind fun text => (next text).eval mem := by
  have hread : toBytes ((((finRange n).take text.length).map bytes).map mem) = text := by
    rw [List.map_map, show mem ∘ bytes = fun i : Fin n => byteAt text i from funext hmem]
    exact toBytes_take (by omega)
  simp only [atomicString, Loads.eval, hlen, MessageKeys.atomicString, length_eq_zero_iff]
  by_cases hnil : text = []
  · simp [hnil, Loads.eval]
  · rw [if_neg (by simp [hnil]; omega), Loads.eval_loadAll, hread, if_neg hnil]
    split_ifs <;> rfl

theorem toBytes_key (r : KeyRecord) (active : Bool) :
    toBytes (((List.finRange qkdKeyBytes).map Cell.key).map (image r active)) = r.material.key := by
  have htake := toBytes_take (n := qkdKeyBytes) r.keyLength.le
  rw [r.keyLength, take_of_length_le (by simp)] at htake
  rw [List.map_map]
  exact htake

/-- An undisturbed copy of a record is the copy of the whole entry. -/
theorem eval_copyEntry (r : KeyRecord) (a b : Bool) (localSaeId : Option Text) :
    (copyEntry localSaeId b).eval (image r a) = localSaeId.bind fun localSaeId =>
        if a = b then (KeyStore.copyEntry (entry r a)).map fun session => ⟨session, localSaeId⟩
        else none := by
  cases localSaeId with
  | none => rfl
  | some localSaeId =>
    have hsae := (validateIdentifier_ok r.saeValid).2
    have hkeyId := (validateIdentifier_ok r.keyIdValid).2
    have hstate : image r a .state = stateWord a := rfl
    have hid : image r a .remoteDaemonId = r.remoteDaemonId := rfl
    simp only [copyEntry, eval_atomicString (image r a) .remoteSaeLen .remoteSaeId _ rfl hsae fun _ => rfl,
      eval_atomicString (image r a) .keyIdLen .keyId _ rfl hkeyId fun _ => rfl, Loads.eval_loadAll,
      Loads.eval, toBytes_key, hstate, hid]
    by_cases hab : a = b
    · subst hab
      cases a <;> simp [KeyStore.copyEntry, entry, Loads.eval, Option.map_bind]
    · simp [hab, stateWord_inj, Loads.eval]

def Copies (k : SessionKey) (r : KeyRecord) : Prop :=
  k.remoteDaemonId = r.remoteDaemonId ∧ k.remoteSaeId = r.remoteSaeId ∧ k.keyId = r.material.keyId ∧
    k.key = r.material.key

theorem copies_of_eval {r : KeyRecord} {a b : Bool} {localSaeId : Option Text} {k : SessionKey}
    (h : (copyEntry localSaeId b).eval (image r a) = some k) : Copies k r := by
  rw [eval_copyEntry] at h
  obtain ⟨localSaeId, -, h⟩ := bind_eq_some_iff.mp h
  split_ifs at h
  obtain ⟨session, hcopy, rfl⟩ := map_eq_some_iff.mp h
  obtain ⟨sae, hsae, hcopy⟩ := bind_eq_some_iff.mp hcopy
  obtain ⟨keyId, hkeyId, hcopy⟩ := bind_eq_some_iff.mp hcopy
  cases hcopy
  exact ⟨rfl, eq_of_atomicString hsae, eq_of_atomicString hkeyId, rfl⟩

end RmwAxon.KeyCells
