import Mathlib.Data.Finset.Card
import Mathlib.Data.List.Perm.Subperm
import RmwAxon.SealSteps

namespace RmwAxon.SealUses

open MessageKeys MessageSeal QkdEnvelope SealChange SealHistory SealSteps Transition Function List
open NodeTable (Text)
open SyncWire (Bytes)

variable {aead : Aead} {keyOf : Text → Bytes} {localSaeId : Text} {s t : State} {c : Nat} {call : Call}

def SameTarget (a b : Request) : Prop := a.sealKey = b.sealKey ∧ (a.sealKey = none → a = b)

theorem sameTarget_equivalence : Equivalence SameTarget where
  refl _ := ⟨rfl, fun _ => rfl⟩
  symm h := ⟨h.1.symm, fun hb => (h.2 (h.1.trans hb)).symm⟩
  trans h h' := ⟨h.1.trans h'.1, fun ha => (h.2 ha).trans (h'.2 (h.1.symm.trans ha))⟩

theorem sameTarget_of_lookup (h : Placed s) {key : TopicSealKey} {i : Nat} {x : Cell}
    (hkey : call.request.sealKey = some key) (hl : s.topicSeals.entries.lookup key = some i)
    (hx : s.cells[i]? = some x) : SameTarget call.request x.opener := by
  obtain ⟨before, after, hentries, -⟩ := lookup_eq_some_iff.mp hl
  obtain ⟨y, hy, hopener⟩ := h (key, i) (by simp [hentries])
  rw [hx] at hy
  cases hy
  exact ⟨hkey.trans hopener.symm, fun hnone => by simp [hkey] at hnone⟩

theorem reach_inv (h : Reach (step aead keyOf localSaeId) anyStep start s) :
    Inv SameTarget aead localSaeId s :=
  h.invariant inv_start fun _ _ _ hi _ hs =>
    step_inv sameTarget_equivalence hi
      (fun _ _ _ _ _ hkey hl _ hx => sameTarget_of_lookup hi.placed hkey hl hx) hs

def uses (s : State) (keyId : Text) : Nat := s.grants.countP fun g => decide (g.material.keyId = keyId)

def keyIds (s : State) : List Text := s.obtained.map fun o => o.2.keyId

structure Counted (s : State) : Prop where
  granted : ∀ g ∈ s.grants, (g.remoteSaeId, g.material) ∈ s.obtained
  cached : ∀ sae k, s.outboundKeys sae = some k →
    (sae, k.material) ∈ s.obtained ∧ uses s k.material.keyId = k.uses ∧ k.uses ≤ qkdMessagesPerKey
  bounded : ∀ keyId, uses s keyId ≤ qkdMessagesPerKey

theorem Counted.same (h : Counted s) (hkeys : t.outboundKeys = s.outboundKeys) (hgrants : t.grants = s.grants)
    (hobtained : t.obtained = s.obtained) : Counted t := by
  obtain ⟨hg, hc, hb⟩ := h
  refine ⟨?_, ?_, ?_⟩
  · rwa [hgrants, hobtained]
  · simpa only [uses, hkeys, hgrants, hobtained] using hc
  · simpa only [uses, hgrants] using hb

theorem uses_grant (s : State) (obtained : List (Text × QkdKeyMaterial)) (c : Nat) (call : Call) (sae : Text)
    (key : CachedOutboundKey) (keyId : Text) :
    uses (grant { s with obtained := obtained } c call sae key) keyId =
      uses s keyId + if key.material.keyId = keyId then 1 else 0 := by
  simp [uses, grant, setCall, countP_cons]

variable {key : CachedOutboundKey} {keyId sae : Text} {obtained : List (Text × QkdKeyMaterial)}

theorem Counted.grant (h : Counted s) (hsub : ∀ o ∈ s.obtained, o ∈ obtained)
    (hnodup : (obtained.map fun o => o.2.keyId).Nodup) (hmem : (sae, key.material) ∈ obtained)
    (huses : uses s key.material.keyId + 1 = key.uses) (hle : key.uses ≤ qkdMessagesPerKey) :
    Counted (grant { s with obtained := obtained } c call sae key) where
  granted g hg := by
    rcases mem_cons.mp hg with rfl | hg
    · exact hmem
    · exact hsub _ (h.granted g hg)
  cached sae' k hk := by
    rw [uses_grant]
    by_cases hsae : sae' = sae
    · subst hsae
      obtain rfl : key = k := by simpa [MessageSeal.grant, setCall] using hk
      exact ⟨hmem, by simpa using huses, hle⟩
    have hk' : s.outboundKeys sae' = some k := by
      simpa [MessageSeal.grant, setCall, update_of_ne hsae] using hk
    obtain ⟨hmem', huses', hle'⟩ := h.cached sae' k hk'
    have hne : key.material.keyId ≠ k.material.keyId := fun he =>
      hsae (congrArg Prod.fst (inj_on_of_nodup_map hnodup (hsub _ hmem') hmem he.symm))
    exact ⟨hsub _ hmem', by simpa [hne] using huses', hle'⟩
  bounded keyId := by
    rw [uses_grant]
    split_ifs with he
    · subst he
      omega
    · exact h.bounded keyId

theorem Counted.uses_eq_zero (h : Counted s) (hnew : keyId ∉ keyIds s) : uses s keyId = 0 := by
  rw [uses, countP_eq_zero]
  intro g hg
  have hne : g.material.keyId ≠ keyId := fun he =>
    hnew (he ▸ mem_map.mpr ⟨_, h.granted g hg, rfl⟩)
  simpa using hne

theorem step_counted {e : Event} (h : (keyIds s).Nodup → Counted s)
    (hstep : step aead keyOf localSaeId s e = some t) (hnodup : (keyIds t).Nodup) : Counted t := by
  cases step_change hstep with
  | called | found | opened | taken | claimed | located | cleaned => exact (h hnodup).same rfl rfl rfl
  | @failed call error hc hp =>
    revert hnodup
    rw [fail]
    cases call.cell <;> exact fun hnodup => (h hnodup).same rfl rfl rfl
  | granted hc hp hgrant =>
    cases hgrant with
    | reused hk hlt =>
      obtain ⟨hmem, huses, -⟩ := (h hnodup).cached _ _ hk
      exact (h hnodup).grant (fun o ho => ho) hnodup hmem (congrArg (· + 1) huses) hlt
    | obtained hm =>
      obtain ⟨hnew, hold⟩ := nodup_cons.mp hnodup
      have hone : 1 ≤ qkdMessagesPerKey := by decide
      refine (h hold).grant (fun o ho => mem_cons_of_mem _ ho) hnodup mem_cons_self ?_ hone
      rw [(h hold).uses_eq_zero hnew]
  | @made call sae material nonce wire hc hp hwire =>
    revert hnodup
    rw [succeed]
    cases call.cell <;> exact fun hnodup => (h hnodup).same rfl rfl rfl

theorem reach_counted (h : Reach (step aead keyOf localSaeId) anyStep start s) (hnodup : (keyIds s).Nodup) :
    Counted s :=
  h.invariant (I := fun s => (keyIds s).Nodup → Counted s)
    (fun _ => ⟨by simp [start], by simp [start], by simp [uses, start]⟩)
    (fun _ _ _ hi _ hs => step_counted hi hs) hnodup

def Returned (s : State) (wire : Bytes) : Prop :=
  ∃ c call, s.calls c = some call ∧ call.point = .returned (.ok wire)

def Names (wire : Bytes) (keyId : Text) : Prop :=
  ∃ (context : WireContext) (nonce : Nonce) (senderSaeId : Text) (header body : Bytes),
    encodeHeader context nonce.1 senderSaeId keyId = .ok header ∧ wire = header ++ body

theorem names_made {r : Sealed} (hmade : Made aead localSaeId r) (h : Names r.wire keyId) :
    r.material.keyId = keyId := by
  obtain ⟨nonce, hsealed⟩ := hmade
  obtain ⟨header, body, hheader, -, hwire⟩ := sealWithMaterial_ok hsealed
  obtain ⟨context', nonce', sender', header', body', hheader', hwire'⟩ := h
  exact (encodeHeader_unique hheader nonce.2 hheader' nonce'.2 (hwire.symm.trans hwire')).1

def madeWith (s : State) (keyId : Text) : List Sealed :=
  s.sealed.filter fun r => decide (r.material.keyId = keyId)

def grantOf (r : Sealed) : Grant := ⟨r.call, r.remoteSaeId, r.material⟩

variable {R : Request → Request → Prop}

theorem madeWith_le_uses (h : Inv R aead localSaeId s) (keyId : Text) :
    (madeWith s keyId).length ≤ uses s keyId := by
  have hnodup : ((madeWith s keyId).map grantOf).Nodup := by
    have hcalls : ((madeWith s keyId).map Sealed.call).Nodup := h.once.sublist (filter_sublist.map _)
    exact List.Nodup.of_map Grant.call (by simpa [grantOf, comp_def] using hcalls)
  have hsub : (madeWith s keyId).map grantOf ⊆
      s.grants.filter fun g => decide (g.material.keyId = keyId) := by
    intro g hg
    obtain ⟨r, hr, rfl⟩ := mem_map.mp hg
    obtain ⟨hr, hkey⟩ := mem_filter.mp hr
    exact mem_filter.mpr ⟨(h.made r hr).2.2, hkey⟩
  have hle := (subperm_of_subset hnodup hsub).length_le
  rwa [length_map, ← countP_eq_length_filter] at hle

theorem names_card_le (h : Inv R aead localSaeId s)
    {wires : Finset Bytes} (hw : ∀ wire ∈ wires, Returned s wire ∧ Names wire keyId) :
    wires.card ≤ uses s keyId := by
  have hsub : wires ⊆ ((madeWith s keyId).map Sealed.wire).toFinset := by
    intro wire hmem
    obtain ⟨⟨c, call, hc, hp⟩, hnames⟩ := hw wire hmem
    obtain ⟨r, hr, rfl, -⟩ := (h.calls c call hc).returned wire hp
    have hkey := names_made (h.made r hr).1 hnames
    have hr' : r ∈ madeWith s keyId := mem_filter.mpr ⟨hr, by simpa using hkey⟩
    exact mem_toFinset.mpr (mem_map_of_mem hr')
  calc wires.card ≤ ((madeWith s keyId).map Sealed.wire).toFinset.card := Finset.card_le_card hsub
    _ ≤ (madeWith s keyId).length := by simpa using toFinset_card_le ((madeWith s keyId).map Sealed.wire)
    _ ≤ uses s keyId := madeWith_le_uses h keyId

/-- A KME that gives no key twice: ten envelopes at most name one key, and
whoever an envelope is for, its key was obtained for. -/
theorem key_seals_ten_for_its_sae (h : Reach (step aead keyOf localSaeId) anyStep start s)
    (hkme : (s.obtained.map fun o => o.2.keyId).Nodup) :
    (∀ (keyId : Text) (wires : Finset Bytes), (∀ wire ∈ wires, Returned s wire ∧ Names wire keyId) →
      wires.card ≤ 10) ∧
    ∀ c call wire, s.calls c = some call → call.point = .returned (.ok wire) →
      ∃ r ∈ s.sealed, r.wire = wire ∧ SameTarget call.request r.request ∧ Made aead localSaeId r ∧
        Addressed s.sessions r.request r.remoteSaeId ∧ (r.remoteSaeId, r.material) ∈ s.obtained := by
  have hinv := reach_inv h
  have hcounted := reach_counted h hkme
  refine ⟨fun keyId wires hw => (names_card_le hinv hw).trans (hcounted.bounded keyId), ?_⟩
  intro c call wire hc hp
  obtain ⟨r, hr, hwire, htarget⟩ := (hinv.calls c call hc).returned wire hp
  obtain ⟨hmade, haddressed, hgrant⟩ := hinv.made r hr
  exact ⟨r, hr, hwire, htarget, hmade, haddressed, hcounted.granted _ hgrant⟩

def peerSae : Text := [66]

def zeroNonce : Nonce := ⟨List.replicate qkdNonceBytes 0, by decide⟩

def replyEvents : List Event :=
  [.call 0 (.reply peerSae ⟨.serviceResponse, 7⟩ [1]), .advance 0 (.kme (.ok [107])),
    .advance 0 (.random (some zeroNonce))]

def replyWire : Bytes :=
  (sealWithMaterial tagged [65] ⟨.serviceResponse, 7⟩ (List.replicate qkdKeyBytes 9) [107] (some zeroNonce.1)
    [1]).toOption.getD []

theorem reply_sealed_for_peer :
    ∃ s, run (step tagged (fun _ => List.replicate qkdKeyBytes 9) [65]) replyEvents start = some s ∧
      Returned s replyWire ∧
      (∀ wires : Finset Bytes, (∀ wire ∈ wires, Returned s wire ∧ Names wire [107]) → wires.card ≤ 10) ∧
      ∃ r ∈ s.sealed, r.wire = replyWire ∧ r.remoteSaeId = peerSae ∧ (peerSae, r.material) ∈ s.obtained := by
  obtain ⟨s, hrun, hcall, hkme⟩ := exists_of_any
    (o := run (step tagged (fun _ => replicate qkdKeyBytes 9) [65]) replyEvents start)
    (p := fun s =>
      s.calls 0 = some ⟨.reply peerSae ⟨.serviceResponse, 7⟩ [1], none, .returned (.ok replyWire)⟩ ∧
      (s.obtained.map fun o => o.2.keyId).Nodup) (by decide +kernel)
  obtain ⟨hcard, hkey⟩ := key_seals_ten_for_its_sae (reach_of_run hrun fun _ _ _ => trivial) hkme
  obtain ⟨r, hr, hwire, htarget, -, haddressed, hobtained⟩ := hkey 0 _ replyWire hcall rfl
  rw [← htarget.2 rfl] at haddressed
  have hsae : r.remoteSaeId = peerSae := haddressed.reply_eq
  exact ⟨s, hrun, ⟨0, _, hcall, rfl⟩, hcard [107], r, hr, hwire, hsae, hsae ▸ hobtained⟩

end RmwAxon.SealUses
