import RmwAxon.SealHistory

namespace RmwAxon.SealSteps

open MessageKeys MessageSeal QkdEnvelope SealChange SealHistory List
open NodeTable (Text)
open SyncWire (Bytes)

variable {aead : Aead} {keyOf : Text → Bytes} {localSaeId : Text} {s s' t : State} {c : Nat} {call : Call}
  {R : Request → Request → Prop}

theorem live (hc : s.calls c = some call) (h : ∀ result, call.point ≠ .returned result) :
    ∀ other, s.calls c = some other → ∀ result, other.point ≠ .returned result := by
  intro other ho
  rw [hc] at ho
  cases ho
  exact h

theorem callOk_called (s : State) (c : Nat) (request : Request) :
    CallOk R s c ⟨request, none, first request⟩ := by
  cases request with
  | daemon d context payload =>
    refine ⟨?_, fun d hd => ?_, by simp [first], by simp [first], by simp [first]⟩
    · simp [Holds, first]
    · cases hd
      rfl
  | topic d hash number payload =>
    refine ⟨?_, by simp [first], by simp [first], by simp [first], by simp [first]⟩
    simp [Holds, first]
  | reply sae context payload =>
    refine ⟨?_, by simp [first], fun sae hsae => ?_, by simp [first], by simp [first]⟩
    · simp [Holds, first]
    · cases hsae
      exact .reply ..

variable {i : Nat} {key : TopicSealKey} {sae : Text}

theorem callOk_wait (h : CallOk R s c call) {x : Cell} (hx : s.cells[i]? = some x)
    (hr : R call.request x.opener) : CallOk R s c { call with point := .wait i } := by
  refine ⟨fun j hj => ?_, by simp, by simp, by simp, by simp⟩
  rcases hj with hj | hj | ⟨error, hj⟩
  · exact h.held j (.inl hj)
  · cases hj
    exact ⟨x, hx, hr⟩
  · cases hj

theorem callOk_over (h : CallOk R s c call) (result : Except String Bytes)
    (hr : ∀ wire, result = .ok wire → ∃ r ∈ s.sealed, r.wire = wire ∧ R call.request r.request) :
    CallOk R s c { call with point := .returned result } := by
  refine ⟨fun j hj => ?_, by simp, by simp, by simp, fun wire hp => ?_⟩
  · rcases hj with hj | hj | ⟨error, hj⟩
    · exact h.held j (.inl hj)
    · cases hj
    · cases hj
  · cases hp
    exact hr wire rfl

section

variable (h : Inv R aead localSaeId s)
include h

theorem inv_found (hc : s.calls c = some call)
    (hp : call.point = .enter) (hl : s.topicSeals.entries.lookup key = some i)
    (hrel : ∀ x : Cell, s.cells[i]? = some x → R call.request x.opener) :
    Inv R aead localSaeId (setCall s c { call with point := .wait i }) := by
  obtain ⟨before, after, hentries, -⟩ := lookup_eq_some_iff.mp hl
  obtain ⟨x, hx, -⟩ := h.placed (key, i) (by simp [hentries])
  refine h.setCall (.refl s) rfl rfl h.placed h.filled (live hc (by simp [hp])) ?_
  exact callOk_wait (h.calls c call hc) hx (hrel x hx)

theorem inv_opened (hR : Equivalence R) (hc : s.calls c = some call)
    (hp : call.point = .enter) (hkey : call.request.sealKey = some key) :
    Inv R aead localSaeId (setCall (opened s call key) c { call with point := .wait s.cells.length }) := by
  refine h.setCall (grows_opened s call key) rfl rfl (h.placed.opened hkey) (h.filled.opened key)
    (live hc (by simp [hp])) ?_
  have hnew : (opened s call key).cells[s.cells.length]? = some ⟨call.request, .empty⟩ := by
    simp [opened]
  exact callOk_wait ((h.calls c call hc).mono (grows_opened s call key)) hnew (hR.refl call.request)

theorem inv_taken (hR : Equivalence R) {x : Cell} {wire : Bytes}
    (hc : s.calls c = some call) (hp : call.point = .wait i) (hx : s.cells[i]? = some x)
    (hfull : x.content = .full wire) :
    Inv R aead localSaeId (setCall s c { call with point := .returned (.ok wire) }) := by
  refine h.setCall (.refl s) rfl rfl h.placed h.filled (live hc (by simp [hp])) ?_
  refine callOk_over (h.calls c call hc) (.ok wire) fun w hw => ?_
  cases hw
  obtain ⟨y, hy, hcall⟩ := (h.calls c call hc).held i (.inr (.inl hp))
  obtain ⟨r, hr, hwire, hopener⟩ := h.filled i x wire hx hfull
  rw [hx] at hy
  cases hy
  exact ⟨r, hr, hwire, hR.trans hcall (hR.symm hopener)⟩

theorem inv_claimed (hc : s.calls c = some call)
    (hp : call.point = .wait i) (hkey : call.request.sealKey = some key) :
    Inv R aead localSaeId (setCall (setContent s i .running) c ⟨call.request, some i, .find key.1⟩) := by
  have hg := grows_setContent s i .running
  refine h.setCall hg rfl rfl (h.placed.mono hg fun _ he => he) (h.filled.setContent (by simp))
    (live hc (by simp [hp])) ?_
  refine ⟨fun j hj => ?_, fun d hd => ?_, by simp, by simp, by simp⟩
  · obtain rfl : i = j := by simpa [Holds] using hj
    exact ((h.calls c call hc).mono hg).held i (.inr (.inl hp))
  · cases hd
    cases hr : call.request <;> rw [hr] at hkey <;> cases hkey
    rfl

theorem inv_failed {error : String} (hc : s.calls c = some call)
    (hp : Working call.point) : Inv R aead localSaeId (fail s c call error) := by
  have hlive := live hc fun _ heq => by rw [heq] at hp; cases hp
  rw [fail]
  cases hcell : call.cell with
  | none =>
    have hover := callOk_over (h.calls c call hc) (.error error) fun w hw => by cases hw
    rw [hcell] at hover
    exact h.setCall (.refl s) rfl rfl h.placed h.filled hlive hover
  | some i =>
    have hg := grows_setContent s i .empty
    refine h.setCall hg rfl rfl (h.placed.mono hg fun _ he => he) (h.filled.setContent (by simp)) hlive ?_
    refine ⟨fun j hj => ?_, by simp, by simp, by simp, by simp⟩
    obtain rfl : i = j := by simpa [Holds, hcell] using hj
    exact ((h.calls c call hc).mono hg).held i (.inl hcell)

theorem inv_located {d : Nat} (hc : s.calls c = some call) (hp : call.point = .find d) : Inv R aead localSaeId
      (setCall { s with sessions := (d, sae) :: s.sessions } c { call with point := .fetch sae }) := by
  have hg : Grows s { s with sessions := (d, sae) :: s.sessions } :=
    ⟨(Grows.refl s).cells, fun _ hmem => mem_cons_of_mem _ hmem, fun _ hmem => hmem, fun _ hmem => hmem⟩
  refine h.setCall hg rfl rfl h.placed h.filled (live hc (by simp [hp])) ?_
  refine ⟨fun j hj => ?_, by simp, fun sae hsae => ?_, by simp, by simp⟩
  · exact (h.calls c call hc).held j (.inl (by simpa [Holds] using hj))
  · cases hsae
    exact .session ((h.calls c call hc).found d hp) (by simp)

theorem inv_granted {key : CachedOutboundKey}
    {obtained : List (Text × QkdKeyMaterial)} (hc : s.calls c = some call)
    (hp : call.point = .fetch sae) :
    Inv R aead localSaeId (grant { s with obtained := obtained } c call sae key) := by
  have hg : Grows s { s with
      obtained := obtained
      outboundKeys := Function.update s.outboundKeys sae (some key)
      grants := ⟨c, sae, key.material⟩ :: s.grants } :=
    ⟨(Grows.refl s).cells, fun _ hmem => hmem, fun _ hmem => mem_cons_of_mem _ hmem, fun _ hmem => hmem⟩
  refine h.setCall hg rfl rfl h.placed h.filled (live hc (by simp [hp])) ?_
  refine ⟨fun j hj => ?_, by simp, by simp, fun sae m hsae => ?_, by simp⟩
  · exact (h.calls c call hc).held j (.inl (by simpa [Holds] using hj))
  · cases hsae
    exact ⟨(h.calls c call hc).fetching sae hp, by simp⟩

end

theorem filled_sealed (h : Filled R s) (r : Sealed) : Filled R { s with sealed := r :: s.sealed } := by
  intro i x wire hx hfull
  obtain ⟨q, hq, hw⟩ := h i x wire hx hfull
  exact ⟨q, mem_cons_of_mem _ hq, hw⟩

theorem filled_setFull (h : Filled R s) {r : Sealed} (hr : r ∈ s.sealed)
    (hcell : ∀ x : Cell, s.cells[i]? = some x → R r.request x.opener) :
    Filled R (setContent s i (.full r.wire)) := by
  intro j y wire hy hfull
  obtain ⟨x, hx, ho, hc⟩ := getElem?_setContent hy
  rw [hfull] at hc
  split_ifs at hc with hij
  · subst hij
    cases hc
    exact ⟨r, hr, rfl, ho ▸ hcell x hx⟩
  · rw [ho]
    exact h j x wire hx hc.symm

theorem inv_sealedUp (h : Inv R aead localSaeId s) (hR : Equivalence R) {material : QkdKeyMaterial}
    {nonce : Nonce} {wire : Bytes} (hc : s.calls c = some call)
    (hp : call.point = .seal sae material)
    (hwire : sealWithMaterial aead localSaeId call.request.context material.key material.keyId (some nonce.1)
      call.request.payload = .ok wire) :
    Inv R aead localSaeId
      (succeed { s with sealed := ⟨c, call.request, sae, material, wire⟩ :: s.sealed } c call wire) := by
  have hcall := h.calls c call hc
  have hlive := live hc (by simp [hp])
  have hg : Grows s { s with sealed := ⟨c, call.request, sae, material, wire⟩ :: s.sealed } :=
    ⟨(Grows.refl s).cells, fun _ hmem => hmem, fun _ hmem => hmem, fun _ hmem => mem_cons_of_mem _ hmem⟩
  obtain ⟨haddr, hgrant⟩ := hcall.sealing sae material hp
  have hover : CallOk R { s with sealed := ⟨c, call.request, sae, material, wire⟩ :: s.sealed } c
      { call with point := .returned (.ok wire) } := by
    refine callOk_over (hcall.mono hg) (.ok wire) fun w hw => ?_
    cases hw
    exact ⟨_, mem_cons_self, rfl, hR.refl _⟩
  rw [succeed]
  cases hcell : call.cell with
  | none =>
    rw [hcell] at hover
    exact h.sealCall (r := ⟨c, call.request, sae, material, wire⟩) hg rfl rfl
      ⟨⟨nonce, hwire⟩, haddr, hgrant⟩ h.placed (filled_sealed h.filled _) hlive hover rfl
  | some i =>
    have hset := grows_setContent { s with sealed := ⟨c, call.request, sae, material, wire⟩ :: s.sealed } i
      (.full wire)
    rw [hcell] at hover
    refine h.sealCall (r := ⟨c, call.request, sae, material, wire⟩) (hg.trans hset) rfl rfl
      ⟨⟨nonce, hwire⟩, haddr, hgrant⟩ (h.placed.mono (hg.trans hset) fun _ he => he) ?_ hlive
      (hover.mono hset) rfl
    refine filled_setFull (filled_sealed h.filled _) (r := ⟨c, call.request, sae, material, wire⟩)
      mem_cons_self ?_
    intro x hx
    obtain ⟨y, hy, hy'⟩ := hcall.held i (.inl hcell)
    rw [hx] at hy
    cases hy
    exact hy'

theorem step_inv (hR : Equivalence R) {e : Event} (h : Inv R aead localSaeId s) (hrel : Admits R s e)
    (hstep : step aead keyOf localSaeId s e = some t) : Inv R aead localSaeId t := by
  cases step_change hstep with
  | called hc =>
    exact h.setCall (.refl s) rfl rfl h.placed h.filled (by simp [hc]) (callOk_called s e.caller _)
  | found hc hp hkey hl => exact inv_found h hc hp hl (hrel _ _ _ hc hp hkey hl)
  | opened hc hp hkey => exact inv_opened h hR hc hp hkey
  | taken hc hp hx hfull => exact inv_taken h hR hc hp hx hfull
  | claimed hc hp hkey => exact inv_claimed h hc hp hkey
  | failed hc hp => exact inv_failed h hc hp
  | located hc hp => exact inv_located h hc hp
  | granted hc hp _ => exact inv_granted h hc hp
  | made hc hp hwire => exact inv_sealedUp h hR hc hp hwire
  | @cleaned call i error entries order hc hp hsub =>
    have hg : Grows s { s with topicSeals := ⟨entries, order⟩ } :=
      ⟨(Grows.refl s).cells, fun _ hmem => hmem, fun _ hmem => hmem, fun _ hmem => hmem⟩
    refine h.setCall hg rfl rfl (h.placed.mono hg hsub) h.filled (live hc (by simp [hp])) ?_
    exact callOk_over ((h.calls _ call hc).mono hg) (.error error) fun w hw => by cases hw

end RmwAxon.SealSteps
