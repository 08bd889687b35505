import RmwAxon.SealChange

namespace RmwAxon.SealHistory

open MessageSeal QkdEnvelope SealChange List
open NodeTable (Text)
open SyncWire (Bytes)

variable {aead : Aead} {keyOf : Text → Bytes} {localSaeId : Text} {s s' t : State} {c : Nat} {call : Call}

inductive Addressed (sessions : List (Nat × Text)) : Request → Text → Prop
  | session {request : Request} {remoteDaemonId : Nat} {remoteSaeId : Text} :
      request.remoteDaemonId = some remoteDaemonId → (remoteDaemonId, remoteSaeId) ∈ sessions →
      Addressed sessions request remoteSaeId
  | reply (remoteSaeId : Text) (context : WireContext) (payload : Bytes) :
      Addressed sessions (.reply remoteSaeId context payload) remoteSaeId

def Made (aead : Aead) (localSaeId : Text) (r : Sealed) : Prop :=
  ∃ nonce : Nonce, sealWithMaterial aead localSaeId r.request.context r.material.key r.material.keyId
    (some nonce.1) r.request.payload = .ok r.wire

def Holds (call : Call) (i : Nat) : Prop :=
  call.cell = some i ∨ call.point = .wait i ∨ ∃ error, call.point = .clean i error

section Relation

variable (R : Request → Request → Prop)

structure CallOk (s : State) (c : Nat) (call : Call) : Prop where
  held : ∀ i, Holds call i → ∃ x, s.cells[i]? = some x ∧ R call.request x.opener
  found : ∀ d, call.point = .find d → call.request.remoteDaemonId = some d
  fetching : ∀ sae, call.point = .fetch sae → Addressed s.sessions call.request sae
  sealing : ∀ sae m, call.point = .seal sae m → Addressed s.sessions call.request sae ∧ ⟨c, sae, m⟩ ∈ s.grants
  returned : ∀ wire, call.point = .returned (.ok wire) →
    ∃ r ∈ s.sealed, r.wire = wire ∧ R call.request r.request

def Placed (s : State) : Prop :=
  ∀ e ∈ s.topicSeals.entries, ∃ x, s.cells[e.2]? = some x ∧ x.opener.sealKey = some e.1

def Filled (s : State) : Prop :=
  ∀ (i : Nat) (x : Cell) (wire : Bytes), s.cells[i]? = some x → x.content = .full wire →
    ∃ r ∈ s.sealed, r.wire = wire ∧ R r.request x.opener

structure Inv (aead : Aead) (localSaeId : Text) (s : State) : Prop where
  placed : Placed s
  calls : ∀ c call, s.calls c = some call → CallOk R s c call
  filled : Filled R s
  made : ∀ r ∈ s.sealed, Made aead localSaeId r ∧ Addressed s.sessions r.request r.remoteSaeId ∧
    ⟨r.call, r.remoteSaeId, r.material⟩ ∈ s.grants
  once : (s.sealed.map Sealed.call).Nodup
  ended : ∀ r ∈ s.sealed, ∃ call result, s.calls r.call = some call ∧ call.point = .returned result

/-- A call that finds a cell in the cache is related to the request that the
cell was made for. -/
def Admits (s : State) (e : Event) : Prop :=
  ∀ call key i, s.calls e.caller = some call → call.point = .enter → call.request.sealKey = some key →
    s.topicSeals.entries.lookup key = some i → ∀ x : Cell, s.cells[i]? = some x → R call.request x.opener

end Relation

structure Grows (s t : State) : Prop where
  cells : ∀ (i : Nat) (x : Cell), s.cells[i]? = some x → ∃ y, t.cells[i]? = some y ∧ y.opener = x.opener
  sessions : ∀ p ∈ s.sessions, p ∈ t.sessions
  grants : ∀ g ∈ s.grants, g ∈ t.grants
  sealed : ∀ r ∈ s.sealed, r ∈ t.sealed

theorem Grows.refl (s : State) : Grows s s :=
  ⟨fun _ x hx => ⟨x, hx, rfl⟩, fun _ h => h, fun _ h => h, fun _ h => h⟩

theorem Grows.trans {u : State} (h : Grows s t) (h' : Grows t u) : Grows s u where
  cells i x hx := by
    obtain ⟨y, hy, ho⟩ := h.cells i x hx
    obtain ⟨z, hz, ho'⟩ := h'.cells i y hy
    exact ⟨z, hz, ho'.trans ho⟩
  sessions p hp := h'.sessions p (h.sessions p hp)
  grants g hg := h'.grants g (h.grants g hg)
  sealed r hr := h'.sealed r (h.sealed r hr)

theorem Grows.setCall (h : Grows s t) (c : Nat) (call : Call) : Grows s (setCall t c call) :=
  ⟨h.cells, h.sessions, h.grants, h.sealed⟩

theorem Addressed.mono {sessions sessions' : List (Nat × Text)} {request : Request} {sae : Text}
    (h : Addressed sessions request sae) (hs : ∀ p ∈ sessions, p ∈ sessions') :
    Addressed sessions' request sae := by
  cases h with
  | session hd hmem => exact .session hd (hs _ hmem)
  | reply => exact .reply ..

theorem Addressed.reply_eq {sessions : List (Nat × Text)} {sae sae' : Text} {context : WireContext}
    {payload : Bytes} (h : Addressed sessions (.reply sae context payload) sae') : sae' = sae := by
  cases h with
  | session hd _ => cases hd
  | reply => rfl

variable {R : Request → Request → Prop}

theorem CallOk.mono (h : CallOk R s c call) (hg : Grows s t) : CallOk R t c call where
  held i hi := by
    obtain ⟨x, hx, hr⟩ := h.held i hi
    obtain ⟨y, hy, ho⟩ := hg.cells i x hx
    exact ⟨y, hy, ho ▸ hr⟩
  found := h.found
  fetching sae hp := (h.fetching sae hp).mono hg.sessions
  sealing sae m hp := ⟨(h.sealing sae m hp).1.mono hg.sessions, hg.grants _ (h.sealing sae m hp).2⟩
  returned wire hp := by
    obtain ⟨r, hr, hw⟩ := h.returned wire hp
    exact ⟨r, hg.sealed r hr, hw⟩

variable {call : Call} {r : Sealed}

section

variable (h : Inv R aead localSaeId s)
include h

theorem Inv.callsOk (hg : Grows s s') (hcalls : s'.calls = s.calls)
    (hcall : CallOk R s' c call) (d : Nat) (other : Call)
    (hd : (setCall s' c call).calls d = some other) :
    CallOk R (setCall s' c call) d other := by
  by_cases hdc : d = c
  · subst hdc
    rw [setCall_self] at hd
    cases hd
    exact hcall.mono (.setCall (.refl s') d call)
  · rw [setCall_of_ne s' call hdc, hcalls] at hd
    exact (h.calls d other hd).mono (hg.setCall c call)

theorem Inv.call_ne (hr : r ∈ s.sealed)
    (hlive : ∀ call, s.calls c = some call → ∀ result, call.point ≠ .returned result) : r.call ≠ c := by
  obtain ⟨other, result, hother, hp⟩ := h.ended r hr
  exact fun he => hlive other (he ▸ hother) result hp

theorem Inv.ended_of_ne (hr : r ∈ s.sealed) (call : Call) (hcalls : s'.calls = s.calls) (hne : r.call ≠ c) :
    ∃ other result, (setCall s' c call).calls r.call = some other ∧ other.point = .returned result := by
  obtain ⟨other, result, hother, hp⟩ := h.ended r hr
  refine ⟨other, result, ?_, hp⟩
  rw [setCall_of_ne s' call hne, hcalls]
  exact hother

theorem Inv.setCall (hg : Grows s s') (hcalls : s'.calls = s.calls)
    (hsealed : s'.sealed = s.sealed) (hplaced : Placed s') (hfilled : Filled R s')
    (hlive : ∀ call, s.calls c = some call → ∀ result, call.point ≠ .returned result)
    (hcall : CallOk R s' c call) : Inv R aead localSaeId (setCall s' c call) where
  placed := hplaced
  calls := h.callsOk hg hcalls hcall
  filled := hfilled
  made r hr := by
    obtain ⟨hmade, haddr, hgrant⟩ := h.made r (hsealed ▸ hr)
    exact ⟨hmade, haddr.mono hg.sessions, hg.grants _ hgrant⟩
  once := by
    rw [MessageSeal.setCall, hsealed]
    exact h.once
  ended r hr := h.ended_of_ne (hsealed ▸ hr) call hcalls (h.call_ne (hsealed ▸ hr) hlive)

theorem Inv.sealCall {result : Except String Bytes} (hg : Grows s s')
    (hcalls : s'.calls = s.calls) (hsealed : s'.sealed = r :: s.sealed)
    (hmade : Made aead localSaeId r ∧ Addressed s'.sessions r.request r.remoteSaeId ∧
      ⟨r.call, r.remoteSaeId, r.material⟩ ∈ s'.grants) (hplaced : Placed s') (hfilled : Filled R s')
    (hlive : ∀ call, s.calls r.call = some call → ∀ result, call.point ≠ .returned result)
    (hcall : CallOk R s' r.call call) (hover : call.point = .returned result) :
    Inv R aead localSaeId (MessageSeal.setCall s' r.call call) where
  placed := hplaced
  calls := h.callsOk hg hcalls hcall
  filled := hfilled
  made q hq := by
    rw [MessageSeal.setCall, hsealed] at hq
    rcases mem_cons.mp hq with rfl | hq
    · exact hmade
    · obtain ⟨hmade, haddr, hgrant⟩ := h.made q hq
      exact ⟨hmade, haddr.mono hg.sessions, hg.grants _ hgrant⟩
  once := by
    rw [MessageSeal.setCall, hsealed, map_cons, nodup_cons]
    refine ⟨fun hmem => ?_, h.once⟩
    obtain ⟨q, hq, he⟩ := mem_map.mp hmem
    exact h.call_ne hq hlive he
  ended q hq := by
    rw [MessageSeal.setCall, hsealed] at hq
    rcases mem_cons.mp hq with rfl | hq
    · exact ⟨call, result, setCall_self .., hover⟩
    · exact h.ended_of_ne hq call hcalls (h.call_ne hq hlive)

end

theorem getElem?_setContent {i j : Nat} {content : OnceCell} {y : Cell}
    (h : (setContent s i content).cells[j]? = some y) :
    ∃ x, s.cells[j]? = some x ∧ y.opener = x.opener ∧ y.content = if i = j then content else x.content := by
  rw [setContent, getElem?_modify] at h
  obtain ⟨x, hx, rfl⟩ := Option.map_eq_some_iff.mp h
  refine ⟨x, hx, ?_, ?_⟩ <;> split_ifs <;> rfl

theorem grows_setContent (s : State) (i : Nat) (content : OnceCell) : Grows s (setContent s i content) where
  cells j x hx := by
    refine ⟨if i = j then { x with content := content } else x, ?_, by split_ifs <;> rfl⟩
    rw [setContent, getElem?_modify, hx]
    rfl
  sessions _ h := h
  grants _ h := h
  sealed _ h := h

theorem Placed.mono (h : Placed s) (hg : Grows s t)
    (he : ∀ e ∈ t.topicSeals.entries, e ∈ s.topicSeals.entries) : Placed t := by
  intro e hmem
  obtain ⟨x, hx, hkey⟩ := h e (he e hmem)
  obtain ⟨y, hy, ho⟩ := hg.cells e.2 x hx
  exact ⟨y, hy, ho ▸ hkey⟩

theorem Filled.setContent (h : Filled R s) {i : Nat} {content : OnceCell}
    (hcontent : ∀ wire, content ≠ .full wire) : Filled R (setContent s i content) := by
  intro j y wire hy hfull
  obtain ⟨x, hx, ho, hc⟩ := getElem?_setContent hy
  rw [hfull] at hc
  split_ifs at hc
  · exact absurd hc.symm (hcontent wire)
  · rw [ho]
    exact h j x wire hx hc.symm

theorem makeRoom_subset (entries : List (TopicSealKey × Nat)) (order : List TopicSealKey) :
    ∀ e ∈ (makeRoom entries order).entries, e ∈ entries := by
  induction order generalizing entries with
  | nil => exact fun e he => he
  | cons oldest order ih =>
    intro e he
    rw [makeRoom] at he
    split_ifs at he
    · exact he
    · exact mem_of_mem_filter (ih _ e he)

theorem Placed.opened (h : Placed s) {key : TopicSealKey} (hkey : call.request.sealKey = some key) :
    Placed (opened s call key) := by
  intro e he
  rcases mem_cons.mp he with rfl | he
  · exact ⟨⟨call.request, .empty⟩, by simp [SealChange.opened], hkey⟩
  obtain ⟨x, hx, hxkey⟩ := h e (makeRoom_subset _ _ e he)
  refine ⟨x, ?_, hxkey⟩
  rw [SealChange.opened, getElem?_append_left (List.getElem?_eq_some_iff.mp hx).1]
  exact hx

theorem grows_opened (s : State) (call : Call) (key : TopicSealKey) : Grows s (opened s call key) where
  cells i x hx := by
    refine ⟨x, ?_, rfl⟩
    rw [SealChange.opened, getElem?_append_left (List.getElem?_eq_some_iff.mp hx).1]
    exact hx
  sessions _ h := h
  grants _ h := h
  sealed _ h := h

theorem Filled.opened (h : Filled R s) (key : TopicSealKey) : Filled R (opened s call key) := by
  intro i x wire hx hfull
  rw [SealChange.opened, getElem?_append] at hx
  split_ifs at hx
  · exact h i x wire hx hfull
  · obtain ⟨-, rfl⟩ : _ ∧ ⟨call.request, .empty⟩ = x := by simpa [getElem?_singleton] using hx
    cases hfull

theorem inv_start : Inv R aead localSaeId start where
  placed := by simp [Placed, start]
  calls := by simp [start]
  filled := by simp [Filled, start]
  made := by simp [start]
  once := List.nodup_nil
  ended := by simp [start]

end RmwAxon.SealHistory
