import RmwAxon.SyncIndex

namespace RmwAxon.SyncBounds

open Codec Endian NodeTable PeerSync SyncCodec SyncIndex SyncWire List

/-- The decoder with offsets does what the reader does on the rest of the buffer,
and stays inside. -/
def Agrees {α : Type} (buf : Bytes) (x : Except Fault (α × Nat)) (y : Except String (α × Bytes)) : Prop :=
  (∃ e, x = .error (.error e) ∧ y = .error e) ∨
    ∃ a off, off ≤ buf.length ∧ x = .ok (a, off) ∧ y = .ok (a, buf.drop off)

section Agrees

variable {α γ : Type} {buf : Bytes} {off k : Nat} {error : String}

theorem ok_bind (a : α) (f : α → Except Fault γ) : (Except.ok a : Except Fault α) >>= f = f a := rfl

theorem Agrees.bind {x : Except Fault (α × Nat)} {y : Except String (α × Bytes)}
    {f : α × Nat → Except Fault (γ × Nat)} {g : α × Bytes → Except String (γ × Bytes)}
    (h : Agrees buf x y) (hf : ∀ a off, off ≤ buf.length → Agrees buf (f (a, off)) (g (a, buf.drop off))) :
    Agrees buf (x >>= f) (y >>= g) := by
  obtain ⟨e, rfl, rfl⟩ | ⟨a, off, hoff, rfl, rfl⟩ := h
  · exact .inl ⟨e, rfl, rfl⟩
  · exact hf a off hoff

theorem Agrees.andThen {d : Decoder α} {r : Reader α} {f : α → Decoder γ} {g : α → Reader γ}
    (h : Agrees buf (d.run off) (r.run (buf.drop off)))
    (hf : ∀ a off', off' ≤ buf.length → Agrees buf ((f a).run off') ((g a).run (buf.drop off'))) :
    Agrees buf ((d >>= f).run off) ((r >>= g).run (buf.drop off)) := h.bind hf

theorem Agrees.pure (h : off ≤ buf.length) (a : α) : Agrees buf (.ok (a, off)) (.ok (a, buf.drop off)) :=
  .inr ⟨a, off, h, rfl, rfl⟩

theorem Agrees.take {f : Bytes → Reader γ} {x : Except Fault (γ × Nat)} (hoff : off ≤ buf.length)
    (hshort : buf.length < off + k → x = .error (.error error))
    (hlong : off + k ≤ buf.length → Agrees buf x ((f ((buf.drop off).take k)).run (buf.drop (off + k)))) :
    Agrees buf x ((SyncWire.take k error >>= f).run (buf.drop off)) := by
  rw [run_bind, run_take, length_drop]
  by_cases h : buf.length < off + k
  · rw [if_pos (by omega)]
    exact .inl ⟨error, hshort h, rfl⟩
  · rw [if_neg (by omega), drop_drop]
    exact hlong (by omega)

theorem Agrees.need {f : Reader γ} {x : Except Fault (γ × Nat)} (hoff : off ≤ buf.length)
    (hshort : buf.length < off + k → x = .error (.error error))
    (hlong : off + k ≤ buf.length → Agrees buf x (f.run (buf.drop off))) :
    Agrees buf x ((SyncWire.need k error >>= fun _ => f).run (buf.drop off)) := by
  rw [run_bind, run_need, length_drop]
  by_cases h : buf.length < off + k
  · rw [if_pos (by omega)]
    exact .inl ⟨error, hshort h, rfl⟩
  · rw [if_neg (by omega)]
    exact hlong (by omega)

theorem Agrees.many {d : Decoder α} {r : Reader α}
    (h : ∀ off, off ≤ buf.length → Agrees buf (d.run off) (r.run (buf.drop off))) (k : Nat)
    (hoff : off ≤ buf.length) :
    Agrees buf ((readManyAt d k).run off) ((many r k).run (buf.drop off)) := by
  induction k generalizing off with
  | zero => exact Agrees.pure hoff []
  | succ k ih =>
    refine (h off hoff).bind fun a off' hoff' => ?_
    refine (ih hoff').bind fun as off'' hoff'' => ?_
    exact Agrees.pure hoff'' (a :: as)

end Agrees

variable {buf : Bytes} {off : Nat}
variable {k limit : Nat} {message : String}

/-- A length check that fails ends the decoder, whatever comes after it. -/
theorem checked_short {γ : Type} (d : Nat → Decoder γ) (h : buf.length < off + k) : (do
      let off ← get
      if buf.length < off + k then fail message
      d off : Decoder γ).run off = .error (.error message) := by
  simp [h, fail]
  rfl

theorem countAt_long (h : off + k ≤ buf.length) :
    (countAt buf k message).run off = .ok (fromLe ((buf.drop off).take k), off + k) := by
  have hnot : ¬ buf.length < off + k := by omega
  simp [countAt, hnot, numberAt_ok (show off ≤ off + k by omega) h, take_drop]

theorem Agrees.count {γ : Type} {d : Nat → Decoder γ} {f : Bytes → Reader γ} (hoff : off ≤ buf.length)
    (h : off + k ≤ buf.length → Agrees buf ((d (fromLe ((buf.drop off).take k))).run (off + k))
        ((f ((buf.drop off).take k)).run (buf.drop (off + k)))) :
    Agrees buf ((countAt buf k message >>= d).run off)
      ((SyncWire.take k message >>= f).run (buf.drop off)) := by
  refine Agrees.take hoff (fun hshort => ?_) fun hlong => ?_
  · rw [StateT.run_bind, countAt, checked_short _ hshort]
    rfl
  · rw [StateT.run_bind, countAt_long hlong]
    exact h hlong

theorem agrees_string (hoff : off ≤ buf.length) :
    Agrees buf ((readStringAt buf).run off) (readString.run (buf.drop off)) := by
  refine Agrees.count hoff fun h => ?_
  generalize fromLe ((buf.drop off).take 2) = len
  refine Agrees.take h (fun hshort => ?_) fun hlong => ?_
  · simp [hshort, fail]
    rfl
  have hnot : ¬ buf.length < off + 2 + len := by omega
  have hs : (buf.drop (off + 2)).take len = (buf.take (off + 2 + len)).drop (off + 2) := take_drop
  have hbytes := bytesAt_ok (show off + 2 ≤ off + 2 + len by omega) hlong
  rw [hs]
  generalize (buf.take (off + 2 + len)).drop (off + 2) = s at hbytes
  by_cases hv : validUtf8 s = true
  · rw [if_pos hv]
    refine .inr ⟨s, off + 2 + len, hlong, ?_, rfl⟩
    simp [hnot, hbytes, hv, ok_bind]
    rfl
  · rw [if_neg hv]
    refine .inl ⟨"bad utf8", ?_, rfl⟩
    simp [hnot, hbytes, hv, ok_bind, fail]
    rfl

theorem readTopicAt_run (h : off + 48 ≤ buf.length) : (readTopicAt buf).run off = (do
      let name ← readStringAt buf
      let topicType ← readStringAt buf
      let nodeName ← readStringAt buf
      let nodeNamespace ← readStringAt buf
      pure ⟨field ((buf.drop off).take 48) 0 8, field ((buf.drop off).take 48) 8 16,
        qosOf ((buf.drop off).take 48), name, topicType, nodeName, nodeNamespace⟩ : Decoder PeerTopicInfo).run
      (off + 48) := by
  have hnot : ¬ buf.length < off + 48 := by omega
  have hnumber (i j : Nat) (hij : i ≤ j) (hj : j ≤ 48) : numberAt buf (off + i) (off + j) =
      .ok (field ((buf.drop off).take 48) i j) := by
    rw [block_field hj]
    exact numberAt_ok (by omega) (by omega)
  have hbyte (i : Nat) (hi : i < 48) : ∃ b, byteAt buf (off + i) = .ok b ∧
      b.toNat = field ((buf.drop off).take 48) i (i + 1) := by
    refine ⟨_, byteAt_ok (by omega), ?_⟩
    rw [block_field (by omega), ← field_one (by omega)]
    rfl
  have hfirst := hnumber 0 8 (by decide) (by decide)
  rw [Nat.add_zero] at hfirst
  obtain ⟨b₁₆, hb₁₆, hf₁₆⟩ := hbyte 16 (by decide)
  obtain ⟨b₁₇, hb₁₇, hf₁₇⟩ := hbyte 17 (by decide)
  obtain ⟨b₁₈, hb₁₈, hf₁₈⟩ := hbyte 18 (by decide)
  obtain ⟨b₃₉, hb₃₉, hf₃₉⟩ := hbyte 39 (by decide)
  simp [readTopicAt, hnot, hfirst, hnumber, hb₁₆, hb₁₇, hb₁₈, hb₃₉, hf₁₆, hf₁₇, hf₁₈, hf₃₉, ok_bind, qosOf]

theorem agrees_topic (hoff : off ≤ buf.length) :
    Agrees buf ((readTopicAt buf).run off) (readTopic.run (buf.drop off)) := by
  refine Agrees.take hoff (checked_short _) fun h => ?_
  rw [readTopicAt_run h]
  refine (agrees_string h).bind fun name off₁ h₁ => ?_
  refine (agrees_string h₁).bind fun topicType off₂ h₂ => ?_
  refine (agrees_string h₂).bind fun nodeName off₃ h₃ => ?_
  refine (agrees_string h₃).bind fun nodeNamespace off₄ h₄ => ?_
  exact Agrees.pure h₄ _

theorem readHeaderAt_long (h : off + 12 ≤ buf.length) : (readHeaderAt buf).run off =
      .ok ((field ((buf.drop off).take 12) 0 8, field ((buf.drop off).take 12) 8 12), off + 12) := by
  have hnot : ¬ buf.length < off + 12 := by omega
  have hid := numberAt_ok (show off ≤ off + 8 by omega) (show off + 8 ≤ buf.length by omega)
  have hdomain := numberAt_ok (show off + 8 ≤ off + 12 by omega) h
  rw [block_field (by decide), block_field (by decide)]
  simp [readHeaderAt, hnot, hid, hdomain, ok_bind]

theorem readPortAt_long (h : off + 6 ≤ buf.length) :
    (readPortAt buf).run off = .ok (fromLe ((buf.drop off).take 2), off + 2) := by
  have hnot : ¬ buf.length < off + 6 := by omega
  have hport := numberAt_ok (show off ≤ off + 2 by omega) (show off + 2 ≤ buf.length by omega)
  simp [readPortAt, hnot, hport, take_drop]

theorem agrees_addr (h : off + 4 ≤ buf.length) :
    Agrees buf ((readAddrAt buf).run off) (readAddr.run (buf.drop off)) := by
  refine Agrees.take (by omega) (fun hshort => by omega) fun _ => ?_
  have hbytes := bytesAt_ok (show off ≤ off + 4 by omega) h
  rw [take_drop]
  refine .inr ⟨_, off + 4, h, ?_, rfl⟩
  simp [readAddrAt, hbytes]

theorem readAddrAt_run {off' : Nat} {a : Addr} (h : (readAddrAt buf).run off = .ok (a, off')) :
    off' = off + 4 := by
  cases hb : bytesAt buf off (off + 4) with
  | error e => simp [readAddrAt, hb] at h
  | ok b =>
    simp [readAddrAt, hb] at h
    exact h.2.symm

/-- The check before the loop is enough for all its turns. -/
theorem agrees_addrs (h : off + limit * 4 ≤ buf.length) :
    Agrees buf ((readManyAt (readAddrAt buf) limit).run off)
      ((many readAddr limit).run (buf.drop off)) := by
  induction limit generalizing off with
  | zero => exact Agrees.pure (by omega) []
  | succ limit ih =>
    obtain ⟨e, hx, hy⟩ | ⟨a, off', hoff', hx, hy⟩ := agrees_addr (show off + 4 ≤ buf.length by omega)
    · rw [readManyAt, many, StateT.run_bind, StateT.run_bind, hx, hy]
      exact .inl ⟨e, rfl, rfl⟩
    · have hnext := ih (show off' + limit * 4 ≤ buf.length by rw [readAddrAt_run hx]; omega)
      rw [readManyAt, many, StateT.run_bind, StateT.run_bind, hx, hy]
      exact hnext.bind fun as off'' hoff'' => Agrees.pure hoff'' (a :: as)

theorem readAddrsAt_long (h : off + limit * 4 ≤ buf.length) :
    (readAddrsAt buf limit).run off = (readManyAt (readAddrAt buf) limit).run off := by
  have hnot : ¬ buf.length < off + limit * 4 := by omega
  simp [readAddrsAt, hnot]

theorem agrees_node (hoff : off ≤ buf.length) :
    Agrees buf ((readNodeAt buf).run off) (readNode.run (buf.drop off)) := by
  refine Agrees.take hoff (fun h => ?_) fun h => ?_
  · rw [readNodeAt, StateT.run_bind, readHeaderAt, checked_short _ h]
    rfl
  rw [readNodeAt, StateT.run_bind, readHeaderAt_long h, ok_bind]
  dsimp only
  refine (agrees_string h).andThen fun nodeName off₁ h₁ => ?_
  refine (agrees_string h₁).andThen fun nodeNamespace off₂ h₂ => ?_
  refine Agrees.count h₂ fun h₃ => ?_
  refine (Agrees.many (fun _ => agrees_topic) _ h₃).andThen fun publishedTopics off₄ h₄ => ?_
  refine Agrees.count h₄ fun h₅ => ?_
  refine (Agrees.many (fun _ => agrees_topic) _ h₅).andThen fun subscribedTopics off₆ h₆ => ?_
  refine Agrees.need h₆ (fun h₇ => ?_) fun h₇ => ?_
  · rw [StateT.run_bind, readPortAt, checked_short _ h₇]
    rfl
  refine Agrees.take h₆ (fun hshort => by omega) fun h₈ => ?_
  rw [StateT.run_bind, readPortAt_long h₇, ok_bind]
  refine Agrees.count h₈ fun h₉ => ?_
  refine Agrees.need h₉ (fun h₁₀ => ?_) fun h₁₀ => ?_
  · rw [StateT.run_bind, readAddrsAt, checked_short _ h₁₀]
    rfl
  · rw [StateT.run_bind, readAddrsAt_long h₁₀, run_bind]
    exact (agrees_addrs h₁₀).bind fun quicAddrs off₁₁ h₁₁ => Agrees.pure h₁₁ _

def raised {α : Type} (x : Except String α) : Except Fault α := x.mapError Fault.error

theorem raised_ne_outOfRange {α : Type} (x : Except String α) : raised x ≠ .error .outOfRange := by
  cases x with
  | error | ok =>
    intro h
    cases h

theorem wrongKind_eq (buf : Bytes) {least : Nat} (hleast : 0 < least) (kind : UInt8) :
    wrongKind buf least kind = .ok (decide (buf.length < least ∨ buf.head? ≠ some kind)) := by
  rw [wrongKind]
  by_cases h : buf.length < least
  · rw [if_pos h]
    simp [h]
  · have hpos : 0 < buf.length := by omega
    rw [if_neg h, byteAt_ok hpos]
    simp [h, head?_eq_getElem?, getElem?_eq_getElem hpos]

theorem decodeSyncResponseAt_eq (buf : Bytes) :
    decodeSyncResponseAt buf = raised (decodeSyncResponse buf) := by
  rw [decodeSyncResponseAt, wrongKind_eq buf (by decide), ok_bind, decodeSyncResponse]
  by_cases hbad : buf.length < 9 ∨ buf.head? ≠ some msgSyncResponse
  · rw [if_pos hbad, if_pos (by simpa using hbad)]
    rfl
  have hlen : 9 ≤ buf.length := by
    push Not at hbad
    exact hbad.1
  rw [if_neg hbad, if_neg (by simpa using hbad), numberAt_field (by decide) (by omega),
    numberAt_field (by decide) hlen]
  obtain ⟨e, hx, hy⟩ | ⟨nodes, off, -, hx, hy⟩ :=
    Agrees.many (fun _ => agrees_node) (field buf 5 9) hlen
  all_goals
    simp only [ok_bind, hx]
    change _ = raised (Except.bind ((many readNode (field buf 5 9)).run (buf.drop 9)) _)
    rw [hy]
    rfl

theorem decodeSyncRequestAt_eq (buf : Bytes) : decodeSyncRequestAt buf = raised (decodeSyncRequest buf) := by
  rw [decodeSyncRequestAt, wrongKind_eq buf (by decide), ok_bind, decodeSyncRequest]
  by_cases hbad : buf.length < 5 ∨ buf.head? ≠ some msgSyncRequest
  · rw [if_pos hbad, if_pos (by simpa using hbad)]
    rfl
  have hlen : 5 ≤ buf.length := by
    push Not at hbad
    exact hbad.1
  rw [if_neg hbad, if_neg (by simpa using hbad), numberAt_field (by decide) hlen]
  rfl

theorem syncRequestDaemonIdAt_eq (buf : Bytes) :
    syncRequestDaemonIdAt buf = raised (syncRequestDaemonId buf) := by
  rw [syncRequestDaemonIdAt, wrongKind_eq buf (by decide), ok_bind, syncRequestDaemonId]
  by_cases hbad : buf.length < 5 ∨ buf.head? ≠ some msgSyncRequest
  · rw [if_pos hbad, if_pos (by simpa using hbad)]
    rfl
  rw [if_neg hbad, if_neg (by simpa using hbad)]
  by_cases hfive : buf.length = 5
  · rw [if_pos hfive, if_pos hfive]
    rfl
  rw [if_neg hfive, if_neg hfive]
  by_cases hshort : buf.length < 13
  · rw [if_pos hshort, if_pos hshort]
    rfl
  · rw [if_neg hshort, if_neg hshort, numberAt_field (by decide) (by omega)]
    rfl

theorem decodeSyncRequestPushAt_eq (buf : Bytes) :
    decodeSyncRequestPushAt buf = raised (decodeSyncRequestPush buf) := by
  rw [decodeSyncRequestPushAt, decodeSyncRequestPush]
  by_cases hfive : buf.length = 5
  · rw [if_pos hfive, if_pos hfive]
    rfl
  rw [if_neg hfive, if_neg hfive, wrongKind_eq buf (by decide)]
  by_cases hbad : buf.length < 14 ∨ buf.head? ≠ some msgSyncRequest
  · rw [if_pos hbad, ok_bind, if_pos (by simpa using hbad)]
    rfl
  have hlen : 14 ≤ buf.length := by
    push Not at hbad
    exact hbad.1
  rw [if_neg hbad, ok_bind, if_neg (by simpa using hbad), numberAt_field (by decide) (by omega),
    bytesAt_ok (by omega) (Nat.le_refl _), take_length]
  simp only [ok_bind, decodeSyncResponseAt_eq]
  cases decodeSyncResponse (buf.drop 13) with
  | error | ok => rfl

/-- No decoder of the graph protocol leaves its buffer. -/
theorem decoders_stay_inside (buf : Bytes) :
    decodeSyncRequestAt buf ≠ .error .outOfRange ∧ syncRequestDaemonIdAt buf ≠ .error .outOfRange ∧
      decodeSyncRequestPushAt buf ≠ .error .outOfRange ∧ decodeSyncResponseAt buf ≠ .error .outOfRange := by
  rw [decodeSyncRequestAt_eq, syncRequestDaemonIdAt_eq, decodeSyncRequestPushAt_eq, decodeSyncResponseAt_eq]
  exact ⟨raised_ne_outOfRange _, raised_ne_outOfRange _, raised_ne_outOfRange _, raised_ne_outOfRange _⟩

end RmwAxon.SyncBounds
