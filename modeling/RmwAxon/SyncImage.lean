import RmwAxon.MergeAgree
import RmwAxon.SyncHandler

namespace RmwAxon.SyncImage

open DomainSync MergeAgree MergeRounds NodeTable SyncCodec SyncHandler SyncWire List
open PeerSync (PeerNodeInfo topicInfoToEntry)

variable {n m : Nat}

/-- A text that ends with a zero, with nothing but zeros after it. -/
def Terminated (size : Nat) (buffer : Text) : Prop :=
  ∃ s : Text, validUtf8 s = true ∧ 0 ∉ s ∧ s.length < size ∧
    buffer = s ++ List.replicate (size - s.length) 0

structure TopicTexts (t : TopicEntry) : Prop where
  topicName : Terminated maxTopicNameLen t.topicName
  topicType : Terminated maxTopicTypeLen t.topicType
  nodeName : Terminated maxNodeNameLen t.nodeName
  nodeNamespace : Terminated maxNodeNsLen t.nodeNamespace

structure Texts (e : NodeTableEntry) : Prop where
  nodeName : Terminated maxNodeNameLen e.nodeName
  nodeNamespace : Terminated maxNodeNsLen e.nodeNamespace
  publishedTopics : ∀ t ∈ e.publishedTopics, TopicTexts t
  subscribedTopics : ∀ t ∈ e.subscribedTopics, TopicTexts t

structure TopicEntryTyped (t : TopicEntry) : Prop where
  hash : t.hash < 2 ^ 64
  typeHash : t.typeHash < 2 ^ 64
  qos : QosTyped t.qos
  topicName : t.topicName.length = maxTopicNameLen
  topicType : t.topicType.length = maxTopicTypeLen
  nodeName : t.nodeName.length = maxNodeNameLen
  nodeNamespace : t.nodeNamespace.length = maxNodeNsLen

structure EntryTyped (e : NodeTableEntry) : Prop where
  nodeId : e.nodeId < 2 ^ 64
  domainId : e.domainId < 2 ^ 32
  quicPort : e.quicPort < 2 ^ 16
  nodeName : e.nodeName.length = maxNodeNameLen
  nodeNamespace : e.nodeNamespace.length = maxNodeNsLen
  publishedTopics : ∀ t ∈ e.publishedTopics, TopicEntryTyped t
  subscribedTopics : ∀ t ∈ e.subscribedTopics, TopicEntryTyped t
  pubCount : e.publishedTopics.length ≤ maxTopicsPerNode
  subCount : e.subscribedTopics.length ≤ maxTopicsPerNode
  addrCount : e.quicAddrs.length ≤ maxQuicAddrs

/-- A topic as a peer holds it. An owner without a name gets the one of the
node. -/
structure SameTopic (t t' : TopicEntry) : Prop where
  hash : t'.hash = t.hash
  typeHash : t'.typeHash = t.typeHash
  qos : t'.qos = t.qos
  topicName : t'.topicName = t.topicName
  topicType : t'.topicType = t.topicType
  nodeName : readStr t.nodeName ≠ [] → t'.nodeName = t.nodeName
  nodeNamespace : readStr t.nodeNamespace ≠ [] → t'.nodeNamespace = t.nodeNamespace

structure Image (e e' : NodeTableEntry) : Prop where
  state : e'.state = .active
  nodeId : e'.nodeId = e.nodeId
  domainId : e'.domainId = e.domainId
  quicPort : e'.quicPort = e.quicPort
  quicAddrs : e'.quicAddrs = e.quicAddrs
  nodeName : e'.nodeName = e.nodeName
  nodeNamespace : e'.nodeNamespace = e.nodeNamespace
  publishedTopics : List.Forall₂ SameTopic e.publishedTopics e'.publishedTopics
  subscribedTopics : List.Forall₂ SameTopic e.subscribedTopics e'.subscribedTopics

def infoOf (e : NodeTableEntry) : PeerNodeInfo :=
  nodeEntryToInfo e (textOr e.nodeName []) (textOr e.nodeNamespace [47])

section Texts

variable {size : Nat} {s buffer fallback : Text}

theorem copyStr_of_lt (h : s.length < size) : copyStr size s = s ++ List.replicate (size - s.length) 0 := by
  rw [copyStr, take_of_length_le (by omega), Nat.min_eq_left (by omega)]

theorem Terminated.valid (h : Terminated size buffer) : validUtf8 (readStr buffer) = true := by
  obtain ⟨s, hs, h0, hlen, rfl⟩ := h
  rw [← copyStr_of_lt hlen, readStr_copyStr hlen h0]
  exact hs

theorem Terminated.textOr_eq (h : Terminated size buffer) (fallback : Text) :
    textOr buffer fallback = readStr buffer := if_pos h.valid

theorem Terminated.copyStr_readStr (h : Terminated size buffer) : copyStr size (readStr buffer) = buffer := by
  obtain ⟨s, -, h0, hlen, rfl⟩ := h
  rw [← copyStr_of_lt hlen, readStr_copyStr hlen h0]

theorem validUtf8_textOr (h : validUtf8 fallback = true) : validUtf8 (textOr buffer fallback) = true := by
  unfold textOr
  split_ifs with hs
  · exact hs
  · exact h

theorem validUtf8_orElse (hs : validUtf8 s = true) (h : validUtf8 fallback = true) :
    validUtf8 (orElse s fallback) = true := by
  unfold orElse
  split_ifs
  · exact h
  · exact hs

theorem textOr_length {b : Nat} (hb : buffer.length ≤ b) (h : fallback.length ≤ b) :
    (textOr buffer fallback).length ≤ b := by
  unfold textOr
  split_ifs
  · exact (takeWhile_sublist _).length_le.trans hb
  · exact h

theorem orElse_length {b : Nat} (hs : s.length ≤ b) (h : fallback.length ≤ b) :
    (orElse s fallback).length ≤ b := by
  unfold orElse
  split_ifs
  · exact h
  · exact hs

end Texts

section Sent

variable {e : NodeTableEntry} {t : TopicEntry} {name ns : Text}

theorem topicTyped_info (h : TopicEntryTyped t) (hname : validUtf8 name = true) (hns : validUtf8 ns = true) :
    TopicTyped (topicEntryToInfo name ns t) where
  hash := h.hash
  typeHash := h.typeHash
  qos := h.qos
  name := validUtf8_textOr (by decide)
  topicType := validUtf8_textOr (by decide)
  nodeName := validUtf8_orElse (validUtf8_textOr hname) hname
  nodeNamespace := validUtf8_orElse (validUtf8_textOr hns) hns

theorem topicShort_info (h : TopicEntryTyped t) (hname : name.length ≤ maxNodeNameLen)
    (hns : ns.length ≤ maxNodeNsLen) : TopicShort (topicEntryToInfo name ns t) where
  name := Nat.lt_of_le_of_lt (textOr_length h.topicName.le (by decide)) (by decide)
  topicType := Nat.lt_of_le_of_lt (textOr_length h.topicType.le (by decide)) (by decide)
  nodeName :=
    Nat.lt_of_le_of_lt (orElse_length (textOr_length h.nodeName.le hname) hname) (by decide)
  nodeNamespace :=
    Nat.lt_of_le_of_lt (orElse_length (textOr_length h.nodeNamespace.le hns) hns) (by decide)

theorem nodeTyped_infoOf (h : EntryTyped e) : NodeTyped (infoOf e) := by
  have hname : validUtf8 (textOr e.nodeName []) = true := validUtf8_textOr (by decide)
  have hns : validUtf8 (textOr e.nodeNamespace [47]) = true := validUtf8_textOr (by decide)
  refine ⟨h.nodeId, h.domainId, ?_, ?_, h.quicPort, hname, hns⟩
  · intro t ht
    obtain ⟨u, hu, rfl⟩ := mem_map.mp ht
    exact topicTyped_info (h.publishedTopics u hu) hname hns
  · intro t ht
    obtain ⟨u, hu, rfl⟩ := mem_map.mp ht
    exact topicTyped_info (h.subscribedTopics u hu) hname hns

theorem nodeShort_infoOf (h : EntryTyped e) : NodeShort (infoOf e) := by
  have hname : (textOr e.nodeName []).length ≤ maxNodeNameLen :=
    textOr_length h.nodeName.le (by decide)
  have hns : (textOr e.nodeNamespace [47]).length ≤ maxNodeNsLen :=
    textOr_length h.nodeNamespace.le (by decide)
  have hcount {ts : List TopicEntry} (hts : ts.length ≤ maxTopicsPerNode) : ts.length < 2 ^ 32 :=
    Nat.lt_of_le_of_lt hts (by decide)
  constructor
  · exact Nat.lt_of_le_of_lt hname (by decide)
  · exact Nat.lt_of_le_of_lt hns (by decide)
  · intro t ht
    obtain ⟨u, hu, rfl⟩ := mem_map.mp ht
    exact topicShort_info (h.publishedTopics u hu) hname hns
  · intro t ht
    obtain ⟨u, hu, rfl⟩ := mem_map.mp ht
    exact topicShort_info (h.subscribedTopics u hu) hname hns
  · rw [infoOf, nodeEntryToInfo, length_map]
    exact hcount h.pubCount
  · rw [infoOf, nodeEntryToInfo, length_map]
    exact hcount h.subCount
  · exact length_take_le ..

end Sent

section Received

variable {e e' : NodeTableEntry} {t : TopicEntry} {origin : Nat}

theorem Terminated.orElse_eq {size : Nat} {buffer : Text} (h : Terminated size buffer)
    (hne : readStr buffer ≠ []) (fallback : Text) :
    copyStr size (orElse (textOr buffer fallback) fallback) = buffer := by
  rw [h.textOr_eq, orElse, if_neg hne, h.copyStr_readStr]

theorem sameTopic_info (h : TopicTexts t) (name ns : Text) :
    SameTopic t (topicInfoToEntry (topicEntryToInfo name ns t)) where
  hash := rfl
  typeHash := rfl
  qos := rfl
  topicName := by rw [topicInfoToEntry, topicEntryToInfo, h.topicName.textOr_eq, h.topicName.copyStr_readStr]
  topicType := by rw [topicInfoToEntry, topicEntryToInfo, h.topicType.textOr_eq, h.topicType.copyStr_readStr]
  nodeName := fun hne => h.nodeName.orElse_eq hne name
  nodeNamespace := fun hne => h.nodeNamespace.orElse_eq hne ns

theorem sameTopics_info {ts : List TopicEntry} (h : ∀ t ∈ ts, TopicTexts t)
    (hlen : ts.length ≤ maxTopicsPerNode) (name ns : Text) :
    List.Forall₂ SameTopic ts
      (((ts.map (topicEntryToInfo name ns)).take maxTopicsPerNode).map topicInfoToEntry) := by
  rw [take_of_length_le (by rwa [length_map]), map_map, forall₂_map_right_iff, forall₂_same]
  exact fun t ht => sameTopic_info (h t ht) name ns

theorem image_of_announced (htyped : EntryTyped e) (htexts : Texts e) (hactive : e'.state = .active)
    (h : identity e' = announced origin (infoOf e)) : Image e e' := by
  have hfield {β : Type} (f : NodeTableEntry → β) (hf : f (identity e') = f e') :
      f e' = f (announced origin (infoOf e)) := hf.symm.trans (congrArg f h)
  have haddrs : e'.quicAddrs = (e.quicAddrs.take maxQuicAddrs).take maxQuicAddrs :=
    hfield NodeTableEntry.quicAddrs rfl
  have hname : e'.nodeName = copyStr maxNodeNameLen (textOr e.nodeName []) :=
    hfield NodeTableEntry.nodeName rfl
  have hns : e'.nodeNamespace = copyStr maxNodeNsLen (textOr e.nodeNamespace [47]) :=
    hfield NodeTableEntry.nodeNamespace rfl
  refine ⟨hactive, hfield NodeTableEntry.nodeId rfl, hfield NodeTableEntry.domainId rfl,
    hfield NodeTableEntry.quicPort rfl, ?_, ?_, ?_, ?_, ?_⟩
  · rw [haddrs, take_take, Nat.min_self, take_of_length_le htyped.addrCount]
  · rw [hname, htexts.nodeName.textOr_eq, htexts.nodeName.copyStr_readStr]
  · rw [hns, htexts.nodeNamespace.textOr_eq, htexts.nodeNamespace.copyStr_readStr]
  · rw [hfield NodeTableEntry.publishedTopics rfl]
    exact sameTopics_info htexts.publishedTopics htyped.pubCount _ _
  · rw [hfield NodeTableEntry.subscribedTopics rfl]
    exact sameTopics_info htexts.subscribedTopics htyped.subCount _ _

end Received

section Merge

variable {origin now : Nat} {node info : PeerNodeInfo} {nodes : List PeerNodeInfo} {t t' : Table n}

def Holds (origin : Nat) (info : PeerNodeInfo) (t : Table n) : Prop :=
  ∃ k, (t k).state = .active ∧ identity (t k) = announced origin info

theorem Holds.placed (h : Holds origin info t) (hne : info.nodeId ≠ node.nodeId) {idx : Fin n}
    (hp : Placed origin now node idx t t') : Holds origin info t' := by
  obtain ⟨k, hactive, hid⟩ := h
  have hocc : isOccupied (t k) = true := by simp [isOccupied, hactive]
  have hnodeId : (t k).nodeId = info.nodeId := congrArg NodeTableEntry.nodeId hid
  have hsame := (hp.other hocc (hnodeId.trans_ne hne)).2.same
  exact ⟨k, hsame.state.trans hactive, (hsame.field identity fun _ => rfl).trans hid⟩

theorem Holds.rounds (h : Holds origin info t) (hr : Rounds origin now nodes t t')
    (hlater : info.nodeId ∉ nodes.map PeerNodeInfo.nodeId) : Holds origin info t' := by
  induction hr with
  | nil => exact h
  | placed idx hp _ ih =>
    rw [map_cons, mem_cons, not_or] at hlater
    exact ih (h.placed hlater.1 hp) hlater.2
  | passed _ _ ih =>
    rw [map_cons, mem_cons, not_or] at hlater
    exact ih h hlater.2

theorem rounds_hold {before after : List PeerNodeInfo} (hr : Rounds origin now (before ++ info :: after) t t')
    (hlater : info.nodeId ∉ after.map PeerNodeInfo.nodeId)
    (hroom : (before ++ info :: after).length ≤ (free t).card) : Holds origin info t' := by
  -- The induction is on the nodes before it; each takes one slot at most.
  induction before generalizing t with
  | nil =>
    cases hr with
    | placed idx hp hrest =>
      refine Holds.rounds ⟨idx, ?_, (placed_identity hp).2.1⟩ hrest hlater
      obtain ⟨r, e, start, _, rfl, _⟩ := hp
      rw [Function.update_self]
      rfl
    | passed hfull _ =>
      rw [free_eq_empty hfull] at hroom
      simp at hroom
  | cons node before ih =>
    cases hr with
    | placed idx hp hrest =>
      have hslots := card_free_placed hp
      rw [cons_append, length_cons] at hroom
      exact ih hrest (by omega)
    | passed hfull _ =>
      rw [free_eq_empty hfull] at hroom
      simp at hroom

end Merge

def localSlots (alive : Nat → Nat → Bool) (domainId : Nat) (table : Table n) : List (Fin n) :=
  (List.finRange n).filter fun k => isLocal alive domainId (table k)

variable {alive : Nat → Nat → Bool}

theorem localSlots_split {domainId : Nat} {table : Table n} {k : Fin n}
    (hk : isLocal alive domainId (table k) = true) :
    ∃ before after, localSlots alive domainId table = before ++ k :: after ∧
      ∀ j ∈ after, k < j ∧ isLocal alive domainId (table j) = true := by
  have hmem : k ∈ localSlots alive domainId table := mem_filter.mpr ⟨mem_finRange k, hk⟩
  obtain ⟨before, after, hsplit⟩ := append_of_mem hmem
  have hsorted : (localSlots alive domainId table).Pairwise (· < ·) :=
    (pairwise_lt_finRange n).filter _
  refine ⟨before, after, hsplit, fun j hj => ?_⟩
  have hj' : j ∈ localSlots alive domainId table := by
    rw [hsplit]
    exact mem_append_right before (mem_cons_of_mem k hj)
  rw [hsplit, pairwise_append, pairwise_cons] at hsorted
  exact ⟨hsorted.2.1.1 j hj, (mem_filter.mp hj').2⟩

/-- A node of this host is collected, sent, read and merged, and a slot of the
peer says of it what the slot here says. Numbers tell nodes apart: no slot after
it is sent with the same number. -/
theorem peer_holds_image (side : Side) {alive : Nat → Nat → Bool} {table : Table n} (hn : n ≤ maxNodes)
    {k : Fin n} (hactive : (table k).state = .active) (hlocal : (table k).daemonOrigin = 0)
    (halive : alive (table k).pid (table k).procStarttime = true) (htexts : Texts (table k))
    (htyped : ∀ j, isLocal alive (table k).domainId (table j) = true → EntryTyped (table j))
    (hlast : ∀ j, k < j → isLocal alive (table k).domainId (table j) = true →
      (table j).nodeId ≠ (table k).nodeId)
    {origin : Nat} (horigin : origin ≠ 0) (now : Nat) {peer : Table m}
    (hroom : (localSlots alive (table k).domainId table).length ≤ (free peer).card) :
    ∃ nodes nodes' i, collectNodes alive table (table k).domainId = .ok nodes ∧
      decodeSyncResponse (encodeSyncResponse (table k).domainId nodes) =
        .ok ((table k).domainId, nodes') ∧
      Image (table k) (merge side origin now nodes' peer i) := by
  have hk : isLocal alive (table k).domainId (table k) = true := by simp [isLocal, hactive, hlocal, halive]
  obtain ⟨before, after, hsplit, hafter⟩ := localSlots_split hk
  have hnodes : collectNodes alive table (table k).domainId =
      .ok ((localSlots alive (table k).domainId table).map fun j => infoOf (table j)) := by
    refine mapM_ok fun j hj => ?_
    have h := htyped j (mem_filter.mp hj).2
    exact if_pos ⟨h.pubCount, h.subCount⟩
  have hmember : ∀ node ∈ (localSlots alive (table k).domainId table).map fun j => infoOf (table j),
      NodeTyped node ∧ NodeShort node := by
    intro node hnode
    obtain ⟨j, hj, rfl⟩ := mem_map.mp hnode
    have h := htyped j (mem_filter.mp hj).2
    exact ⟨nodeTyped_infoOf h, nodeShort_infoOf h⟩
  have hcount : ((localSlots alive (table k).domainId table).map fun j => infoOf (table j)).length <
      2 ^ 32 := by
    rw [length_map]
    refine Nat.lt_of_le_of_lt (length_filter_le ..) ?_
    rw [length_finRange]
    exact Nat.lt_of_le_of_lt hn (by decide)
  have hdecode := decodeSyncResponse_encode (htyped k hk).domainId hcount
    (fun node h => (hmember node h).1) (fun node h => (hmember node h).2)
  have hlater : (infoOf (table k)).nodeId ∉
      (after.map fun j => infoOf (table j)).map PeerNodeInfo.nodeId := by
    rw [map_map]
    intro h
    obtain ⟨j, hj, hid⟩ := mem_map.mp h
    exact hlast j (hafter j hj).1 (hafter j hj).2 hid
  rw [← length_map (fun j => infoOf (table j))] at hroom
  rw [hsplit, map_append, map_cons] at hroom hnodes hdecode
  obtain ⟨u, hthin, hrounds⟩ := merge_merged side horigin now
    (before.map (fun j => infoOf (table j)) ++ infoOf (table k) :: after.map fun j => infoOf (table j)) peer
  obtain ⟨i, hi, hid⟩ :=
    rounds_hold hrounds hlater (Nat.le_trans hroom (Finset.card_le_card (free_subset_thinned hthin)))
  exact ⟨_, _, i, hnodes, hdecode, image_of_announced (htyped k hk) htexts hi hid⟩

def speaker : NodeTableEntry :=
  { zeroEntry with
    state := .active
    domainId := 3
    pid := 40
    procStarttime := 9
    quicPort := 7400
    nodeId := 5
    quicAddrs := [(10, 0, 0, 1)]
    nodeName := copyStr maxNodeNameLen [195, 169]
    nodeNamespace := copyStr maxNodeNsLen [47]
    publishedTopics := [⟨7, 8, ⟨1, 0, 1, -2, 0, 500, 3, 0, 2, 1, 0⟩, copyStr maxTopicNameLen [47, 97],
      copyStr maxTopicTypeLen [98], copyStr maxNodeNameLen [], copyStr maxNodeNsLen [47, 99]⟩] }

theorem terminated_copyStr {size : Nat} {s : Text} (hs : validUtf8 s = true) (h0 : 0 ∉ s)
    (hlen : s.length < size) : Terminated size (copyStr size s) :=
  ⟨s, hs, h0, hlen, copyStr_of_lt hlen⟩

theorem speaker_texts : Texts speaker where
  nodeName := terminated_copyStr (by decide) (by decide) (by decide)
  nodeNamespace := terminated_copyStr (by decide) (by decide) (by decide)
  publishedTopics := by
    intro t ht
    rw [mem_singleton.mp ht]
    constructor <;> exact terminated_copyStr (by decide) (by decide) (by decide)
  subscribedTopics := by simp [speaker, zeroEntry]

theorem copyStr_length {size : Nat} {s : Text} (hlen : s.length < size) : (copyStr size s).length = size := by
  rw [copyStr_of_lt hlen, length_append, length_replicate]
  omega

theorem speaker_typed : EntryTyped speaker where
  nodeId := by decide
  domainId := by decide
  quicPort := by decide
  nodeName := copyStr_length (by decide)
  nodeNamespace := copyStr_length (by decide)
  publishedTopics := by
    intro t ht
    rw [mem_singleton.mp ht]
    refine ⟨by decide, by decide, by constructor <;> decide, ?_, ?_, ?_, ?_⟩ <;>
      exact copyStr_length (by decide)
  subscribedTopics := by simp [speaker, zeroEntry]
  pubCount := by decide
  subCount := by decide
  addrCount := by decide

theorem speaker_image :
    ∃ nodes nodes' i, collectNodes (fun _ _ => true) (fun _ : Fin 1 => speaker) 3 = .ok nodes ∧
      decodeSyncResponse (encodeSyncResponse 3 nodes) = .ok (3, nodes') ∧
      Image speaker (merge .receiving 9 100 nodes' (emptyTable 2) i) :=
  peer_holds_image .receiving (k := 0) (by decide) rfl rfl rfl speaker_texts (fun _ _ => speaker_typed)
    (fun j hj _ => absurd hj (by omega)) (by decide) 100 (by decide)

end RmwAxon.SyncImage
