import RmwAxon.SyncCodec

namespace RmwAxon.SyncCanonical

open Codec Endian NodeTable PeerSync SyncCodec SyncWire List

theorem exact_string : Exact readString putString := by
  intro buf s rest h
  obtain ⟨len, mid, hlen, hread⟩ := run_bind_ok.mp h
  obtain ⟨s', mid', hs, hvalid⟩ := run_bind_ok.mp hread
  obtain ⟨hbuf, htwo⟩ := take_ok hlen
  obtain ⟨hmid, hcount⟩ := take_ok hs
  by_cases hv : validUtf8 s' = true
  · rw [if_pos hv] at hvalid
    obtain ⟨rfl, rfl⟩ := run_pure_ok.mp hvalid
    rw [hbuf, hmid, putString, hcount, ← htwo, toLe_fromLe, append_assoc]
  · rw [if_neg hv] at hvalid
    cases hvalid

theorem field_lt (block : Bytes) (i j : Nat) : field block i j < 256 ^ (j - i) := by
  have hlen : ((block.take j).drop i).length ≤ j - i := by
    rw [length_drop, length_take]
    omega
  exact Nat.lt_of_lt_of_le (fromLe_lt _) (Nat.pow_le_pow_right (by decide) hlen)

section Block

variable {block : Bytes} (h : block.length = 48)

include h

theorem toLe_piece (i w : Nat) (hi : i + w ≤ 48) :
    toLe w (field block i (i + w)) = (block.take (i + w)).drop i := by
  have hw : toLe (i + w - i) (field block i (i + w)) = _ := toLe_field (by omega)
  rwa [Nat.add_sub_cancel_left] at hw

theorem topicBlock_field (name topicType nodeName nodeNamespace : Text) :
    topicBlock ⟨field block 0 8, field block 8 16, qosOf block, name, topicType, nodeName, nodeNamespace⟩ =
      block := by
  have hdepth : (asI32 (field block 19 23) % 2 ^ 32).toNat = field block 19 23 := by
    have hlt := field_lt block 19 23
    unfold asI32
    split_ifs <;> omega
  have hall : (block.take 48).drop 0 = block := by rw [drop_zero, take_of_length_le (by omega)]
  have hpieces := toLe_piece h
  simp only [topicBlock, putQos_eq, qosOf, hdepth, append_nil]
  rw [hpieces 0 8 (by decide), hpieces 8 8 (by decide), hpieces 16 1 (by decide),
    hpieces 17 1 (by decide), hpieces 18 1 (by decide), hpieces 19 4 (by decide),
    hpieces 23 4 (by decide), hpieces 27 4 (by decide), hpieces 31 4 (by decide),
    hpieces 35 4 (by decide), hpieces 39 1 (by decide), hpieces 40 4 (by decide),
    hpieces 44 4 (by decide)]
  simp (disch := decide) only [Nat.reduceAdd, pieces_append]
  exact hall

end Block

theorem exact_topic : Exact readTopic putTopic := by
  intro buf t rest h
  obtain ⟨block, mid, hblock, h₁⟩ := run_bind_ok.mp h
  obtain ⟨name, mid₁, hname, h₂⟩ := run_bind_ok.mp h₁
  obtain ⟨topicType, mid₂, htype, h₃⟩ := run_bind_ok.mp h₂
  obtain ⟨nodeName, mid₃, hnode, h₄⟩ := run_bind_ok.mp h₃
  obtain ⟨nodeNamespace, mid₄, hns, h₅⟩ := run_bind_ok.mp h₄
  obtain ⟨rfl, rfl⟩ := run_pure_ok.mp h₅
  obtain ⟨hbuf, hlen⟩ := take_ok hblock
  rw [putTopic_eq, topicBlock_field hlen, hbuf, exact_string _ _ _ hname, exact_string _ _ _ htype,
    exact_string _ _ _ hnode, exact_string _ _ _ hns]
  simp only [append_assoc, append_nil]

theorem exact_addr : Exact readAddr putAddr := by
  intro buf a rest h
  obtain ⟨block, mid, hblock, h₁⟩ := run_bind_ok.mp h
  obtain ⟨rfl, rfl⟩ := run_pure_ok.mp h₁
  obtain ⟨hbuf, hlen⟩ := take_ok hblock
  obtain ⟨b₀, b₁, b₂, b₃, rfl⟩ := length_eq_four.mp hlen
  exact hbuf

/-- A node with the number of addresses that its bytes announce, of which the
decoder reads no more than the table can hold. -/
def readAnnounced : Reader (PeerNodeInfo × Nat) := do
  let header ← take 12 "truncated node header"
  let nodeName ← readString
  let nodeNamespace ← readString
  let pubCount ← take 4 "truncated pub count"
  let publishedTopics ← many readTopic (fromLe pubCount)
  let subCount ← take 4 "truncated sub count"
  let subscribedTopics ← many readTopic (fromLe subCount)
  need 6 "truncated endpoint"
  let quicPort ← take 2 "truncated endpoint"
  let addrCount ← take 4 "truncated addr count"
  let limit := min (fromLe addrCount) maxQuicAddrs
  need (limit * 4) "truncated addrs"
  let quicAddrs ← many readAddr limit
  pure (⟨field header 0 8, field header 8 12, publishedTopics, subscribedTopics, fromLe quicPort, quicAddrs,
    nodeName, nodeNamespace⟩, fromLe addrCount)

variable {error : String} {buf rest : Bytes}

theorem take_number {k : Nat} {b : Bytes} (h : (take k error).run buf = .ok (b, rest)) :
    buf = toLe k (fromLe b) ++ rest := by
  obtain ⟨hbuf, hlen⟩ := take_ok h
  rw [← hlen, toLe_fromLe, hbuf]

theorem header_ok {header : Bytes} (h : (take 12 error).run buf = .ok (header, rest)) :
    buf = (toLe 8 (field header 0 8) ++ toLe 4 (field header 8 12)) ++ rest := by
  obtain ⟨hbuf, hlen⟩ := take_ok h
  have hid : toLe 8 (field header 0 8) = (header.take 8).drop 0 :=
    toLe_field (i := 0) (show 8 ≤ header.length by omega)
  have hdomain : toLe 4 (field header 8 12) = (header.take 12).drop 8 :=
    toLe_field (i := 8) (show 12 ≤ header.length by omega)
  rw [hid, hdomain, pieces_append (by decide) (by decide), drop_zero, take_of_length_le (by omega), hbuf]

theorem counted_topics {count mid : Bytes} {ts : List PeerTopicInfo}
    (hcount : (take 4 error).run buf = .ok (count, mid))
    (hread : (many readTopic (fromLe count)).run mid = .ok (ts, rest)) :
    buf = toLe 4 ts.length ++ (ts.flatMap putTopic ++ rest) := by
  have hlen : ts.length = fromLe count := by
    exact many_ok hread
  have hexact : Exact (many readTopic (fromLe count)) _ := exact_topic.many _
  rw [take_number hcount, hexact _ _ _ hread, hlen]

theorem readAnnounced_ok {node : PeerNodeInfo} {count : Nat}
    (h : readAnnounced.run buf = .ok ((node, count), rest)) :
    buf = nodeFront node ++ (toLe 4 count ++ (node.quicAddrs.flatMap putAddr ++ rest)) ∧
      count < 256 ^ 4 ∧ node.quicAddrs.length = min count maxQuicAddrs := by
  obtain ⟨header, mid₁, hheader, h₁⟩ := run_bind_ok.mp h
  obtain ⟨nodeName, mid₂, hname, h₂⟩ := run_bind_ok.mp h₁
  obtain ⟨nodeNamespace, mid₃, hns, h₃⟩ := run_bind_ok.mp h₂
  obtain ⟨pubCount, mid₄, hpubCount, h₄⟩ := run_bind_ok.mp h₃
  obtain ⟨pubs, mid₅, hpubs, h₅⟩ := run_bind_ok.mp h₄
  obtain ⟨subCount, mid₆, hsubCount, h₆⟩ := run_bind_ok.mp h₅
  obtain ⟨subs, mid₇, hsubs, h₇⟩ := run_bind_ok.mp h₆
  obtain ⟨_, mid₈, hneed, h₈⟩ := run_bind_ok.mp h₇
  obtain ⟨port, mid₉, hport, h₉⟩ := run_bind_ok.mp h₈
  obtain ⟨addrCount, mid₁₀, haddrCount, h₁₀⟩ := run_bind_ok.mp h₉
  obtain ⟨_, mid₁₁, hneed', h₁₁⟩ := run_bind_ok.mp h₁₀
  obtain ⟨addrs, mid₁₂, haddrs, h₁₂⟩ := run_bind_ok.mp h₁₁
  obtain ⟨heq, hrest⟩ := run_pure_ok.mp h₁₂
  obtain ⟨rfl, rfl⟩ := Prod.mk.inj heq
  refine ⟨?_, (take_ok haddrCount).2 ▸ fromLe_lt addrCount, many_ok haddrs⟩
  rw [header_ok hheader, exact_string _ _ _ hname, exact_string _ _ _ hns,
    counted_topics hpubCount hpubs, counted_topics hsubCount hsubs, ← (need_ok hneed).1,
    take_number hport, take_number haddrCount, ← (need_ok hneed').1, exact_addr.many _ _ _ _ haddrs, hrest]
  simp only [nodeFront, append_assoc]

def announcedCounts (buf : Bytes) : List Nat :=
  match (many readAnnounced (field buf 5 9)).run (buf.drop 9) with
  | .ok (nodes, _) => nodes.map Prod.snd
  | .error _ => []

theorem announced_counts_iff {k : Nat} {nodes : List (PeerNodeInfo × Nat)}
    (h : (many readAnnounced k).run buf = .ok (nodes, rest)) :
    (nodes.map Prod.fst).flatMap putNode <+: buf ↔ ∀ c ∈ nodes.map Prod.snd, c ≤ maxQuicAddrs := by
  induction k generalizing buf nodes with
  | zero =>
    obtain ⟨rfl, -⟩ := run_pure_ok.mp h
    simp
  | succ k ih =>
    obtain ⟨p, mid, hp, h₁⟩ := run_bind_ok.mp h
    obtain ⟨ps, mid', hps, h₂⟩ := run_bind_ok.mp h₁
    obtain ⟨rfl, rfl⟩ := run_pure_ok.mp h₂
    obtain ⟨hbuf, hlt, hlen⟩ := readAnnounced_ok hp
    rw [map_cons, map_cons, flatMap_cons, forall_mem_cons, ← ih hps, hbuf, putNode_eq,
      append_assoc, append_assoc, prefix_append_right_inj]
    by_cases hc : p.2 ≤ maxQuicAddrs
    · rw [hlen, Nat.min_eq_left hc, prefix_append_right_inj, prefix_append_right_inj]
      exact ⟨fun hmid => ⟨hc, hmid⟩, fun hboth => hboth.2⟩
    -- The encoder writes the number of addresses that were read.
    constructor
    · rintro ⟨t, ht⟩
      rw [append_assoc] at ht
      obtain ⟨heq, -⟩ := append_inj ht (by rw [toLe_length, toLe_length])
      have hsame := toLe_inj (by omega) hlt heq
      omega
    · exact fun hboth => absurd hboth.1 hc

theorem decodeSyncResponse_ok {domainId : Nat} {nodes : List PeerNodeInfo}
    (h : decodeSyncResponse buf = .ok (domainId, nodes)) :
    ∃ announced rest, (many readAnnounced (field buf 5 9)).run (buf.drop 9) = .ok (announced, rest) ∧
      nodes = announced.map Prod.fst ∧ announcedCounts buf = announced.map Prod.snd ∧
      buf = msgSyncResponse :: toLe 4 domainId ++ toLe 4 nodes.length ++ buf.drop 9 := by
  rw [decodeSyncResponse] at h
  split_ifs at h with hbad
  push Not at hbad
  obtain ⟨hlen, hhead⟩ := hbad
  cases hrun : (many readNode (field buf 5 9)).run (buf.drop 9) with
  | error e =>
    change Except.bind ((many readNode (field buf 5 9)).run (buf.drop 9)) _ = _ at h
    rw [hrun] at h
    cases h
  | ok p =>
    change Except.bind ((many readNode (field buf 5 9)).run (buf.drop 9)) _ = _ at h
    rw [hrun] at h
    cases h
    have hnode : readNode = Prod.fst <$> readAnnounced := by
      simp only [readNode, readAnnounced, map_bind, map_pure]
    rw [hnode, many_map, run_map_ok] at hrun
    obtain ⟨announced, hread, hnodes⟩ := hrun
    refine ⟨announced, p.2, hread, hnodes.symm, ?_, ?_⟩
    · rw [announcedCounts, hread]
    have hcount : p.1.length = field buf 5 9 := by
      rw [← hnodes, length_map, many_ok hread]
    have hdomain : toLe 4 (field buf 1 5) = (buf.take 5).drop 1 :=
      toLe_field (i := 1) (show 5 ≤ buf.length by omega)
    have hnumber : toLe 4 (field buf 5 9) = (buf.take 9).drop 5 :=
      toLe_field (i := 5) (show 9 ≤ buf.length by omega)
    have hfirst : [msgSyncResponse] = (buf.take 1).drop 0 := by
      rw [drop_zero, take_one, hhead]
      rfl
    rw [hcount, ← singleton_append, hdomain, hnumber, hfirst, pieces_append (by decide) (by decide),
      pieces_append (by decide) (by decide), drop_zero, take_append_drop]

/-- An accepted message begins with the encoding of what was read from it, unless
a node announces more addresses than the table can hold: then the rest of them is
read as the next node. -/
theorem accepted_canonical_iff {buf : Bytes} {domainId : Nat} {nodes : List PeerNodeInfo}
    (h : decodeSyncResponse buf = .ok (domainId, nodes)) :
    encodeSyncResponse domainId nodes <+: buf ↔ ∀ c ∈ announcedCounts buf, c ≤ maxQuicAddrs := by
  obtain ⟨announced, rest, hread, hnodes, hcounts, hbuf⟩ := decodeSyncResponse_ok h
  rw [hcounts, ← announced_counts_iff hread, ← hnodes]
  conv_lhs => rw [hbuf]
  rw [encodeSyncResponse, prefix_append_right_inj]

theorem talker_canonical :
    decodeSyncResponse (encodeSyncResponse 3 [talker]) = .ok (3, [talker]) ∧
      encodeSyncResponse 3 [talker] <+: encodeSyncResponse 3 [talker] := by
  have h : decodeSyncResponse (encodeSyncResponse 3 [talker]) = .ok (3, [talker]) := by
    decide +kernel
  have hcounts : ∀ c ∈ announcedCounts (encodeSyncResponse 3 [talker]), c ≤ maxQuicAddrs := by
    decide +kernel
  exact ⟨h, (accepted_canonical_iff h).mpr hcounts⟩

/-- A node with sixteen addresses. The last eight have the bytes of a node with
the number 6. -/
def crowded : PeerNodeInfo where
  nodeId := 5
  domainId := 3
  publishedTopics := []
  subscribedTopics := []
  quicPort := 7400
  quicAddrs := List.replicate 8 (10, 0, 0, 1) ++
    [(6, 0, 0, 0), (0, 0, 0, 0), (3, 0, 0, 0), (0, 0, 0, 0), (0, 0, 0, 0), (0, 0, 0, 0), (0, 0, 0, 0),
      (0, 0, 0, 0)]
  nodeName := [97]
  nodeNamespace := [47]

/-- Addresses of the first node are read as the second one, which nobody sent. -/
theorem addresses_read_as_node :
    ∃ buf domainId nodes, decodeSyncResponse buf = .ok (domainId, nodes) ∧
      buf = encodeSyncResponse 3 [crowded, talker] ∧ nodes.map PeerNodeInfo.nodeId = [5, 6] ∧
      ¬ encodeSyncResponse domainId nodes <+: buf := by
  refine ⟨encodeSyncResponse 3 [crowded, talker], 3, [{ crowded with quicAddrs := replicate 8 (10, 0, 0, 1) },
    ⟨6, 3, [], [], 0, [], [], []⟩], by decide +kernel, rfl, rfl, ?_⟩
  decide +kernel

end RmwAxon.SyncCanonical
