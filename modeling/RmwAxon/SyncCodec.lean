import RmwAxon.Codec
import RmwAxon.SyncWire

namespace RmwAxon.SyncCodec

open Codec Endian NodeTable PeerSync SyncWire List

section Readers

variable {α : Type} {error : String} {k : Nat}

theorem run_need (buf : Bytes) :
    (need k error).run buf = if buf.length < k then .error error else .ok ((), buf) := by
  by_cases h : buf.length < k
  · simp [need, h]
    rfl
  · simp [need, h]
    rfl

theorem run_take (buf : Bytes) : (take k error).run buf =
      if buf.length < k then .error error else .ok (buf.take k, buf.drop k) := by
  rw [SyncWire.take, run_bind, run_need]
  by_cases h : buf.length < k
  · rw [if_pos h, if_pos h]
    rfl
  · rw [if_neg h, if_neg h]
    rfl

theorem reads_take {w : Bytes} (hw : w.length = k) : Reads (take k error) w w := by
  intro rest
  have hlen : ¬ (w ++ rest).length < k := by
    rw [length_append]
    omega
  rw [run_take, if_neg hlen, ← hw, take_left, drop_left]

theorem reads_need {f : Reader α} {w : Bytes} {a : α} (hw : k ≤ w.length) (hf : Reads f w a) :
    Reads (need k error >>= fun _ => f) w a := by
  intro rest
  have hlen : ¬ (w ++ rest).length < k := by
    rw [length_append]
    omega
  rw [run_bind, run_need, if_neg hlen]
  exact hf rest

theorem take_ok {buf b rest : Bytes} (h : (take k error).run buf = .ok (b, rest)) :
    buf = b ++ rest ∧ b.length = k := by
  rw [run_take] at h
  by_cases hlen : buf.length < k
  · rw [if_pos hlen] at h
    cases h
  · rw [if_neg hlen] at h
    cases h
    exact ⟨(take_append_drop k buf).symm, length_take_of_le (by omega)⟩

theorem need_ok {buf rest : Bytes} {u : Unit} (h : (need k error).run buf = .ok (u, rest)) :
    rest = buf ∧ k ≤ buf.length := by
  rw [run_need] at h
  by_cases hlen : buf.length < k
  · rw [if_pos hlen] at h
    cases h
  · rw [if_neg hlen] at h
    cases h
    exact ⟨rfl, by omega⟩

end Readers

theorem field_head {w v : Nat} (hv : v < 256 ^ w) (rest : Bytes) : field (toLe w v ++ rest) 0 w = v := by
  have htake : (toLe w v ++ rest).take w = toLe w v := by
    rw [take_left' (toLe_length w v)]
  rw [field, htake, drop_zero, fromLe_toLe hv]

theorem field_skip {w i : Nat} (hw : w ≤ i) (v j : Nat) (rest : Bytes) :
    field (toLe w v ++ rest) i j = field rest (i - w) (j - w) := by
  have hlen := toLe_length w v
  rw [field, field, take_append, drop_append, length_take, hlen]
  by_cases hj : w ≤ j
  · rw [take_of_length_le (by omega), drop_eq_nil_of_le (by omega), nil_append, Nat.min_eq_right hj]
  · rw [Nat.sub_eq_zero_of_le (by omega : j ≤ w), drop_eq_nil_of_le (by simp; omega)]
    simp

theorem toLe_field {block : Bytes} {i j : Nat} (hj : j ≤ block.length) :
    toLe (j - i) (field block i j) = (block.take j).drop i := by
  have hlen : ((block.take j).drop i).length = j - i := by
    rw [length_drop, length_take_of_le hj]
  rw [field, ← hlen, toLe_fromLe]

theorem pieces_append {block : Bytes} {i j k : Nat} (hij : i ≤ j) (hjk : j ≤ k) :
    (block.take j).drop i ++ (block.take k).drop j = (block.take k).drop i := by
  have hsplit : block.take k = block.take j ++ (block.take k).drop j := by
    conv_lhs => rw [← take_append_drop j (block.take k)]
    rw [take_take, Nat.min_eq_left hjk]
  by_cases hi : i ≤ (block.take j).length
  · conv_rhs => rw [hsplit, drop_append_of_le_length hi]
  rw [length_take] at hi
  rw [drop_eq_nil_of_le (by simp; omega), drop_eq_nil_of_le (by simp; omega),
    drop_eq_nil_of_le (by simp; omega)]
  rfl

structure QosTyped (q : EntryQos) : Prop where
  reliability : q.reliability < 2 ^ 8
  durability : q.durability < 2 ^ 8
  historyKind : q.historyKind < 2 ^ 8
  historyDepth : -2 ^ 31 ≤ q.historyDepth ∧ q.historyDepth < 2 ^ 31
  deadlineSec : q.deadlineSec < 2 ^ 32
  deadlineNsec : q.deadlineNsec < 2 ^ 32
  lifespanSec : q.lifespanSec < 2 ^ 32
  lifespanNsec : q.lifespanNsec < 2 ^ 32
  liveliness : q.liveliness < 2 ^ 8
  livelinessLeaseSec : q.livelinessLeaseSec < 2 ^ 32
  livelinessLeaseNsec : q.livelinessLeaseNsec < 2 ^ 32

structure TopicTyped (t : PeerTopicInfo) : Prop where
  hash : t.hash < 2 ^ 64
  typeHash : t.typeHash < 2 ^ 64
  qos : QosTyped t.qos
  name : validUtf8 t.name = true
  topicType : validUtf8 t.topicType = true
  nodeName : validUtf8 t.nodeName = true
  nodeNamespace : validUtf8 t.nodeNamespace = true

structure NodeTyped (node : PeerNodeInfo) : Prop where
  nodeId : node.nodeId < 2 ^ 64
  domainId : node.domainId < 2 ^ 32
  publishedTopics : ∀ t ∈ node.publishedTopics, TopicTyped t
  subscribedTopics : ∀ t ∈ node.subscribedTopics, TopicTyped t
  quicPort : node.quicPort < 2 ^ 16
  nodeName : validUtf8 node.nodeName = true
  nodeNamespace : validUtf8 node.nodeNamespace = true

structure TopicShort (t : PeerTopicInfo) : Prop where
  name : t.name.length < 2 ^ 16
  topicType : t.topicType.length < 2 ^ 16
  nodeName : t.nodeName.length < 2 ^ 16
  nodeNamespace : t.nodeNamespace.length < 2 ^ 16

/-- Every length fits its field, and no address is left out. -/
structure NodeShort (node : PeerNodeInfo) : Prop where
  nodeName : node.nodeName.length < 2 ^ 16
  nodeNamespace : node.nodeNamespace.length < 2 ^ 16
  publishedTopics : ∀ t ∈ node.publishedTopics, TopicShort t
  subscribedTopics : ∀ t ∈ node.subscribedTopics, TopicShort t
  pubCount : node.publishedTopics.length < 2 ^ 32
  subCount : node.subscribedTopics.length < 2 ^ 32
  addrCount : node.quicAddrs.length ≤ maxQuicAddrs

theorem reads_string {s : Text} (hlen : s.length < 2 ^ 16) (hs : validUtf8 s = true) :
    Reads readString (putString s) s := by
  have hcount : fromLe (toLe 2 s.length) = s.length := fromLe_toLe (by simpa using hlen)
  refine (reads_take (toLe_length 2 s.length)).bind ?_
  rw [hcount, ← append_nil s]
  refine (reads_take (by simp)).bind ?_
  rw [append_nil, if_pos hs]
  exact Reads.pure s

theorem asI32_of_range {d : Int} (h : -2 ^ 31 ≤ d ∧ d < 2 ^ 31) : asI32 (d % 2 ^ 32).toNat = d := by
  unfold asI32
  split_ifs <;> omega

def topicBlock (t : PeerTopicInfo) : Bytes := toLe 8 t.hash ++ (toLe 8 t.typeHash ++ putQos t.qos)

theorem putQos_eq (q : EntryQos) :
    putQos q = toLe 1 q.reliability ++ (toLe 1 q.durability ++ (toLe 1 q.historyKind ++
      (toLe 4 (q.historyDepth % 2 ^ 32).toNat ++ (toLe 4 q.deadlineSec ++ (toLe 4 q.deadlineNsec ++
      (toLe 4 q.lifespanSec ++ (toLe 4 q.lifespanNsec ++ (toLe 1 q.liveliness ++
      (toLe 4 q.livelinessLeaseSec ++ (toLe 4 q.livelinessLeaseNsec ++ [])))))))))) := by
  simp [putQos, toLe_one]

theorem qosOf_topicBlock {t : PeerTopicInfo} (h : QosTyped t.qos) : qosOf (topicBlock t) = t.qos := by
  have hdepth : (t.qos.historyDepth % 2 ^ 32).toNat < 256 ^ 4 := by omega
  have hhead {w v : Nat} {rest : Bytes} (hv : v < 256 ^ w) := field_head hv rest
  rw [topicBlock, putQos_eq]
  simp (disch := decide) only [qosOf, field_skip, Nat.reduceSub]
  rw [hhead (by simpa using h.reliability), hhead (by simpa using h.durability),
    hhead (by simpa using h.historyKind), hhead hdepth, hhead (by simpa using h.deadlineSec),
    hhead (by simpa using h.deadlineNsec), hhead (by simpa using h.lifespanSec),
    hhead (by simpa using h.lifespanNsec), hhead (by simpa using h.liveliness),
    hhead (by simpa using h.livelinessLeaseSec), hhead (by simpa using h.livelinessLeaseNsec),
    asI32_of_range h.historyDepth]

theorem putTopic_eq (t : PeerTopicInfo) :
    putTopic t = topicBlock t ++ (putString t.name ++ (putString t.topicType ++
      (putString t.nodeName ++ (putString t.nodeNamespace ++ [])))) := by
  simp [putTopic, topicBlock]

theorem reads_topic {t : PeerTopicInfo} (hty : TopicTyped t) (hsh : TopicShort t) :
    Reads readTopic (putTopic t) t := by
  have hhash : field (topicBlock t) 0 8 = t.hash := field_head (by simpa using hty.hash) _
  have htypeHash : field (topicBlock t) 8 16 = t.typeHash := by
    rw [topicBlock, field_skip (by decide)]
    exact field_head (by simpa using hty.typeHash) _
  rw [putTopic_eq]
  refine (reads_take (show (topicBlock t).length = 48 by simp [topicBlock, putQos_eq, toLe_length])).bind ?_
  refine (reads_string hsh.name hty.name).bind ?_
  refine (reads_string hsh.topicType hty.topicType).bind ?_
  refine (reads_string hsh.nodeName hty.nodeName).bind ?_
  refine (reads_string hsh.nodeNamespace hty.nodeNamespace).bind ?_
  rw [hhash, htypeHash, qosOf_topicBlock hty.qos]
  exact Reads.pure t

theorem reads_addr (a : Addr) : Reads readAddr (putAddr a) a := by
  rw [← append_nil (putAddr a)]
  refine (reads_take (show (putAddr a).length = 4 from rfl)).bind ?_
  exact Reads.pure a

theorem reads_topics {ts : List PeerTopicInfo} (hty : ∀ t ∈ ts, TopicTyped t)
    (hsh : ∀ t ∈ ts, TopicShort t) : Reads (many readTopic ts.length) (ts.flatMap putTopic) ts := by
  exact Reads.many fun t ht => reads_topic (hty t ht) (hsh t ht)

def nodeFront (node : PeerNodeInfo) : Bytes :=
  (toLe 8 node.nodeId ++ toLe 4 node.domainId) ++ (putString node.nodeName ++
    (putString node.nodeNamespace ++ (toLe 4 node.publishedTopics.length ++
    (node.publishedTopics.flatMap putTopic ++ (toLe 4 node.subscribedTopics.length ++
    (node.subscribedTopics.flatMap putTopic ++ toLe 2 node.quicPort))))))

theorem putNode_eq (node : PeerNodeInfo) :
    putNode node = nodeFront node ++ (toLe 4 node.quicAddrs.length ++ node.quicAddrs.flatMap putAddr) := by
  simp [putNode, nodeFront]

theorem putAddrs_length (as : List Addr) : (as.flatMap putAddr).length = as.length * 4 := by
  induction as with
  | nil => rfl
  | cons a as ih =>
    rw [flatMap_cons, length_append, ih, length_cons]
    simp only [putAddr, length_cons, length_nil]
    omega

theorem reads_node {node : PeerNodeInfo} (hty : NodeTyped node) (hsh : NodeShort node) :
    Reads readNode (putNode node) node := by
  have hid : field (toLe 8 node.nodeId ++ toLe 4 node.domainId) 0 8 = node.nodeId :=
    field_head (by simpa using hty.nodeId) _
  have hdomain : field (toLe 8 node.nodeId ++ toLe 4 node.domainId) 8 12 = node.domainId := by
    rw [field_skip (by decide), ← append_nil (toLe 4 node.domainId)]
    exact field_head (by simpa using hty.domainId) _
  have hpub : fromLe (toLe 4 node.publishedTopics.length) = node.publishedTopics.length :=
    fromLe_toLe (by simpa using hsh.pubCount)
  have hsub : fromLe (toLe 4 node.subscribedTopics.length) = node.subscribedTopics.length :=
    fromLe_toLe (by simpa using hsh.subCount)
  have hport : fromLe (toLe 2 node.quicPort) = node.quicPort :=
    fromLe_toLe (by simpa using hty.quicPort)
  have haddrs : fromLe (toLe 4 node.quicAddrs.length) = node.quicAddrs.length := by
    refine fromLe_toLe (Nat.lt_of_le_of_lt hsh.addrCount ?_)
    decide
  have hputNode : putNode node = (toLe 8 node.nodeId ++ toLe 4 node.domainId) ++
      (putString node.nodeName ++ (putString node.nodeNamespace ++
      (toLe 4 node.publishedTopics.length ++ (node.publishedTopics.flatMap putTopic ++
      (toLe 4 node.subscribedTopics.length ++ (node.subscribedTopics.flatMap putTopic ++
      (toLe 2 node.quicPort ++ (toLe 4 node.quicAddrs.length ++
      (node.quicAddrs.flatMap putAddr ++ []))))))))) := by
    simp [putNode]
  rw [hputNode]
  refine (reads_take (by simp [toLe_length])).bind ?_
  refine (reads_string hsh.nodeName hty.nodeName).bind ?_
  refine (reads_string hsh.nodeNamespace hty.nodeNamespace).bind ?_
  refine (reads_take (toLe_length 4 _)).bind ?_
  rw [hpub]
  refine (reads_topics hty.publishedTopics hsh.publishedTopics).bind ?_
  refine (reads_take (toLe_length 4 _)).bind ?_
  rw [hsub]
  refine (reads_topics hty.subscribedTopics hsh.subscribedTopics).bind ?_
  refine reads_need (by simp [toLe_length]; omega) ?_
  refine (reads_take (toLe_length 2 _)).bind ?_
  refine (reads_take (toLe_length 4 _)).bind ?_
  rw [haddrs, Nat.min_eq_left hsh.addrCount]
  refine reads_need (by rw [append_nil, putAddrs_length]) ?_
  refine (Reads.many fun a _ => reads_addr a).bind ?_
  rw [hid, hdomain, hport]
  exact Reads.pure node

theorem decodeSyncResponse_encode {domainId : Nat} {nodes : List PeerNodeInfo} (hd : domainId < 2 ^ 32)
    (hcount : nodes.length < 2 ^ 32) (hty : ∀ node ∈ nodes, NodeTyped node)
    (hsh : ∀ node ∈ nodes, NodeShort node) :
    decodeSyncResponse (encodeSyncResponse domainId nodes) = .ok (domainId, nodes) := by
  have hlen : ¬ (encodeSyncResponse domainId nodes).length < 9 := by
    simp [encodeSyncResponse, toLe_length]
    omega
  have hone : encodeSyncResponse domainId nodes =
      toLe 1 2 ++ (toLe 4 domainId ++ (toLe 4 nodes.length ++ nodes.flatMap putNode)) := by
    simp [encodeSyncResponse, toLe_one, msgSyncResponse]
  have hdomain : field (encodeSyncResponse domainId nodes) 1 5 = domainId := by
    rw [hone, field_skip (by decide)]
    exact field_head (by simpa using hd) _
  have hnodes : field (encodeSyncResponse domainId nodes) 5 9 = nodes.length := by
    rw [hone, field_skip (by decide), field_skip (by decide)]
    exact field_head (by simpa using hcount) _
  have hdrop : (encodeSyncResponse domainId nodes).drop 9 = nodes.flatMap putNode ++ [] := by
    rw [hone, drop_append, drop_append, drop_append]
    simp [toLe_length, drop_eq_nil_of_le]
  have hread := Reads.many (r := readNode) fun node hnode => reads_node (hty node hnode) (hsh node hnode)
  have hhead : (encodeSyncResponse domainId nodes).head? = some msgSyncResponse := rfl
  rw [decodeSyncResponse, if_neg (by simpa [hhead] using hlen), hdomain, hnodes, hdrop]
  change Except.bind ((many readNode nodes.length).run _) _ = _
  rw [hread]
  rfl

theorem encodeSyncRequestWithNodes_eq (domainId daemonId : Nat) (nodes : List PeerNodeInfo) :
    encodeSyncRequestWithNodes domainId daemonId nodes =
      toLe 1 1 ++ (toLe 4 domainId ++ (toLe 8 daemonId ++ encodeSyncResponse domainId nodes)) := by
  simp [encodeSyncRequestWithNodes, encodeSyncRequest, toLe_one, msgSyncRequest]

/-- The graph that a daemon sends is the one its peer reads, in an answer as well
as in a request that pushes it. -/
theorem sync_round_trip {domainId daemonId : Nat} {nodes : List PeerNodeInfo} (hd : domainId < 2 ^ 32)
    (hid : daemonId < 2 ^ 64) (hty : ∀ node ∈ nodes, NodeTyped node) (hcount : nodes.length < 2 ^ 32)
    (hsh : ∀ node ∈ nodes, NodeShort node) :
    decodeSyncResponse (encodeSyncResponse domainId nodes) = .ok (domainId, nodes) ∧
      decodeSyncRequest (encodeSyncRequestWithNodes domainId daemonId nodes) = .ok domainId ∧
      syncRequestDaemonId (encodeSyncRequestWithNodes domainId daemonId nodes) = .ok (some daemonId) ∧
      decodeSyncRequestPush (encodeSyncRequestWithNodes domainId daemonId nodes) =
        .ok (some (daemonId, nodes)) := by
  have hresponse := decodeSyncResponse_encode hd hcount hty hsh
  have hlen : 22 ≤ (encodeSyncRequestWithNodes domainId daemonId nodes).length := by
    simp [encodeSyncRequestWithNodes_eq, encodeSyncResponse, toLe_length]
    omega
  have hhead : (encodeSyncRequestWithNodes domainId daemonId nodes).head? = some msgSyncRequest := rfl
  have hdomain : field (encodeSyncRequestWithNodes domainId daemonId nodes) 1 5 = domainId := by
    rw [encodeSyncRequestWithNodes_eq, field_skip (by decide)]
    exact field_head (by simpa using hd) _
  have hdaemon : field (encodeSyncRequestWithNodes domainId daemonId nodes) 5 13 = daemonId := by
    rw [encodeSyncRequestWithNodes_eq, field_skip (by decide), field_skip (by decide)]
    exact field_head (by simpa using hid) _
  have hdrop : (encodeSyncRequestWithNodes domainId daemonId nodes).drop 13 =
      encodeSyncResponse domainId nodes := by
    rw [encodeSyncRequestWithNodes_eq, drop_append, drop_append, drop_append]
    simp [toLe_length, drop_eq_nil_of_le]
  refine ⟨hresponse, ?_, ?_, ?_⟩
  · rw [decodeSyncRequest, if_neg (by simp [hhead]; omega), hdomain]
  · rw [syncRequestDaemonId, if_neg (by simp [hhead]; omega), if_neg (by omega), if_neg (by omega), hdaemon]
  · rw [decodeSyncRequestPush, if_neg (by omega), if_neg (by simp [hhead]; omega), hdrop, hresponse, hdaemon]
    rfl

def talker : PeerNodeInfo where
  nodeId := 5
  domainId := 3
  publishedTopics := [⟨7, 8, ⟨1, 0, 1, -2, 0, 500, 3, 0, 2, 1, 0⟩, [47, 97], [98], [99], [47]⟩]
  subscribedTopics := []
  quicPort := 7400
  quicAddrs := [(10, 0, 0, 1), (192, 168, 1, 9)]
  nodeName := [195, 169]
  nodeNamespace := [47]

theorem talker_typed : NodeTyped talker where
  nodeId := by decide
  domainId := by decide
  publishedTopics := by
    intro t ht
    rw [mem_singleton.mp ht]
    exact ⟨by decide, by decide, by constructor <;> decide, by decide, by decide, by decide, by decide⟩
  subscribedTopics := by simp [talker]
  quicPort := by decide
  nodeName := by decide
  nodeNamespace := by decide

theorem talker_short : NodeShort talker := by
  constructor
  case publishedTopics =>
    intro t ht
    rw [mem_singleton.mp ht]
    constructor <;> decide
  all_goals first | decide | simp [talker]

theorem talker_round_trip :
    decodeSyncResponse (encodeSyncResponse 3 [talker]) = .ok (3, [talker]) ∧
      decodeSyncRequest (encodeSyncRequestWithNodes 3 9 [talker]) = .ok 3 ∧
      syncRequestDaemonId (encodeSyncRequestWithNodes 3 9 [talker]) = .ok (some 9) ∧
      decodeSyncRequestPush (encodeSyncRequestWithNodes 3 9 [talker]) = .ok (some (9, [talker])) :=
  sync_round_trip (by decide) (by decide) (by simpa using talker_typed) (by decide)
    (by simpa using talker_short)

end RmwAxon.SyncCodec
