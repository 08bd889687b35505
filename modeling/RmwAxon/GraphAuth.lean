import RmwAxon.DaemonRun
import RmwAxon.LocalSlots
import RmwAxon.SyncWire

namespace RmwAxon.GraphAuth

open DomainSync LocalSlots MatchPass MergeRounds NodeTable SyncWire Transition List Option
open PeerSync (PeerNodeInfo mergeRemoteNodes)

variable {n : Nat} {table table' t : Table n} {origin now : Nat} {nodes : List PeerNodeInfo}

/-- A key shared with another daemon. It is active once the other side has shown
that it has it. -/
structure SessionKey where
  remoteDaemonId : Nat
  keyId : Text
  active : Bool
  deriving DecidableEq

def findForDaemon (keys : List SessionKey) (remoteDaemonId : Nat) (requireActive : Bool) :
    Option SessionKey :=
  keys.find? fun e => (!requireActive || e.active) && decide (e.remoteDaemonId = remoteDaemonId)

def findByKeyIdForTls (keys : List SessionKey) (keyId : Text) : Option SessionKey :=
  keys.find? fun e => decide (e.keyId = keyId)

def hasActiveSession (keys : List SessionKey) (remoteDaemonId : Nat) : Bool :=
  (findForDaemon keys remoteDaemonId true).isSome

/-- The bytes of AXON-QKD-TLS13-v1: stand before the name of a key. -/
def identityTag : Bytes :=
  [0x41, 0x58, 0x4f, 0x4e, 0x2d, 0x51, 0x4b, 0x44, 0x2d, 0x54, 0x4c, 0x53, 0x31, 0x33, 0x2d, 0x76, 0x31, 0x3a]

def qkdIdentity (keyId : Text) : Bytes := identityTag ++ keyId

def qkdIdentityKeyId (identity : Bytes) : Option Text :=
  if identityTag.isPrefixOf identity ∧ validUtf8 (identity.drop identityTag.length) then
    some (identity.drop identityTag.length)
  else none

/-- In QKD mode a request is looked at only if it names a daemon with an active
key. -/
def syncAllowed (keys : List SessionKey) (data : Bytes) : Bool :=
  match syncRequestDaemonId data with
  | .ok (some remoteDaemonId) => hasActiveSession keys remoteDaemonId
  | _ => false

def maxStreamBytes : Nat := 1048576

def originOf (e : NodeTableEntry) : List Nat := if isOccupied e then [e.daemonOrigin] else []

/-- The origins of the entries that are created, changed or removed between two
tables. Match lists are the daemon's own and no part of an entry here. -/
def touched (table table' : Table n) : List Nat :=
  (List.finRange n).flatMap fun k =>
    if node (table' k) = node (table k) then [] else originOf (table k) ++ originOf (table' k)

/-- A connection is known by the daemon whose key it was authenticated with. The
log has a pair of that daemon and an origin for each entry that a push has
touched, and is kept for the statements only. -/
structure State (n : Nat) where
  table : Table n
  keys : List SessionKey
  connections : List Nat
  log : List (Nat × Nat)

inductive Event (n : Nat)
  | keys (keys : List SessionKey)
  | table (ev : DaemonRun.Event n)
  | connect (identity : Bytes)
  | stream (i : Nat) (data : Bytes) (alive : Nat → Nat → Bool) (now : Nat)

/-- The key of a connection is resolved by the TLS handshake, which only a
holder of the key completes. -/
def step (st : State n) : Event n → Option (State n)
  | .keys keys => some { st with keys := keys }
  | .table ev => (DaemonRun.step st.table ev).map fun table => { st with table := table }
  | .connect identity => do
      let keyId ← qkdIdentityKeyId identity
      let session ← findByKeyIdForTls st.keys keyId
      some { st with connections := st.connections ++ [session.remoteDaemonId] }
  | .stream i data alive now => st.connections[i]?.map fun peer =>
    if data.length ≤ maxStreamBytes ∧ syncAllowed st.keys data then
      match handleSyncPayload alive now st.table data with
      | .error _ => st
      | .ok (_, table) => { st with
          table := table
          log := (touched st.table table).map (Prod.mk peer) ++ st.log }
    else st

def Unclaimed (origin : Nat) (nodes : List PeerNodeInfo) (table : Table n) : Prop :=
  ∀ k, isOccupied (table k) = true → (table k).nodeId ∈ nodes.map PeerNodeInfo.nodeId →
    (table k).daemonOrigin = origin

instance (origin : Nat) (nodes : List PeerNodeInfo) (table : Table n) :
    Decidable (Unclaimed origin nodes table) :=
  inferInstanceAs (Decidable (∀ k, isOccupied (table k) = true → _))

theorem mem_touched {d : Nat} : d ∈ touched table table' ↔ ∃ k, ¬ SameNode (table k) (table' k) ∧
      (isOccupied (table k) = true ∧ d = (table k).daemonOrigin ∨
        isOccupied (table' k) = true ∧ d = (table' k).daemonOrigin) := by
  simp only [touched, mem_flatMap, mem_finRange, true_and]
  refine exists_congr fun k => ?_
  by_cases hsame : SameNode (table k) (table' k)
  · simp [hsame, show node (table' k) = node (table k) from hsame]
  · simp only [if_neg (show ¬ node (table' k) = node (table k) from hsame), hsame, not_false_iff, true_and,
      originOf, mem_append]
    refine or_congr ?_ ?_ <;> split_ifs with hocc <;> simp [hocc]

def Owned (origin : Nat) (table table' : Table n) : Prop :=
  ∀ k, isOccupied (table' k) = true → (table' k).daemonOrigin = origin ∨
    isOccupied (table k) = true ∧ (table' k).daemonOrigin = (table k).daemonOrigin

theorem Owned.pruned {u : Table n} (h : Owned origin table t) {lost : MatchEntry → Prop}
    (hp : ∀ k, Pruned lost (t k) (u k)) : Owned origin table u := by
  intro k hk
  have hsame := (hp k).same
  rw [hsame.daemonOrigin]
  exact h k ((hp k).isOccupied ▸ hk)

theorem Owned.rounds (h : Owned origin table t) (hr : Rounds origin now nodes t table') :
    Owned origin table table' := by
  induction hr with
  | nil => exact h
  | placed idx hp _ ih =>
    obtain ⟨r, e, start, hr, rfl, _⟩ := hp
    refine ih fun k => ?_
    rw [Function.update_apply]
    split_ifs
    · exact fun _ => .inl rfl
    · exact h.pruned hr k
  | passed _ _ ih => exact ih h

theorem Owned.thinned {gone : NodeTableEntry → Bool} (h : Thinned gone table t) : Owned origin table t := by
  intro k hk
  rcases h k with ⟨_, e, hblank, hpruned⟩ | ⟨_, hpruned⟩
  · rw [hpruned.isOccupied, hblank.isOccupied] at hk
    cases hk
  · exact .inr ⟨hpruned.isOccupied ▸ hk, hpruned.same.daemonOrigin⟩

/-- A list that claims no node from elsewhere leaves the entries of all other
origins alone. -/
theorem foreign_same (horigin : origin ≠ 0) (now : Nat) (hfree : Unclaimed origin nodes table) {k : Fin n}
    (hocc : isOccupied (table k) = true) (hforeign : (table k).daemonOrigin ≠ origin) :
    SameNode (table k) (mergeRemoteNodes origin now nodes table k) := by
  have hid : (table k).nodeId ∉ nodes.map PeerNodeInfo.nodeId := fun hid => hforeign (hfree k hocc hid)
  have hmerged : Merged (obsolete origin nodes) origin now nodes table _ :=
    mergeRemoteNodes_merged horigin nodes table
  obtain ⟨t, hthin, hrounds⟩ := hmerged
  rcases hthin k with ⟨hgone, _⟩ | ⟨_, hpruned⟩
  · simp only [obsolete, PeerSync.staleFromOrigin, PeerSync.duplicateRemote, decide_eq_false hforeign,
      Bool.false_and, Bool.false_or] at hgone
    simp [hid] at hgone
  · have hafter := rounds_unnamed hrounds (List.Subset.refl nodes) (hpruned.isOccupied ▸ hocc)
      (hpruned.same.nodeId ▸ hid)
    exact hpruned.same.trans hafter.same

theorem touched_merge (horigin : origin ≠ 0) (now : Nat) (hfree : Unclaimed origin nodes table) {d : Nat}
    (h : d ∈ touched table (mergeRemoteNodes origin now nodes table)) : d = origin := by
  obtain ⟨k, hchanged, hside⟩ := mem_touched.mp h
  have hbefore : isOccupied (table k) = true → (table k).daemonOrigin = origin := fun hocc => by
    by_contra hforeign
    exact hchanged (foreign_same horigin now hfree hocc hforeign)
  have hmerged : Merged (obsolete origin nodes) origin now nodes table _ :=
    mergeRemoteNodes_merged horigin nodes table
  obtain ⟨t, hthin, hrounds⟩ := hmerged
  rcases hside with ⟨hocc, rfl⟩ | ⟨hocc, rfl⟩
  · exact hbefore hocc
  · rcases (Owned.thinned hthin).rounds hrounds k hocc with hown | ⟨hk, heq⟩
    · exact hown
    · exact heq.trans (hbefore hk)

theorem touched_self (table : Table n) : touched table table = [] := by
  simp [touched]

variable {alive : Nat → Nat → Bool}

theorem handleSyncPayload_table {data out : Bytes}
    (h : handleSyncPayload alive now table data = .ok (out, table')) :
    table' = table ∨ ∃ p, decodeSyncRequestPush data = .ok (some p) ∧
      table' = mergeRemoteNodes p.1 now p.2 table := by
  cases data with
  | nil =>
    cases h
    exact .inl rfl
  | cons kind rest =>
    simp only [handleSyncPayload] at h
    split_ifs at h
    · cases hd : decodeSyncRequest (kind :: rest) with
      | error e =>
        rw [hd] at h
        cases h
      | ok reqDomain =>
        cases hp : decodeSyncRequestPush (kind :: rest) with
        | error e =>
          rw [hd, hp] at h
          cases h
        | ok pushed =>
          rw [hd, hp] at h
          cases h
          cases pushed with
          | none => exact .inl rfl
          | some p => exact .inr ⟨p, rfl, rfl⟩
    · cases h
      exact .inl rfl

/-- The push names the daemon whose key its connection has, and claims no node
from elsewhere. One in the name of daemon 0 has no effect. -/
def Honest (peer : Nat) (table : Table n) (data : Bytes) : Prop :=
  ∀ p ∈ (decodeSyncRequestPush data).toOption.join, p.1 = 0 ∨ p.1 = peer ∧ Unclaimed p.1 p.2 table
  deriving Decidable

def honest (st : State n) : Event n → Prop
  | .stream i data _ _ => ∀ peer ∈ st.connections[i]?, Honest peer st.table data
  | _ => True

theorem touched_payload {data out : Bytes} {peer : Nat}
    (hok : Honest peer table data) (h : handleSyncPayload alive now table data = .ok (out, table'))
    {d : Nat} (hd : d ∈ touched table table') : peer = d := by
  rcases handleSyncPayload_table h with rfl | ⟨p, hp, rfl⟩
  · rw [touched_self] at hd
    cases hd
  have hpush := hok p (by rw [hp]; rfl)
  by_cases hzero : p.1 = 0
  · rw [hzero, mergeRemoteNodes, if_pos rfl, touched_self] at hd
    cases hd
  · obtain ⟨hpeer, hfree⟩ := hpush.resolve_left hzero
    exact hpeer.symm.trans (touched_merge hzero now hfree hd).symm

theorem step_log {st st' : State n} {ev : Event n} (h : ∀ c ∈ st.log, c.1 = c.2) (hok : honest st ev)
    (hs : step st ev = some st') : ∀ c ∈ st'.log, c.1 = c.2 := by
  cases ev with
  | keys keys =>
    cases hs
    exact h
  | table ev =>
    obtain ⟨t, _, rfl⟩ := map_eq_some_iff.mp hs
    exact h
  | connect identity =>
    obtain ⟨keyId, _, hs⟩ := bind_eq_some_iff.mp hs
    obtain ⟨session, _, hs⟩ := bind_eq_some_iff.mp hs
    cases hs
    exact h
  | stream i data alive now =>
    obtain ⟨peer, hpeer, rfl⟩ := map_eq_some_iff.mp hs
    split_ifs
    · cases hp : handleSyncPayload alive now st.table data with
      | error e => exact h
      | ok r =>
        intro c hc
        rcases mem_append.mp hc with hc | hc
        · obtain ⟨d, hd, rfl⟩ := mem_map.mp hc
          exact touched_payload (hok peer hpeer) hp hd
        · exact h c hc
    · exact h

/-- As long as each push is made in the name of its own daemon and claims no
other's nodes, a push touches entries of the daemon whose key its connection has
and no others. -/
theorem honest_run_touches_own {start st : State n} (hstart : start.log = [])
    (h : Reach step honest start st) : ∀ c ∈ st.log, c.1 = c.2 :=
  h.invariant (I := fun st => ∀ c ∈ st.log, c.1 = c.2) (by simp [hstart]) fun _ _ _ => step_log

instance (st : State n) (ev : Event n) : Decidable (honest st ev) := by
  unfold honest
  split <;> infer_instance

def start (n : Nat) : State n := ⟨emptyTable n, [], [], []⟩

/-- Keys are shared with daemons 7 and 9. Daemon 7 connects and pushes node 5 in
the name of the given daemon. -/
def pushAs (daemonId : Nat) : List (Event n) :=
  [.keys [⟨7, [97], true⟩, ⟨9, [98], true⟩], .connect (qkdIdentity [97]),
    .stream 0 (encodeSyncRequestWithNodes 0 daemonId [remoteNode 5 0]) (fun _ _ => true) 5]

theorem own_push_touches_own :
    ∃ st : State 1, Reach step honest (start 1) st ∧ st.log ≠ [] ∧ ∀ c ∈ st.log, c.1 = c.2 := by
  have hrun : (guardedRun step honest (pushAs 7) (start 1)).any (fun st =>
      decide (st.log ≠ [])) = true := by
    decide +kernel
  obtain ⟨st, hst, hlog⟩ := exists_of_any hrun
  have hreach := reach_of_guardedRun hst
  exact ⟨st, hreach, hlog, honest_run_touches_own rfl hreach⟩

/-- Daemon 7 creates an entry of daemon 9 over a connection with its own key. -/
theorem push_in_other_name :
    ¬ ∀ (n : Nat) (st : State n), Reach step anyStep (start n) st → ∀ c ∈ st.log, c.1 = c.2 := by
  intro hall
  have hrun : (run step (pushAs 9) (start 1)).any (fun st => decide ((7, 9) ∈ st.log)) = true := by
    decide +kernel
  obtain ⟨st, hst, hlog⟩ := exists_of_any hrun
  have heq := hall 1 st (reach_of_run hst fun _ _ _ => trivial) (7, 9) hlog
  cases heq

end RmwAxon.GraphAuth
