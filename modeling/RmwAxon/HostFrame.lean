import RmwAxon.HostRun
import RmwAxon.Loan

namespace RmwAxon.HostFrame

open Compress Session SessionFrame Host HostRun Function RingBuffer RingHistory ReceiveBySeq
open RingBuffer (Bytes Ring)
open RingHistory (SameSlots)

def TablesKept (s' s : Tables) : Prop :=
  ∃ q ts, s' = { s with remoteRecvQueues := q, messageTimestamps := ts }

theorem TablesKept.refl (s : Tables) : TablesKept s s :=
  ⟨s.remoteRecvQueues, s.messageTimestamps, rfl⟩

theorem TablesKept.trans {s s' s'' : Tables} (h : TablesKept s'' s') (h' : TablesKept s' s) :
    TablesKept s'' s := by
  obtain ⟨q, ts, rfl⟩ := h
  obtain ⟨q', ts', rfl⟩ := h'
  exact ⟨q, ts, rfl⟩

structure ProcessKept (p' p : Process) : Prop where
  opened : p'.opened = p.opened
  segments : ∀ h, (p'.handles h).segment = (p.handles h).segment
  tables : TablesKept p'.tables p.tables

theorem ProcessKept.refl (p : Process) : ProcessKept p p := ⟨rfl, fun _ => rfl, .refl _⟩

theorem ProcessKept.trans {p p' p'' : Process} (h : ProcessKept p'' p') (h' : ProcessKept p' p) :
    ProcessKept p'' p :=
  ⟨h.opened.trans h'.opened, fun k => (h.segments k).trans (h'.segments k), h.tables.trans h'.tables⟩

variable {i h : Nat} {m : Ring} {x : Machine} {w : World}

theorem update_kept {ps : Nat → Process} {p : Process} (h : ProcessKept p (ps i)) (j : Nat) :
    ProcessKept (update ps i p j) (ps j) := by
  rw [update_apply]
  split_ifs with hj
  · rw [hj]
    exact h
  · exact .refl _

structure Ahead (m' m : Ring) : Prop where
  geometry : m'.geometry = m.geometry
  writeIndex : m.writeIndex ≤ m'.writeIndex

theorem Ahead.refl (m : Ring) : Ahead m m := ⟨rfl, le_rfl⟩

theorem Ahead.trans {m' m'' : Ring} (h : Ahead m'' m') (h' : Ahead m' m) : Ahead m'' m :=
  ⟨h.geometry.trans h'.geometry, h'.writeIndex.trans h.writeIndex⟩

structure Quiet (x' x : Machine) : Prop where
  linked : x'.shm.linked = x.shm.linked
  created : x'.shm.created = x.shm.created
  channel : x'.shm.channel = x.shm.channel
  rings : ∀ seg, Ahead (x'.shm.rings seg) (x.shm.rings seg)
  processes : ∀ i, ProcessKept (x'.processes i) (x.processes i)

theorem Quiet.refl (x : Machine) : Quiet x x :=
  ⟨rfl, rfl, rfl, fun _ => .refl _, fun _ => .refl _⟩

theorem Quiet.trans {x' x'' : Machine} (h : Quiet x'' x') (h' : Quiet x' x) : Quiet x'' x where
  linked := h.linked.trans h'.linked
  created := h.created.trans h'.created
  channel := h.channel.trans h'.channel
  rings seg := (h.rings seg).trans (h'.rings seg)
  processes i := (h.processes i).trans (h'.processes i)

theorem put_quiet (hr : ∀ seg, Ahead (w.rings seg) (x.shm.rings seg))
    (hs : ∀ h, (w.handles h).segment = ((x.processes i).handles h).segment)
    (ht : TablesKept w.session (x.processes i).tables) : Quiet (put x i w) x :=
  ⟨rfl, rfl, rfl, hr, update_kept ⟨rfl, hs, ht⟩⟩

theorem setLoans_quiet (x : Machine) (i h : Nat) (loans : LocalPubSub.Loans) :
    Quiet (setLoans x i h loans) x :=
  ⟨rfl, rfl, rfl, fun _ => .refl _, update_kept ⟨rfl, fun _ => rfl, .refl _⟩⟩

theorem setRing_ahead (hm : Ahead m (ringOf w h)) (seg : Nat) :
    Ahead ((setRing w h m).rings seg) (w.rings seg) := by
  simp only [setRing, update_apply]
  split_ifs with hs
  · rw [hs]
    exact hm
  · exact .refl _

theorem write_ahead (m : Ring) (data : Bytes) : Ahead (write m data).2 m := by
  rcases Nat.lt_or_ge (payloadCapacity m) data.length with hbig | hfit
  · rw [write_refused hbig]
    exact .refl _
  · obtain ⟨r, hr⟩ := write_accepted hfit
    rw [hr]
    exact ⟨fillSlot_geometry .., by simp⟩

theorem pruneTopic_segment (w : World) (t h oldest k : Nat) :
    ((pruneTopic w t h oldest).handles k).segment = (w.handles k).segment := by
  simp only [pruneTopic, update_apply]
  split_ifs with hk
  · rw [hk]
    rfl
  · rfl

def stamped (w : World) (t h now seq : Nat) (r : Ring) (gids : Nat → Option Nat) : World where
  rings := update w.rings (w.handles h).segment r
  handles := update w.handles h
    ⟨(w.handles h).segment, update (w.handles h).timestamps seq (some now), gids⟩
  session := { w.session with
    messageTimestamps := update w.session.messageTimestamps t
      (update (w.session.messageTimestamps t) seq (some now)) }

theorem stamped_segment (w : World) (t h now seq : Nat) (r : Ring) (gids : Nat → Option Nat)
    (k : Nat) : ((stamped w t h now seq r gids).handles k).segment = (w.handles k).segment := by
  simp only [stamped, update_apply]
  split_ifs with hk
  · rw [hk]
  · rfl

theorem publishWithGid_cases (w : World) (t now : Nat) (data : Bytes) (gid : Nat) :
    (∃ e, Session.publishWithGid w t now data gid = (.error e, w)) ∨
    ∃ h r gids, w.session.publishers t = some h ∧ write (ringOf w h) data = (.ok (ringOf w h).writeIndex, r) ∧
      (Session.publishWithGid w t now data gid =
          (.ok (ringOf w h).writeIndex, stamped w t h now (ringOf w h).writeIndex r gids) ∨
        Session.publishWithGid w t now data gid = (.ok (ringOf w h).writeIndex, pruneTopic
            (stamped w t h now (ringOf w h).writeIndex r gids) t h
            (oldestAvailableSeq r))) := by
  cases hp : w.session.publishers t with
  | none =>
    simp only [Session.publishWithGid, hp]
    exact .inl ⟨_, rfl⟩
  | some h =>
    rcases Nat.lt_or_ge (payloadCapacity (ringOf w h)) data.length with hbig | hfit
    · simp only [Session.publishWithGid, hp, publishOn, write_refused hbig]
      exact .inl ⟨_, rfl⟩
    obtain ⟨_, hr⟩ := write_accepted hfit
    generalize fillSlot _ _ data = r at hr
    generalize hg : (if gid = 0 then (w.handles h).publisherGids
      else update (w.handles h).publisherGids (ringOf w h).writeIndex (some gid)) = gids
    refine .inr ⟨h, r, gids, rfl, hr, ?_⟩
    have hon : publishOn w h now data gid = (.ok (ringOf w h).writeIndex,
        { stamped w t h now (ringOf w h).writeIndex r gids with session := w.session }) := by
      simp only [publishOn, hr, hg]
      rfl
    have hold : oldestAvailableSeq r = oldestAvailableSeq
        (ringOf (stamped w t h now (ringOf w h).writeIndex r gids) h) := by simp [ringOf, stamped]
    rw [hold]
    simp only [Session.publishWithGid, hp, hon]
    split_ifs
    · exact .inr rfl
    · exact .inl rfl

theorem publishWithGid_quiet (x : Machine) (i t now : Nat) (data : Bytes) (gid : Nat) :
    Quiet (Host.publishWithGid x i t now data gid).2 x := by
  unfold Host.publishWithGid
  rcases publishWithGid_cases (world x i) t now data gid with ⟨e, he⟩ | ⟨h, r, gids, _, hw, he | he⟩
  · rw [he]
    exact put_quiet (fun _ => .refl _) (fun _ => rfl) (.refl _)
  all_goals
    have hr := write_ahead (ringOf (world x i) h) data
    rw [hw] at hr
    rw [he]
    refine put_quiet (setRing_ahead hr) (fun k => ?_) ⟨_, _, rfl⟩
  · exact stamped_segment ..
  · rw [pruneTopic_segment, stamped_segment]
    rfl

theorem setRing_quiet (hm : Ahead m (ringOf (world x i) h)) : Quiet (put x i (setRing (world x i) h m)) x :=
  put_quiet (setRing_ahead hm) (fun _ => rfl) (.refl _)

theorem borrowLoaned_quiet (x : Machine) (i t n : Nat) : Quiet (Host.borrowLoaned x i t n).2 x := by
  unfold Host.borrowLoaned
  split
  · exact .refl x
  rename_i h _
  refine (setLoans_quiet _ i h _).trans (setRing_quiet ?_)
  rcases Loan.borrowBuffer_cases (ringOf (world x i) h) ((x.processes i).loans h) n with he | he
  · rw [he]
    exact .refl _
  · rw [he]
    exact ⟨rfl, Nat.le_succ _⟩

theorem storeLoaned_quiet (x : Machine) (i h ptr : Nat) (data : Bytes) :
    Quiet (Host.storeLoaned x i h ptr data) x := setRing_quiet ⟨rfl, le_rfl⟩

theorem commitLoaned_quiet (x : Machine) (i t ptr size : Nat) :
    Quiet (Host.commitLoaned x i t ptr size).2 x := by
  unfold Host.commitLoaned
  split
  · exact .refl x
  rename_i h _
  refine (setLoans_quiet _ i h _).trans (setRing_quiet ?_)
  rcases Loan.commitBuffer_cases (ringOf (world x i) h) ((x.processes i).loans h) ptr size with
    he | ⟨s, _, _, he⟩
  · rw [he]
    exact .refl _
  · rw [he]
    exact ⟨rfl, le_rfl⟩

theorem arrive_quiet (x : Machine) (i t now : Nat) (frame : Bytes) :
    Quiet (Host.arrive x i t now frame).2 x := by
  unfold Host.arrive
  simp only
  split
  · exact .refl x
  · exact put_quiet (fun _ => .refl _) (fun _ => rfl) ⟨_, _, rfl⟩

theorem kept_quiet (h : Kept w (world x i)) : Quiet (put x i w) x := by
  obtain ⟨ts, hts⟩ := h.tables
  exact put_quiet (fun seg => ⟨(h.rings seg).geometry, (h.rings seg).writeIndex.ge⟩) h.segments ⟨_, ts, hts⟩

theorem receive_cases (codec : Codec) (w : World) (now t seq : Nat) (out : Bytes) :
    (∃ p r out' q, w.session.remoteRecvQueues t = some p ∧
      receiveQueued codec w.session now t p seq out = some (r, out', q) ∧
      (receive codec w now t seq out).2.2 = setQueue w t q) ∨
    Received w t (receive codec w now t seq out).2.2 := by
  unfold receive
  simp only
  split
  · rename_i r out' q hq
    obtain ⟨p, hp, hq⟩ := Option.bind_eq_some_iff.mp hq
    exact .inl ⟨p, r, out', q, hp, hq, rfl⟩
  right
  split
  · exact .same
  rename_i h hh
  obtain ⟨r, hr⟩ := read_index (ringOf w h) seq out
  unfold receiveSlot
  split_ifs
  · exact .same
  · exact .same
  · simp only
    split <;> rename_i he <;> rw [he] at hr <;> cases hr <;> exact .read r hh

theorem receive_quiet (codec : Codec) (x : Machine) (i now t seq : Nat) (out : Bytes) :
    Quiet (put x i (receive codec (world x i) now t seq out).2.2) x := by
  rcases receive_cases codec (world x i) now t seq out with ⟨p, r, out', q, _, _, he⟩ | hr
  · rw [he]
    exact put_quiet (fun _ => .refl _) (fun _ => rfl) ⟨_, _, rfl⟩
  · exact kept_quiet hr.kept

theorem receiveNext_quiet (codec : Codec) (x : Machine) (i now t requested : Nat) (out : Bytes) :
    Quiet (put x i (Receive.receiveNext codec (world x i) now t requested out).2.2) x :=
  kept_quiet (receiveNext_kept codec _ now t requested out)

end RmwAxon.HostFrame
