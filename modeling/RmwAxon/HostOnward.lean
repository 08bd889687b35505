import RmwAxon.HostChange

namespace RmwAxon.HostOnward

open Compress Qos Session Segment Host HostFrame HostCreate HostRun HostInv HostChange Function
open RingBuffer (Bytes Ring oldestAvailableSeq slotCount)

structure Onward (x' x : Machine) : Prop where
  created : x.shm.created ≤ x'.shm.created
  channel : ∀ g, g < x.shm.created → x'.shm.channel g = x.shm.channel g
  rings : ∀ g, g < x.shm.created → Ahead (x'.shm.rings g) (x.shm.rings g)
  opened : ∀ i, (x.processes i).opened ≤ (x'.processes i).opened
  segments : ∀ i k, k < (x.processes i).opened →
    ((x'.processes i).handles k).segment = ((x.processes i).handles k).segment

theorem Onward.refl (x : Machine) : Onward x x :=
  ⟨le_rfl, fun _ _ => rfl, fun _ _ => .refl _, fun _ => le_rfl, fun _ _ _ => rfl⟩

variable {os : Os} {t depth slotSize i h s : Nat} {x x₁ : Machine} {w : World} {st st' : State}

theorem createOrOpen_onward {s shm : Shm} {r : Except String Nat}
    (ho : createOrOpen os s t depth slotSize = (r, shm)) :
    s.created ≤ shm.created ∧ ∀ g, g < s.created → shm.channel g = s.channel g := by
  cases ho ▸ createOrOpen_cases os s t depth slotSize with
  | failed | removed | found => exact ⟨le_rfl, fun _ _ => rfl⟩
  | made => exact ⟨Nat.le_succ _, fun g hg => update_of_ne (Nat.ne_of_lt hg) _ _⟩

theorem put_onward (h : Onward x₁ x) (hr : ∀ seg, Ahead (w.rings seg) (x₁.shm.rings seg))
    (hh : w.handles = (x₁.processes i).handles) :
    Onward (put x₁ i w) x := by
  refine ⟨h.created, h.channel, fun g hg => (hr g).trans (h.rings g hg), fun j => ?_, fun j k hk => ?_⟩
  · simp only [put, update_apply]
    split_ifs with hj
    · rw [hj]
      exact h.opened i
    · exact h.opened j
  · simp only [put, update_apply]
    split_ifs with hj
    · subst hj
      simp only [hh]
      exact h.segments j k hk
    · exact h.segments j k hk

theorem attach_onward {existing : Option Nat} (ha : Attach os x i existing t depth slotSize h x₁) :
    Onward x₁ x := by
  cases ha with
  | reuse => exact .refl x
  | fresh hr ho =>
    obtain ⟨hc, hch⟩ := createOrOpen_onward ho
    refine ⟨hc, hch, fun g hg => ?_, fun j => ?_, fun j k hk => ?_⟩
    · rw [attached, createOrOpen_rings ho hg]
      exact .refl _
    · simp only [attached, update_apply]
      split_ifs with hj
      · rw [hj]
        exact Nat.le_succ _
      · exact le_rfl
    · simp only [attached, update_apply]
      split_ifs with hj
      · subst hj
        simp only [update_of_ne (Nat.ne_of_lt hk)]
      · rfl

theorem change_onward {x' : Machine} {r : Option Request} (hc : Change x r x') : Onward x' x := by
  cases hc with
  | quiet hq =>
    exact ⟨hq.created.ge, fun g _ => congrFun hq.channel g, fun g _ => hq.rings g,
      fun i => (hq.processes i).opened.ge, fun i k _ => (hq.processes i).segments k⟩
  | unlinked t => exact ⟨le_rfl, fun _ _ => rfl, fun _ _ => .refl _, fun _ => le_rfl, fun _ _ _ => rfl⟩
  | shrunk hs => exact put_onward (.refl x) (fun _ => .refl _) rfl
  | attached _ ha _ hr hh _ => exact put_onward (attach_onward ha) hr hh

theorem oldest_mono {m' m : Ring} (h : Ahead m' m) : oldestAvailableSeq m ≤ oldestAvailableSeq m' := by
  simp only [oldestAvailableSeq, RingBuffer.currentSeq, slotCount, h.geometry]
  exact Nat.sub_le_sub_right h.writeIndex _

def Pruned (w' w : World) (t : Nat) : Prop :=
  w'.session.messageTimestamps = w.session.messageTimestamps ∨
  ∃ h, w.session.subscriptions t = some h ∧
    w'.session.messageTimestamps = update w.session.messageTimestamps t
      (pruneBelow (w.session.messageTimestamps t) (oldestAvailableSeq (ringOf w h)))

theorem received_pruned {w' : World} (hr : SessionFrame.Received w t w') : Pruned w' w t := by
  cases hr with
  | same => exact .inl rfl
  | read r hh => exact .inr ⟨_, hh, rfl⟩

theorem receive_pruned (codec : Codec) (w : World) (now t seq : Nat) (out : Bytes) :
    Pruned (ReceiveBySeq.receive codec w now t seq out).2.2 w t := by
  rcases receive_cases codec w now t seq out with ⟨p, r, out', q, _, _, he⟩ | hr
  · rw [he]
    exact .inl rfl
  · exact received_pruned hr

theorem joined_stamps {s s' : Tables} {qos : QosProfile} {b : Bool} (hj : Joined s qos h b t s') :
    s'.messageTimestamps = s.messageTimestamps := by
  cases hj <;> rfl

theorem created_stamps {r : Request} {b created : Bool} {qos : QosProfile} {x' : Machine}
    (hc : Created st r b qos created x') (hm : st'.machine = x') (j : Nat) :
    (tables st' j).messageTimestamps = (tables st j).messageTimestamps := by
  rw [tables, hm]
  cases hc with
  | failed hf => rcases hf with rfl | rfl <;> rfl
  | attached ha _ _ hw =>
    rw [attach_tables_put ha]
    split_ifs with hj
    · rw [hj]
      exact joined_stamps hw
    · rfl

theorem applyDestroy_stamps (st : State) (e : Nat) (p : Endpoint) (j : Nat) :
    (tables (applyDestroy st e p) j).messageTimestamps = (tables st j).messageTimestamps := by
  rw [tables, applyDestroy_machine, put_tables]
  split_ifs with hj
  · rw [hj]
    unfold Session.destroyPublisher
    dsimp only
    split
    · rfl
    · split <;> rfl
  · rw [hj]
    unfold Session.destroySubscription
    dsimp only
    split
    · rfl
    · split <;> rfl
  · rfl

theorem stamped_new (w : World) (t h now n : Nat) (r : Ring) (gids : Nat → Option Nat) :
    (stamped w t h now n r gids).session.messageTimestamps t n = some now := by
  simp [stamped]

theorem stamped_old {now n : Nat} {r : Ring} {gids : Nat → Option Nat} {u : Nat}
    (hs : u = t → s ≠ n) : (stamped w t h now n r gids).session.messageTimestamps u s =
      w.session.messageTimestamps u s := by
  simp only [stamped, update_apply]
  split_ifs with hu
  · rw [update_of_ne (hs hu), hu]
  · rfl

theorem pruneTopic_stamp {oldest u : Nat} (hs : u = t → oldest ≤ s) :
    (pruneTopic w t h oldest).session.messageTimestamps u s = w.session.messageTimestamps u s := by
  simp only [pruneTopic, update_apply]
  split_ifs with hu
  · rw [pruneBelow, if_pos (hs hu), hu]
  · rfl

theorem recordFrame_cases {seq : Option Nat} {f₀ : Frame} {g : Nat} {f : Frame}
    (hf : recordFrame st i t seq f₀ g s = some f) :
    st.frames g s = some f ∨ (f = f₀ ∧ ∃ h, (tables st i).publishers t = some h ∧
      g = segment st i h ∧ seq = some s) := by
  unfold recordFrame at hf
  cases hp : (tables st i).publishers t with
  | none =>
    rw [hp] at hf
    exact .inl hf
  | some h =>
    rw [hp] at hf
    cases seq with
    | none => exact .inl hf
    | some n =>
      simp only [update_apply] at hf
      split_ifs at hf with hg
      · rw [update_apply] at hf
        split_ifs at hf with hs
        · exact .inr ⟨(Option.some.inj hf).symm, h, rfl, hg, hs ▸ rfl⟩
        · exact .inl (hg ▸ hf)
      · exact .inl hf

theorem setLoans_tables (x : Machine) (i h : Nat) (loans : LocalPubSub.Loans) (j : Nat) :
    ((setLoans x i h loans).processes j).tables = (x.processes j).tables := by
  simp only [setLoans, update_apply]
  split_ifs with hj
  · rw [hj]
  · rfl

theorem setRing_tables (x : Machine) (i h : Nat) (m : Ring) (j : Nat) :
    ((put x i (setRing (world x i) h m)).processes j).tables = (x.processes j).tables := by
  rw [put_tables]
  split_ifs with hj
  · rw [hj]
    rfl
  · rfl

theorem borrowLoaned_tables (x : Machine) (i t n j : Nat) :
    ((Host.borrowLoaned x i t n).2.processes j).tables = (x.processes j).tables := by
  unfold Host.borrowLoaned
  split
  · rfl
  · rw [setLoans_tables, setRing_tables]

theorem commitLoaned_tables (x : Machine) (i t ptr size j : Nat) :
    ((Host.commitLoaned x i t ptr size).2.processes j).tables = (x.processes j).tables := by
  unfold Host.commitLoaned
  split
  · rfl
  · rw [setLoans_tables, setRing_tables]

theorem arrive_stamps (x : Machine) (i t now : Nat) (frame : Bytes) (j : Nat) :
    ((Host.arrive x i t now frame).2.processes j).tables.messageTimestamps =
      (x.processes j).tables.messageTimestamps := by
  unfold Host.arrive
  simp only
  split
  · rfl
  rw [put_tables]
  split_ifs with hj
  · rw [hj]
  · rfl

end RmwAxon.HostOnward
