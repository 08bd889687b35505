import RmwAxon.EventMonitor
import RmwAxon.Receive
import RmwAxon.RingHistory
import RmwAxon.Transition

namespace RmwAxon.DeadlineReceive

open Compress EventMonitor Qos Receive Session Transition List Option
open RingBuffer (Bytes oldestAvailableSeq)

structure State where
  world : World
  monitor : Monitor
  now : Nat

def start (w : World) : State := ⟨w, newMonitor, 0⟩

def recordedGid (w : World) (h seq : Nat) : Nat := ((w.handles h).publisherGids seq).getD 0

def remotePart (codec : Codec) (s : State) (t requested : Nat) (out : Bytes) :
    Option (Except ReceiveError (Nat × Nat) × Bytes) :=
  (s.world.session.remoteRecvQueues t).bind fun q =>
    receiveRemote codec s.world.session s.now t q requested out

/-- A receive with its update of the deadline monitors, which a remote sample does not reach. -/
def receive (codec : Codec) (s : State) (t requested : Nat) (out : Bytes) :
    Except ReceiveError (Nat × Nat) × Bytes × State :=
  match remotePart codec s t requested out with
  | some (r, out) => (r, out, s)
  | none =>
    match s.world.session.subscriptions t with
    | none => (.error .subscriptionNotFound, out, s)
    | some h =>
      match receiveLocal s.world s.now t h requested out with
      | (.error e, out, w) => (.error e, out, { s with world := w })
      | (.ok (size, actual), out, w) =>
        (.ok (size, actual), out, { s with
          world := w
          monitor := updateDeadlinePublishTime s.monitor s.now t (recordedGid w h actual) })

/-- A publish with its updates; liveliness is asserted unless a manual kind is known. -/
def publish (s : State) (t : Nat) (data : Bytes) (gid : Nat) : Except SessionError Nat × State :=
  match publishWithGid s.world t s.now data gid with
  | (.error e, w) => (.error e, { s with world := w })
  | (.ok seq, w) =>
    let monitor := updateDeadlinePublishTime s.monitor s.now t gid
    let automatic := (w.session.topicQosCache w.session.nodeId t).all fun rq => rq.liveliness = .automatic
    (.ok seq, { s with
      world := w
      monitor := if automatic then assertLiveliness monitor s.now w.session.nodeId else monitor })

/-- A new endpoint with a deadline gets an event and a monitor; a subscription has no publisher. -/
def watch (s : State) (t gid : Nat) (deadline : Option Duration) : State :=
  match deadline with
  | none => s
  | some d =>
    if d = 0 then s
    else
      let r := createEvent s.monitor s.now .deadlineMissed
      { s with monitor := registerDeadlineMonitor r.2 s.now r.1 t gid d }

/-- `outside` is whatever else happens to the session and to the shared segments. -/
inductive Action
  | tick (n : Nat)
  | watch (t gid : Nat) (deadline : Option Duration)
  | publish (t : Nat) (data : Bytes) (gid : Nat)
  | receive (t requested : Nat) (out : Bytes)
  | check
  | outside (w : World)

def step (codec : Codec) (s : State) : Action → Option State
  | .tick n => some { s with now := s.now + n }
  | .watch t gid deadline => some (watch s t gid deadline)
  | .publish t data gid => some (publish s t data gid).2
  | .receive t requested out => some (receive codec s t requested out).2.2
  | .check => some { s with monitor := checkDeadlines s.monitor s.now }
  | .outside w => some { s with world := w }

variable {codec : Codec} {s u : State}

def refreshed (now : Nat) (p : DeadlineMonitor → Bool) (l : List DeadlineMonitor) : List DeadlineMonitor :=
  l.map fun d => if p d then { d with last := now } else d

inductive Watches (s u : State) : Prop
  | refresh (p : DeadlineMonitor → Bool) : u.monitor.nextHandle = s.monitor.nextHandle →
      u.monitor.deadlines = refreshed s.now p s.monitor.deadlines → Watches s u
  | add (d : DeadlineMonitor) (p : DeadlineMonitor → Bool) : u.monitor.nextHandle = s.monitor.nextHandle + 1 →
      d.handle = s.monitor.nextHandle → d.last = s.now →
        u.monitor.deadlines = s.monitor.deadlines.filter p ++ [d] → Watches s u

theorem watches_same (hn : u.monitor.nextHandle = s.monitor.nextHandle)
    (hd : u.monitor.deadlines = s.monitor.deadlines) : Watches s u :=
  .refresh (fun _ => false) hn (by simp [refreshed, hd])

theorem updateDeadlinePublishTime_deadlines (m : Monitor) (now t gid : Nat) :
    (updateDeadlinePublishTime m now t gid).deadlines =
      refreshed now (fun d => decide (d.topic = t ∧ (gid = 0 ∨ d.gid = gid))) m.deadlines := by
  unfold updateDeadlinePublishTime refreshed
  apply map_congr_left
  intro d _
  by_cases hg : gid = 0 <;> simp [hg]

variable {t now requested size seq : Nat} {x : DeadlineMonitor} {out out' : Bytes}
variable {gid τ : Nat}

theorem watches_update (hn : u.monitor.nextHandle = s.monitor.nextHandle)
    (hd : u.monitor.deadlines = (updateDeadlinePublishTime s.monitor s.now t gid).deadlines) :
    Watches s u :=
  .refresh _ hn (hd.trans (updateDeadlinePublishTime_deadlines ..))

theorem checkDeadlines_keeps (m : Monitor) (now : Nat) :
    (checkDeadlines m now).nextHandle = m.nextHandle ∧ (checkDeadlines m now).deadlines = m.deadlines := by
  unfold checkDeadlines
  generalize expiredHandles m now = hs
  induction hs generalizing m with
  | nil => exact ⟨rfl, rfl⟩
  | cons h hs ih => exact ih (triggerEvent now m h)

theorem receive_watches (t requested : Nat) (out : Bytes) :
    Watches s (receive codec s t requested out).2.2 := by
  unfold receive
  cases remotePart codec s t requested out with
  | some r => exact watches_same rfl rfl
  | none =>
    cases s.world.session.subscriptions t with
    | none => exact watches_same rfl rfl
    | some h =>
      simp only
      cases receiveLocal s.world s.now t h requested out with
      | mk r rest =>
        cases r with
        | error e => exact watches_same rfl rfl
        | ok v => exact watches_update rfl rfl

theorem publish_watches (t : Nat) (data : Bytes) (gid : Nat) : Watches s (publish s t data gid).2 := by
  unfold publish
  cases publishWithGid s.world t s.now data gid with
  | mk r w =>
    cases r with
    | error e => exact watches_same rfl rfl
    | ok seq =>
      simp only
      split <;> exact watches_update rfl rfl

theorem watch_watches (t gid : Nat) (deadline : Option Duration) : Watches s (watch s t gid deadline) := by
  cases deadline with
  | none => exact watches_same rfl rfl
  | some d =>
    simp only [watch]
    split
    · exact watches_same rfl rfl
    · exact .add _ _ rfl rfl rfl rfl

theorem step_watches {a : Action} (hs : step codec s a = some u) : s.now ≤ u.now ∧ Watches s u := by
  cases a with
  | tick n =>
    obtain rfl := some.inj hs
    exact ⟨Nat.le_add_right _ n, watches_same rfl rfl⟩
  | watch t gid deadline =>
    obtain rfl := some.inj hs
    refine ⟨?_, watch_watches ..⟩
    cases deadline with
    | none => exact Nat.le_refl _
    | some d =>
      simp only [watch]
      split <;> exact Nat.le_refl _
  | publish t data gid =>
    obtain rfl := some.inj hs
    refine ⟨?_, publish_watches ..⟩
    unfold publish
    split <;> exact Nat.le_refl _
  | receive t requested out =>
    obtain rfl := some.inj hs
    refine ⟨?_, receive_watches ..⟩
    unfold receive
    split
    · exact Nat.le_refl _
    · split
      · exact Nat.le_refl _
      · split <;> exact Nat.le_refl _
  | check =>
    obtain rfl := some.inj hs
    exact ⟨Nat.le_refl _, watches_same (checkDeadlines_keeps ..).1 (checkDeadlines_keeps ..).2⟩
  | outside w =>
    obtain rfl := some.inj hs
    exact ⟨Nat.le_refl _, watches_same rfl rfl⟩

structure Registered (s : State) : Prop where
  used : ∀ y ∈ s.monitor.deadlines, y.handle < s.monitor.nextHandle
  past : ∀ y ∈ s.monitor.deadlines, y.last ≤ s.now
  unique : ∀ y ∈ s.monitor.deadlines, ∀ z ∈ s.monitor.deadlines, y.handle = z.handle → y = z

theorem mem_refreshed {p : DeadlineMonitor → Bool} {l : List DeadlineMonitor} {y : DeadlineMonitor}
    (h : y ∈ refreshed now p l) : ∃ x ∈ l, y = x ∨ y = { x with last := now } := by
  obtain ⟨x, hx, rfl⟩ := mem_map.mp h
  refine ⟨x, hx, ?_⟩
  split
  · exact .inr rfl
  · exact .inl rfl

theorem Registered.step (h : Registered s) (hnow : s.now ≤ u.now) (hw : Watches s u) : Registered u := by
  cases hw with
  | refresh p hn hd =>
    constructor
    · intro y hy
      rw [hd] at hy
      rw [hn]
      obtain ⟨x, hx, rfl | rfl⟩ := mem_refreshed hy
      · exact h.used y hx
      · exact h.used x hx
    · intro y hy
      rw [hd] at hy
      obtain ⟨x, hx, rfl | rfl⟩ := mem_refreshed hy
      · exact Nat.le_trans (h.past y hx) hnow
      · exact hnow
    · intro y hy z hz he
      rw [hd] at hy hz
      obtain ⟨x, hx, rfl⟩ := mem_map.mp hy
      obtain ⟨x', hx', rfl⟩ := mem_map.mp hz
      have hxx : x = x' := by
        apply h.unique x hx x' hx'
        split at he <;> split at he <;> exact he
      rw [hxx]
  | add d p hn hh hl hd =>
    have hmem : ∀ y ∈ u.monitor.deadlines, y ∈ s.monitor.deadlines ∨ y = d := by
      intro y hy
      rw [hd, mem_append, mem_singleton] at hy
      exact hy.imp (fun hm => mem_of_mem_filter hm) id
    constructor
    · intro y hy
      rw [hn]
      rcases hmem y hy with hy | rfl
      · exact Nat.lt_succ_of_lt (h.used y hy)
      · omega
    · intro y hy
      rcases hmem y hy with hy | rfl
      · exact Nat.le_trans (h.past y hy) hnow
      · omega
    · intro y hy z hz he
      rcases hmem y hy with hy | rfl
      · rcases hmem z hz with hz | rfl
        · exact h.unique y hy z hz he
        · have := h.used y hy
          omega
      · rcases hmem z hz with hz | rfl
        · have := h.used z hz
          omega
        · rfl

theorem registered_of_reach {w : World} (h : Reach (step codec) anyStep (start w) s) : Registered s := by
  apply h.invariant
  · exact ⟨by simp [start, newMonitor], by simp [start, newMonitor], by simp [start, newMonitor]⟩
  · intro s a t hi _ hs
    obtain ⟨hnow, hw⟩ := step_watches hs
    exact hi.step hnow hw

structure Held (x : DeadlineMonitor) (τ : Nat) (s : State) : Prop where
  used : x.handle < s.monitor.nextHandle
  reached : τ ≤ s.now
  started : ∀ y ∈ s.monitor.deadlines, y.handle = x.handle → y.deadline = x.deadline ∧ τ ≤ y.last

theorem Held.step (h : Held x τ s) (hnow : s.now ≤ u.now) (hw : Watches s u) : Held x τ u := by
  have htime := h.reached
  cases hw with
  | refresh p hn hd =>
    refine ⟨by rw [hn]; exact h.used, by omega, fun y hy he => ?_⟩
    rw [hd] at hy
    obtain ⟨z, hz, rfl | rfl⟩ := mem_refreshed hy
    · exact h.started y hz he
    · exact ⟨(h.started z hz he).1, htime⟩
  | add d p hn hh hl hd =>
    have hused := h.used
    refine ⟨by omega, by omega, fun y hy he => ?_⟩
    rw [hd, mem_append, mem_singleton] at hy
    rcases hy with hy | rfl
    · exact h.started y (mem_of_mem_filter hy) he
    · omega

def Anonymous (codec : Codec) (s : State) (t requested : Nat) (out : Bytes) (seq : Nat) : Prop :=
  remotePart codec s t requested out = none ∧ ∀ h ∈ s.world.session.subscriptions t,
    (pruneBelow (s.world.handles h).publisherGids (oldestAvailableSeq (ringOf s.world h)) seq).getD 0 = 0

instance (codec : Codec) (s : State) (t requested : Nat) (out : Bytes) (seq : Nat) :
    Decidable (Anonymous codec s t requested out seq) := inferInstanceAs (Decidable (_ ∧ _))

theorem receiveLocal_gids {w w' : World} {h : Nat}
    (hr : receiveLocal w now t h requested out = (.ok (size, seq), out', w')) :
    (w'.handles h).publisherGids =
      pruneBelow (w.handles h).publisherGids (oldestAvailableSeq (ringOf w h)) := by
  unfold receiveLocal at hr
  simp only at hr
  split_ifs at hr
  · simp at hr
  · simp at hr
  split at hr
  · simp at hr
  split_ifs at hr
  · simp at hr
  · obtain ⟨-, -, rfl⟩ : _ ∧ _ ∧ _ = w' := by simpa using hr
    simp [pruneTopic, setRing, pruneHandle]

theorem receive_ok_cases (hr : receive codec s t requested out = (.ok (size, seq), out', u)) :
    (remotePart codec s t requested out ≠ none ∧ u = s) ∨
      (remotePart codec s t requested out = none ∧ ∃ h w, s.world.session.subscriptions t = some h ∧
        u = { s with
          world := w
          monitor := updateDeadlinePublishTime s.monitor s.now t
            ((pruneBelow (s.world.handles h).publisherGids
              (oldestAvailableSeq (ringOf s.world h)) seq).getD 0) }) := by
  unfold receive at hr
  cases hrem : remotePart codec s t requested out with
  | some r =>
    simp only [hrem, Prod.mk.injEq] at hr
    exact .inl ⟨by simp, hr.2.2.symm⟩
  | none =>
    refine .inr ⟨rfl, ?_⟩
    simp only [hrem] at hr
    split at hr
    next => simp at hr
    next h hsub =>
      split at hr
      next => simp at hr
      next n actual o w hl =>
        obtain ⟨⟨rfl, rfl⟩, -, rfl⟩ : (n = size ∧ actual = seq) ∧ _ ∧ _ = u := by simpa using hr
        exact ⟨h, w, hsub, by rw [recordedGid, receiveLocal_gids hl]⟩

theorem mem_updated {m : Monitor} (hx : x ∈ m.deadlines) :
    (if x.topic = t ∧ (gid = 0 ∨ x.gid = gid) then { x with last := now } else x) ∈
      (updateDeadlinePublishTime m now t gid).deadlines := by
  rw [updateDeadlinePublishTime_deadlines]
  refine mem_map.mpr ⟨x, hx, ?_⟩
  simp

theorem monitor_after (hx : x ∈ s.monitor.deadlines) (hgid : x.gid = 0)
    (hrec : receive codec s x.topic requested out = (.ok (size, seq), out', u)) :
    ∃ y ∈ u.monitor.deadlines, y.handle = x.handle ∧ y.deadline = x.deadline ∧
      (y.last = s.now ↔ Anonymous codec s x.topic requested out seq ∨ x.last = s.now) := by
  rcases receive_ok_cases hrec with ⟨hrem, rfl⟩ | ⟨hrem, h, w, hsub, rfl⟩
  · exact ⟨x, hx, rfl, rfl, by simp [Anonymous, hrem]⟩
  refine ⟨_, mem_updated hx, ?_⟩
  by_cases hanon : (pruneBelow (s.world.handles h).publisherGids
      (oldestAvailableSeq (ringOf s.world h)) seq).getD 0 = 0
  · simp [Anonymous, hrem, hsub, hanon]
  · simp [Anonymous, hrem, hsub, hanon, hgid, Ne.symm hanon]

/-- After a receive, the subscription's monitor stays quiet for its deadline exactly if the sample
is anonymous, or if the monitor happens to have been started at that very time. -/
theorem deadline_kept_iff {w : World} (hr : Reach (step codec) anyStep (start w) s) {x : DeadlineMonitor}
    (hx : x ∈ s.monitor.deadlines) (hgid : x.gid = 0) {requested size seq : Nat} {out out' : Bytes}
    (hrec : receive codec s x.topic requested out = (.ok (size, seq), out', u)) :
    (∀ v, Reach (step codec) anyStep u v → v.now ≤ s.now + x.deadline →
        x.handle ∉ expiredHandles v.monitor v.now) ↔
      Anonymous codec s x.topic requested out seq ∨ x.last = s.now := by
  have hreg := registered_of_reach hr
  have hs : step codec s (.receive x.topic requested out) = some u := by simp [step, hrec]
  obtain ⟨hnow, hw⟩ := step_watches hs
  have hureg := hreg.step hnow hw
  have hsame : u.now = s.now ∧ u.monitor.nextHandle = s.monitor.nextHandle := by
    rcases receive_ok_cases hrec with ⟨-, rfl⟩ | ⟨-, h, w, -, rfl⟩ <;> exact ⟨rfl, rfl⟩
  obtain ⟨y, hy, hh, hd, hlast⟩ := monitor_after hx hgid hrec
  rw [← hlast]
  constructor
  · intro hquiet
    -- otherwise the monitor is due as soon as its deadline has passed since the receive
    have hpast := hureg.past y hy
    have hdue := hquiet { u with now := u.now + x.deadline } (.tail (.tick x.deadline) .refl trivial rfl)
      (by simp [hsame.1])
    by_contra hlate
    refine hdue (mem_map.mpr ⟨y, mem_filter.mpr ⟨hy, decide_eq_true ?_⟩, hh⟩)
    simp only [hd, hsame.1] at hpast ⊢
    omega
  · intro hl v hv hle hmem
    obtain ⟨z, hz, hzh⟩ := mem_map.mp hmem
    obtain ⟨hz, hexp⟩ := mem_filter.mp hz
    have hexp := of_decide_eq_true hexp
    have hheld : Held x s.now u := by
      refine ⟨hsame.2 ▸ hreg.used x hx, Nat.le_of_eq hsame.1.symm, fun z hz he => ?_⟩
      obtain rfl := hureg.unique y hy z hz (hh.trans he.symm)
      exact ⟨hd, Nat.le_of_eq hl.symm⟩
    have hheld' := hv.invariant hheld fun s a t hi _ hs =>
      hi.step (step_watches hs).1 (step_watches hs).2
    obtain ⟨hzd, hzl⟩ := hheld'.started z hz hzh
    omega

def oneRing : World where
  rings _ := RingBuffer.create RingHistory.twoSlots
  handles _ := ⟨0, fun _ => none, fun _ => none⟩
  session := { newTables 1 false with publishers := fun _ => some 0, subscriptions := fun _ => some 0 }

def tenOnFive (last : Nat) : DeadlineMonitor := ⟨1, 5, 0, 10, last⟩

/-- A sample without a publisher keeps the monitor quiet. -/
theorem anonymous_kept : ∃ s u, Reach (step plain) anyStep (start oneRing) s ∧ s.now = 9 ∧
    tenOnFive 4 ∈ s.monitor.deadlines ∧ (receive plain s 5 0 [0]).2.2 = u ∧
      ∀ v, Reach (step plain) anyStep u v → v.now ≤ 9 + 10 → 1 ∉ expiredHandles v.monitor v.now := by
  obtain ⟨s, hs, hnow, hmem, hok, hanon⟩ : ∃ s, run (step plain)
      [.watch 5 0 (some 10), .tick 4, .publish 5 [7] 0, .tick 5] (start oneRing) = some s ∧ s.now = 9 ∧
        tenOnFive 4 ∈ s.monitor.deadlines ∧ (receive plain s 5 0 [0]).1 = .ok (1, 0) ∧
          Anonymous plain s 5 0 [0] 0 := exists_of_any (by decide +kernel)
  have hr : Reach (step plain) anyStep (start oneRing) s := reach_of_run hs fun _ _ _ => trivial
  refine ⟨s, _, hr, hnow, hmem, rfl, ?_⟩
  have hrec : receive plain s 5 0 [0] = (.ok (1, 0), _, _) := Prod.ext hok rfl
  have hquiet := (deadline_kept_iff hr hmem rfl hrec).mpr (.inl hanon)
  rwa [hnow] at hquiet

/-- The sample of a publisher that is known is received at time 9, and at time 11 the deadline of
10 counts as missed. -/
theorem known_publisher_missed : ∃ s v, Reach (step plain) anyStep (start oneRing) s ∧ s.now = 9 ∧
    tenOnFive 0 ∈ s.monitor.deadlines ∧ (receive plain s 5 0 [0]).1 = .ok (1, 0) ∧
      Reach (step plain) anyStep (receive plain s 5 0 [0]).2.2 v ∧ v.now = 11 ∧
        1 ∈ expiredHandles v.monitor v.now := by
  obtain ⟨s, hs, hnow, hmem, hok, hlate⟩ : ∃ s, run (step plain)
      [.watch 5 0 (some 10), .tick 9, .publish 5 [7] 3] (start oneRing) = some s ∧ s.now = 9 ∧
        tenOnFive 0 ∈ s.monitor.deadlines ∧ (receive plain s 5 0 [0]).1 = .ok (1, 0) ∧
          ((receive plain s 5 0 [0]).2.2.now + 2 = 11 ∧
            1 ∈ expiredHandles (receive plain s 5 0 [0]).2.2.monitor 11) := exists_of_any (by decide +kernel)
  refine ⟨s, _, reach_of_run hs fun _ _ _ => trivial, hnow, hmem, hok,
    .tail (.tick 2) .refl trivial rfl, hlate.1, ?_⟩
  simpa only [hlate.1] using hlate.2

end RmwAxon.DeadlineReceive
