import RmwAxon.DeadlineReceive

namespace RmwAxon.DeadlineCount

open DeadlineReceive EventMonitor List

inductive Call
  | update (topic gid : Nat)
  | check
  deriving DecidableEq

def apply (m : Monitor) (now : Nat) : Call → Monitor
  | .update topic gid => updateDeadlinePublishTime m now topic gid
  | .check => checkDeadlines m now

def Reaches (d : DeadlineMonitor) : Call → Prop
  | .update topic gid => d.topic = topic ∧ (gid = 0 ∨ d.gid = gid)
  | .check => False

def runCalls (m : Monitor) (calls : List (Nat × Call)) : Monitor := calls.foldl (fun m c => apply m c.1 c.2) m

def late (d : DeadlineMonitor) (c : Nat × Call) : Bool := c.2 = .check ∧ d.deadline < c.1 - d.last

variable {m : Monitor} {d : DeadlineMonitor} {c : Call}

/-- A call that does not reach the entry leaves it as it is. -/
theorem apply_entry (h : m.deadlines.filter (·.handle = d.handle) = [d]) (hc : ¬ Reaches d c) (now : Nat) :
    (apply m now c).deadlines.filter (·.handle = d.handle) = [d] := by
  cases c with
  | check =>
    rw [apply, (checkDeadlines_keeps m now).2]
    exact h
  | update topic gid =>
    rw [apply, updateDeadlinePublishTime, filter_map]
    have hkey : ((fun x => decide (x.handle = d.handle)) ∘ fun x : DeadlineMonitor =>
        if gid = 0 then if x.topic = topic then { x with last := now } else x
        else if x.topic = topic ∧ x.gid = gid then { x with last := now } else x) =
          fun x => decide (x.handle = d.handle) := by
      funext x
      simp only [Function.comp]
      split_ifs <;> rfl
    obtain ⟨htopic, hgid⟩ : (gid = 0 → d.topic ≠ topic) ∧ ¬ (d.topic = topic ∧ d.gid = gid) :=
      ⟨fun h0 ht => hc ⟨ht, .inl h0⟩, fun hr => hc ⟨hr.1, .inr hr.2⟩⟩
    rw [hkey, h, map_singleton, if_neg hgid]
    split_ifs with h0 ht
    · exact absurd ht (htopic h0)
    · rfl
    · rfl

/-- The event of the entry is triggered by a check that is late, and by no other call. -/
theorem apply_event (h : m.deadlines.filter (·.handle = d.handle) = [d]) (now : Nat) {st : EventState}
    (hev : m.events d.handle = some st) {n : Int} (hn : st.count = wrap64 n) :
    ∃ st', (apply m now c).events d.handle = some st' ∧
      st'.count = wrap64 (n + if late d (now, c) then 1 else 0) := by
  cases c with
  | update topic gid => exact ⟨st, hev, by simp [late, hn]⟩
  | check =>
    have hcount : (expiredHandles m now).count d.handle = if late d (now, .check) then 1 else 0 := by
      have hswap : (expiredHandles m now).count d.handle =
          (m.deadlines.filter (·.handle = d.handle)).countP (·.expired now) := by
        simp only [expiredHandles, count, countP_map, countP_filter]
        exact countP_congr fun x _ => by simp [and_comm]
      rw [hswap, h]
      by_cases hl : d.deadline < now - d.last <;> simp [late, DeadlineMonitor.expired, hl]
    refine ⟨_, (foldl_triggerEvent_events now (expiredHandles m now) m).trans (by rw [hev]; rfl), ?_⟩
    rw [bump_iterate_count now _ hn, hcount]
    split_ifs <;> rfl

theorem runCalls_event (h : m.deadlines.filter (·.handle = d.handle) = [d]) {calls : List (Nat × Call)}
    (hcalls : ∀ c ∈ calls, ¬ Reaches d c.2) {st : EventState} (hev : m.events d.handle = some st) {n : Int}
    (hn : st.count = wrap64 n) : ∃ st', (runCalls m calls).events d.handle = some st' ∧
      st'.count = wrap64 (n + calls.countP (late d)) := by
  induction calls generalizing m n st with
  | nil => exact ⟨st, hev, by simp [hn]⟩
  | cons c calls ih =>
    obtain ⟨hc, hcalls⟩ := forall_mem_cons.mp hcalls
    obtain ⟨st', hev', hn'⟩ := apply_event h c.1 hev hn (c := c.2)
    obtain ⟨st'', hev'', hn''⟩ := ih (apply_entry h hc c.1) hcalls hev' hn'
    refine ⟨st'', hev'', hn''.trans ?_⟩
    rw [countP_cons]
    congr 1
    split_ifs <;> omega

/-- Without an update every check after the deadline triggers the event, so its
count grows by at most one a period exactly if there is at most one such check a
period. -/
theorem deadline_misses_iff {st : EventState} (hev : m.events d.handle = some st)
    (hst : st.count = wrap64 st.count) (h : m.deadlines.filter (·.handle = d.handle) = [d])
    {calls : List (Nat × Call)} (hcalls : ∀ c ∈ calls, ¬ Reaches d c.2) (hlen : calls.length < 2 ^ 63)
    (interval : Nat) : ∃ st', (runCalls m calls).events d.handle = some st' ∧
      (wrap64 (st'.count - st.count) ≤ (interval / d.deadline : Nat) ↔
        calls.countP (late d) ≤ interval / d.deadline) := by
  obtain ⟨st', hev', hn⟩ := runCalls_event h hcalls hev hst
  refine ⟨st', hev', ?_⟩
  have hle : calls.countP (late d) ≤ calls.length := countP_le_length
  have hgrown : wrap64 (st'.count - st.count) = calls.countP (late d) := by
    have hcancel : st.count + calls.countP (late d) - st.count = calls.countP (late d) := by omega
    rw [hn, wrap64, wrap64, Int.bmod_sub_bmod, hcancel, Int.bmod]
    split <;> omega
  rw [hgrown]
  exact Int.ofNat_le

def everyTen : DeadlineMonitor := ⟨1, 5, 0, 10, 0⟩

def watching : Monitor :=
  let r := createEvent newMonitor 0 .deadlineMissed
  { r.2 with deadlines := [everyTen, ⟨2, 5, 0, 3, 0⟩] }

def missesAfter (calls : List (Nat × Call)) : Option Int := ((runCalls watching calls).events 1).map (·.count)

theorem one_check_one_miss : ∃ st', (runCalls watching [(5, .check), (11, .check)]).events 1 = some st' ∧
    wrap64 (st'.count - 0) ≤ (12 / 10 : Nat) :=
  (deadline_misses_iff (m := watching) (d := everyTen) rfl rfl (by decide) (by simp [Reaches])
    (by decide) 12).imp fun _ h => ⟨h.1, h.2.mpr (by decide)⟩

theorem two_checks_two_misses : missesAfter [] = some 0 ∧
    missesAfter [(11, .check), (12, .check)] = some 2 ∧ 12 / 10 = 1 := by
  decide

end RmwAxon.DeadlineCount
