import Mathlib.Algebra.Group.Nat.Defs
import RmwAxon.NodeTable
import RmwAxon.Qos

namespace RmwAxon.RmwDuration

open NodeTable Qos

structure RmwTime where
  sec : UInt64
  nsec : UInt64
  deriving DecidableEq

def RmwTime.total (t : RmwTime) : Nat := t.sec.toNat * nanosPerSec + t.nsec.toNat

/-- The largest signed 64-bit number of nanoseconds stands for infinity. -/
def infinite : Nat := 2 ^ 63 - 1

def axonQosDurationIsUnbounded (t : RmwTime) : Bool :=
  (t.sec = 0 ∧ t.nsec = 0) ∨ 9223372036 < t.sec ∨ (t.sec = 9223372036 ∧ 854775807 ≤ t.nsec)

def normalized (t : RmwTime) : RmwTime := ⟨t.sec + t.nsec / 1000000000, t.nsec % 1000000000⟩

def axonQosDurationToWire (t : RmwTime) : UInt64 × UInt32 :=
  if axonQosDurationIsUnbounded t then (0, 0)
  else if axonQosDurationIsUnbounded (normalized t) then (0, 0)
  else ((normalized t).sec, (normalized t).nsec.toUInt32)

def checkedAdd (a b : UInt64) : Option UInt64 := if a.toNat + b.toNat < 2 ^ 64 then some (a + b) else none

def reachesInfinite (sec : UInt64) (nsec : UInt32) : Bool :=
  9223372036 < sec ∨ (sec = 9223372036 ∧ 854775807 ≤ nsec)

def durationFromRmwParts (sec : UInt64) (nsec : UInt32) : Option Duration :=
  if sec = 0 ∧ nsec = 0 then none
  else if reachesInfinite sec nsec then none
  else (checkedAdd sec (nsec / 1000000000).toUInt64).bind fun sec' =>
    if reachesInfinite sec' (nsec % 1000000000) then none
    else some (sec'.toNat * nanosPerSec + (nsec % 1000000000).toNat)

theorem isUnbounded_iff (t : RmwTime) :
    axonQosDurationIsUnbounded t = true ↔ (t.sec.toNat = 0 ∧ t.nsec.toNat = 0) ∨
      9223372036 < t.sec.toNat ∨ (t.sec.toNat = 9223372036 ∧ 854775807 ≤ t.nsec.toNat) := by
  simp [axonQosDurationIsUnbounded, ← UInt64.toNat_inj, UInt64.lt_iff_toNat_lt, UInt64.le_iff_toNat_le]

theorem reachesInfinite_iff (sec : UInt64) (nsec : UInt32) : reachesInfinite sec nsec = true ↔
      9223372036 < sec.toNat ∨ (sec.toNat = 9223372036 ∧ 854775807 ≤ nsec.toNat) := by
  simp [reachesInfinite, ← UInt64.toNat_inj, UInt64.lt_iff_toNat_lt, UInt32.le_iff_toNat_le]

theorem toNat_nanos : (1000000000 : UInt64).toNat = nanosPerSec ∧ (1000000000 : UInt32).toNat = nanosPerSec :=
  ⟨rfl, rfl⟩

/-- A time that is not taken for infinite as it stands is short enough for the
sum of the seconds. -/
theorem normalized_toNat {t : RmwTime} (h : ¬ axonQosDurationIsUnbounded t = true) :
    (normalized t).sec.toNat = t.sec.toNat + t.nsec.toNat / nanosPerSec ∧
      (normalized t).nsec.toNat = t.nsec.toNat % nanosPerSec ∧
      (normalized t).nsec.toUInt32.toNat = t.nsec.toNat % nanosPerSec := by
  rw [isUnbounded_iff] at h
  have hnsec := t.nsec.toNat_lt
  simp only [normalized, UInt64.toNat_add, UInt64.toNat_div, UInt64.toNat_mod, UInt64.toNat_toUInt32,
    toNat_nanos, nanosPerSec]
  refine ⟨?_, trivial, ?_⟩ <;> omega

theorem checkedAdd_whole {sec : UInt64} {nsec : UInt32} (hnsec : nsec.toNat < nanosPerSec) :
    checkedAdd sec (nsec / 1000000000).toUInt64 = some sec := by
  have hdiv : nsec / 1000000000 = 0 := by
    apply UInt32.toNat_inj.mp
    rw [UInt32.toNat_div, toNat_nanos.2, Nat.div_eq_of_lt hnsec]
    rfl
  rw [hdiv, checkedAdd, if_pos (by simpa using sec.toNat_lt)]
  simp

theorem durationFromRmwParts_eq {sec : UInt64} {nsec : UInt32} (hnsec : nsec.toNat < nanosPerSec)
    (hpos : ¬ (sec = 0 ∧ nsec = 0)) (hfinite : ¬ reachesInfinite sec nsec = true) :
    durationFromRmwParts sec nsec = some (sec.toNat * nanosPerSec + nsec.toNat) := by
  have hmod : nsec % 1000000000 = nsec := by
    apply UInt32.toNat_inj.mp
    rw [UInt32.toNat_mod, toNat_nanos.2, Nat.mod_eq_of_lt hnsec]
  rw [durationFromRmwParts, if_neg hpos, if_neg hfinite, checkedAdd_whole hnsec, Option.bind_some, hmod,
    if_neg hfinite]

/-- What is handed to the session is a duration exactly if it is positive and
shorter than infinity, and no step on the way cuts anything off. -/
theorem duration_passed_on (t : RmwTime) :
    durationFromRmwParts (axonQosDurationToWire t).1 (axonQosDurationToWire t).2 =
        (if 0 < t.total ∧ t.total < infinite then some t.total else none) ∧
      (axonQosDurationIsUnbounded t = true ∨
        (normalized t).sec.toNat = t.sec.toNat + t.nsec.toNat / nanosPerSec ∧
        (normalized t).nsec.toUInt32.toNat = t.nsec.toNat % nanosPerSec) ∧
      checkedAdd (axonQosDurationToWire t).1 ((axonQosDurationToWire t).2 / 1000000000).toUInt64 =
        some (axonQosDurationToWire t).1 := by
  have htotal : t.total = t.sec.toNat * nanosPerSec + t.nsec.toNat := rfl
  by_cases hraw : axonQosDurationIsUnbounded t = true
  · rw [axonQosDurationToWire, if_pos hraw, if_neg]
    · exact ⟨rfl, .inl hraw, rfl⟩
    · have h := (isUnbounded_iff t).mp hraw
      simp only [htotal, infinite, nanosPerSec]
      omega
  obtain ⟨hsec, hnsec, hnarrow⟩ := normalized_toNat hraw
  have hnorm := isUnbounded_iff (normalized t)
  rw [hsec, hnsec] at hnorm
  rw [axonQosDurationToWire, if_neg hraw]
  by_cases hun : axonQosDurationIsUnbounded (normalized t) = true
  · rw [if_pos hun, if_neg]
    · exact ⟨rfl, .inr ⟨hsec, hnarrow⟩, rfl⟩
    · have h := hnorm.mp hun
      simp only [htotal, infinite, nanosPerSec] at h ⊢
      omega
  -- The seconds and nanoseconds that are left are those of the total.
  have hfin := mt hnorm.mpr hun
  have hlt : (normalized t).nsec.toUInt32.toNat < nanosPerSec := by
    rw [hnarrow]
    exact Nat.mod_lt _ (by decide)
  rw [if_neg hun, durationFromRmwParts_eq hlt, hsec, hnarrow, if_pos]
  · refine ⟨?_, .inr ⟨rfl, rfl⟩, checkedAdd_whole hlt⟩
    simp only [htotal, nanosPerSec, Option.some.injEq]
    omega
  · simp only [htotal, infinite, nanosPerSec] at hfin ⊢
    omega
  · rw [← UInt64.toNat_inj, ← UInt32.toNat_inj, hsec, hnarrow]
    exact fun h => hfin (.inl h)
  · rw [reachesInfinite_iff, hsec, hnarrow]
    exact fun h => hfin (.inr h)

end RmwAxon.RmwDuration
