import RmwAxon.TakeProgress

namespace RmwAxon.RmwTake

open Cells Compress Session Receive ReceiveSpec SubscriberQueue QueueHistory QueueSelect TakeNext
open RingBuffer (Bytes asU32)

/-- The calls of axon_session_take_next in rmw_take and
rmw_take_serialized_message, with a buffer that grows to the size which the
last one reported. None means that there is no memory for it. -/
def resizeLoop (codec : Codec) (malloc : Nat → Option Bytes) (now : Nat → Nat) (t : Nat) :
    Nat → Reply → Bytes → World → Option (Reply × Bytes × World)
  | 0, last, buf, w => some (last, buf, w)
  | attempts + 1, last, buf, w =>
    let (r, out, w) := takeNext codec w (now attempts) t last.seq buf
    if r.code = 0 ∨ r.outLen ≤ buf.length then some (r, out, w)
    else (malloc r.outLen).bind fun buf => resizeLoop codec malloc now t attempts r buf w

variable {codec : Codec} {w : World} {q : Queue} {t s : Nat} {buf p : Bytes}
variable (ho : (numbers q).Pairwise (· < ·)) (hp : p.length < 2 ^ 32)
  (hf : (compress codec p).length < 2 ^ 32)
include ho hp hf

/-- An attempt takes the message, or asks for a buffer that holds the payload
or the whole frame, which may be one byte longer. -/
theorem queue_attempt {c i : Nat} (hsel : selected w.session t c = some (q, compress codec p, s))
    (hlive : outlived (lifespanOf w.session t) i (timestampFor q s) = false) (hpos : 0 < buf.length) :
    ∃ k out, p.length ≤ k ∧ k ≤ p.length + 1 ∧ (k ≤ buf.length → out.take p.length = p) ∧
      takeNext codec w i t c buf =
        (if buf.length < k then ⟨-2, k, s⟩ else ⟨0, p.length, s + 1⟩, out, w) := by
  have hlen := compress_length_le codec p
  have hp' : asU32 p.length = p.length := Nat.mod_eq_of_lt hp
  have hf' : asU32 (compress codec p).length = (compress codec p).length := Nat.mod_eq_of_lt hf
  rcases Nat.lt_or_ge buf.length p.length with hshort | hfit
  · obtain ⟨hq, hsel'⟩ := selected_some_iff.mp hsel
    have hsize := decompressedSize_frame codec hp (messageSize_of_select ho hsel')
    refine ⟨p.length, buf, le_rfl, by omega, by omega, ?_⟩
    simp [takeNext, hpos.ne', receiveNext, hq, receiveRemote, peekPrefix, hsel', hsize,
      Option.filter_some_pos, hshort, hp']
  have hr : receiveNext codec w i t c buf = _ := receive_frame codec ho hp hsel hfit
  rcases Nat.lt_or_ge buf.length (compress codec p).length with hshort | hframe
  · refine ⟨(compress codec p).length, buf, by omega, hlen, by omega, ?_⟩
    simp [takeNext, hpos.ne', hr, receiveFrame, hshort, hf']
  · refine ⟨p.length, copyOut p (copyOut (compress codec p) buf), le_rfl, by omega,
      fun _ => take_copyOut .., ?_⟩
    simp [takeNext, hpos.ne', hr, receiveFrame, hlive, Nat.not_lt.mpr hframe, Nat.not_lt.mpr hfit, hp']

/-- Three attempts hand out a queued message, whatever the first buffer; rmw_take
makes eight. -/
theorem queued_message_taken {malloc : Nat → Option Bytes} {now : Nat → Nat} {n : Nat} {r : Reply}
    (hm : ∀ k, ∃ b, malloc k = some b ∧ b.length = k)
    (hlive : ∀ k, outlived (lifespanOf w.session t) (now k) (timestampFor q s) = false)
    (hsel : selected w.session t r.seq = some (q, compress codec p, s)) (hpos : 0 < buf.length)
    (hleft : min 2 (p.length + 1 - buf.length) < n) :
    ∃ out, resizeLoop codec malloc now t n r buf w = some (⟨0, p.length, s + 1⟩, out, w) ∧
      out.take p.length = p := by
  induction n generalizing r buf with
  | zero => omega
  | succ n ih =>
    obtain ⟨k, out, hle, hle', htake, hr⟩ := queue_attempt ho hp hf hsel (hlive n) hpos
    rcases Nat.lt_or_ge buf.length k with hlt | hge
    · rw [if_pos hlt] at hr
      obtain ⟨b, hb, rfl⟩ := hm k
      obtain ⟨hq, hsel'⟩ := selected_some_iff.mp hsel
      have hagain : selected w.session t (⟨-2, b.length, s⟩ : Reply).seq = some (q, compress codec p, s) :=
        selected_some_iff.mpr ⟨hq, TakeProgress.select_again hsel'⟩
      obtain ⟨out', hu, ht⟩ := ih hagain (by omega : 0 < b.length) (by omega)
      exact ⟨out', by simp [resizeLoop, hr, Nat.not_le.mpr hlt, hb, hu], ht⟩
    · rw [if_neg (Nat.not_lt.mpr hge)] at hr
      exact ⟨out, by simp [resizeLoop, hr], htake hge⟩

omit ho hp hf in
theorem one_byte_taken : ∃ w out, resizeLoop plain (fun k => some (List.replicate k 0)) (fun _ => 0) 5 8
    ⟨-1, 1, 0⟩ [0] w = some (⟨0, 1, 1⟩, out, w) ∧ out.take 1 = [7] :=
  ⟨SessionFrame.setQueue SessionRun.newSession.world 5
      (push (withSeqAndMode 1 0 false) 0 (compress plain [7])).2,
    queued_message_taken (p := [7]) (by decide) (by decide) (by decide) (fun k => ⟨_, rfl, by simp⟩)
      (fun _ => rfl) rfl (by decide) (by decide)⟩

end RmwAxon.RmwTake
