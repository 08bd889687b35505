import RmwAxon.AclSession

namespace RmwAxon.ServiceEnvelope

open AclSession Endian List
open RingBuffer (Bytes)

def serviceEnvelopeHeaderLen : Nat := 40

structure ServiceEnvelopeHeader where
  kind : UInt8
  clientGid : Gid
  requestSequence : Int
  deriving DecidableEq

def fromLeBytes (bs : Bytes) : Int :=
  if fromLe bs < 2 ^ 63 then fromLe bs else fromLe bs - 2 ^ 64

def asI64 (n : Nat) : Int := if n % 2 ^ 64 < 2 ^ 63 then n % 2 ^ 64 else n % 2 ^ 64 - 2 ^ 64

def decodeServiceEnvelope (data : Bytes) : Option (ServiceEnvelopeHeader × Bytes) :=
  if h : data.length < serviceEnvelopeHeaderLen then none
  else if data.take 8 ≠ serviceEnvelopeMagic then none
  else
    some (⟨data.getD 8 0, ⟨((data.drop 16).take 16).toArray, by
      simp only [List.size_toArray, List.length_take, List.length_drop]
      simp only [serviceEnvelopeHeaderLen] at h
      omega⟩, fromLeBytes ((data.drop 32).take 8)⟩, data.drop serviceEnvelopeHeaderLen)

theorem fromLeBytes_toLeBytes {n : Int} (hlo : -2 ^ 63 ≤ n) (hhi : n < 2 ^ 63) :
    fromLeBytes (toLeBytes n) = n := by
  have hlt : (n % 2 ^ 64).toNat < 256 ^ 8 := by omega
  rw [fromLeBytes, toLeBytes, fromLe, reverse_reverse, fromBe_toBe hlt]
  split_ifs <;> omega

theorem encode_ne_nil (kind : UInt8) (gid : Gid) (seq : Int) (payload : Bytes) :
    encodeServiceEnvelope kind gid seq payload ≠ [] := by
  simp [encodeServiceEnvelope, serviceEnvelopeMagic]

theorem decode_encode (kind : UInt8) (gid : Gid) {seq : Int} (hlo : -2 ^ 63 ≤ seq) (hhi : seq < 2 ^ 63)
    (payload : Bytes) :
    decodeServiceEnvelope (encodeServiceEnvelope kind gid seq payload) =
      some (⟨kind, gid, seq⟩, payload) := by
  have hgid : gid.toList.length = 16 := gid.length_toList
  have hseq : (toLeBytes seq).length = 8 := by rw [toLeBytes, length_reverse, toBe_length]
  have hlen : ¬ (encodeServiceEnvelope kind gid seq payload).length < serviceEnvelopeHeaderLen := by
    simp [encodeServiceEnvelope, serviceEnvelopeMagic, serviceEnvelopeHeaderLen, hseq]
    omega
  have hmagic : (encodeServiceEnvelope kind gid seq payload).take 8 = serviceEnvelopeMagic := by
    simp [encodeServiceEnvelope, serviceEnvelopeMagic]
  have hkind : (encodeServiceEnvelope kind gid seq payload).getD 8 0 = kind := by
    simp [encodeServiceEnvelope, serviceEnvelopeMagic]
  have hsixteen : (encodeServiceEnvelope kind gid seq payload).drop 16 =
      gid.toList ++ (toLeBytes seq ++ payload) := by
    simp [encodeServiceEnvelope, serviceEnvelopeMagic, replicate_succ]
  have hthirtytwo : (encodeServiceEnvelope kind gid seq payload).drop 32 = toLeBytes seq ++ payload := by
    rw [show 32 = 16 + 16 from rfl, ← drop_drop, hsixteen, drop_left' hgid]
  have hforty : (encodeServiceEnvelope kind gid seq payload).drop serviceEnvelopeHeaderLen = payload := by
    rw [serviceEnvelopeHeaderLen, show 40 = 32 + 8 from rfl, ← drop_drop, hthirtytwo, drop_left' hseq]
  rw [decodeServiceEnvelope, dif_neg hlen, if_neg (not_not.mpr hmagic)]
  simp only [hkind, hsixteen, hthirtytwo, hforty, take_left' hgid, take_left' hseq,
    fromLeBytes_toLeBytes hlo hhi]
  simp [Vector.toList]

def twoFrames : RingBuffer.Geometry :=
  { RingHistory.twoSlots with slotSize := 128, slotDataOffset_le := by decide, slotSize_lt := by decide }

def firstClient : AclSession.Gid := Vector.replicate 16 1

end RmwAxon.ServiceEnvelope
