import RmwAxon.Endian
import RmwAxon.RingBuffer

namespace RmwAxon.Compress

open Endian List
open RingBuffer (Bytes asU32)

/-- The zstd library at the level that the environment selects. Decompression
is given the original length as its limit. -/
structure Codec where
  enabled : Bool
  zstdCompress : Bytes → Option Bytes
  zstdDecompress : Bytes → Nat → Option Bytes
  inverse : ∀ data z, zstdCompress data = some z → zstdDecompress z data.length = some data

def compressionThreshold : Nat := 1024

def compress (codec : Codec) (data : Bytes) : Bytes :=
  if data.length ≤ compressionThreshold ∨ codec.enabled = false then 0 :: data
  else
    match codec.zstdCompress data with
    | some compressed =>
      if compressed.length + 5 < data.length + 1 then
        1 :: (toBe 4 (asU32 data.length) ++ compressed)
      else 0 :: data
    | none => 0 :: data

def decompress (codec : Codec) (data : Bytes) : Option Bytes :=
  match data with
  | [] => none
  | flag :: rest =>
    if flag = 0 then some rest
    else if data.length < 5 then none
    else codec.zstdDecompress (rest.drop 4) (fromBe (rest.take 4))

theorem compress_cases (codec : Codec) (data : Bytes) : compress codec data = 0 :: data ∨
    ∃ z, codec.zstdCompress data = some z ∧ z.length + 4 < data.length ∧
      compress codec data = 1 :: (toBe 4 (asU32 data.length) ++ z) := by
  unfold compress
  split_ifs with hsmall
  · exact .inl rfl
  cases hz : codec.zstdCompress data with
  | none => exact .inl rfl
  | some z =>
    simp only
    split_ifs with hgain
    · exact .inr ⟨z, rfl, by omega, rfl⟩
    · exact .inl rfl

theorem compress_length_le (codec : Codec) (data : Bytes) :
    (compress codec data).length ≤ data.length + 1 := by
  rcases compress_cases codec data with he | ⟨z, _, hlen, he⟩
  · simp [he]
  · simp only [he, length_cons, length_append, toBe_length]
    omega

/-- What a sender frames, a receiver unframes, for every length that fits the
four bytes of the frame. -/
theorem decompress_compress (codec : Codec) {data : Bytes} (h : data.length < 2 ^ 32) :
    decompress codec (compress codec data) = some data := by
  rcases compress_cases codec data with he | ⟨z, hz, _, he⟩
  · simp [he, decompress]
  have h4 : ¬ (1 :: (toBe 4 (asU32 data.length) ++ z)).length < 5 := by
    simp only [length_cons, length_append, toBe_length]
    omega
  have hn : asU32 data.length = data.length := Nat.mod_eq_of_lt h
  have hbe : fromBe (toBe 4 data.length) = data.length := fromBe_toBe h
  rw [he, decompress, if_neg (by decide), if_neg h4, take_left' (toBe_length 4 _),
    drop_left' (toBe_length 4 _), hn, hbe]
  exact codec.inverse data z hz

def plain : Codec := ⟨false, fun _ => none, fun _ _ => none, by simp⟩

end RmwAxon.Compress
