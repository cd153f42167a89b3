import TokioKcp.Error
import TokioKcp.Lib.LittleEndian
import TokioKcp.Lib.ErasureCode

namespace TokioKcp.Fec
set_option autoImplicit true

open Checked ErasureCode

def fecHeaderSize : Nat := 6
def fecHeaderSizePlusSize : Nat := fecHeaderSize + 2
def typeData : Nat := 0xf1
def typeParity : Nat := 0xf2
def maxShardSets : Nat := 3

/-- Half a second, in nanoseconds: the clock readings of the encoder count those. -/
def maxFecEncodeLatency : Nat := 500 * 1000000

/-- The codec of the `reed_solomon_erasure` crate over bytes. -/
abbrev ReedSolomon := Codec UInt8 String

def fecError (err : String) : IoError := ⟨.invalidData, err⟩

def fecFlag (packet : Bytes) : Option Nat :=
  if fecHeaderSize ≤ packet.length then
    -- the length test covers the two bytes read here
    some (LittleEndian.decode ((packet.drop 4).take 2))
  else
    none

def seqid (packet : Bytes) : Exec Nat := do
  let b₀ ← index packet 0
  let b₁ ← index packet 1
  let b₂ ← index packet 2
  let b₃ ← index packet 3
  return LittleEndian.decode [b₀, b₁, b₂, b₃]

def isFecPacket (packet : Bytes) : Bool :=
  fecFlag packet == some typeData || fecFlag packet == some typeParity

def isDataPacket (packet : Bytes) : Bool := fecFlag packet == some typeData

def isParityPacket (packet : Bytes) : Bool := fecFlag packet == some typeParity

def dataPayload (packet : Bytes) : Option Bytes :=
  if isDataPacket packet ∧ fecHeaderSizePlusSize ≤ packet.length then
    some (packet.drop fecHeaderSizePlusSize)
  else
    none

/-- A mutable slice at the end of a packet: the bytes before it, and its own. Writing to
the slice replaces the second part. -/
def dataPayloadMut (packet : Bytes) : Option (Bytes × Bytes) :=
  if isDataPacket packet ∧ fecHeaderSizePlusSize ≤ packet.length then
    some (packet.take fecHeaderSizePlusSize, packet.drop fecHeaderSizePlusSize)
  else
    none

def validateShards (dataShards parityShards : Nat) : Exec (IoResult Unit) := do
  if dataShards = 0 ∨ parityShards = 0 then
    return .error ⟨.invalidInput, "invalid FEC shards"⟩
  let sum ← add 64 dataShards parityShards
  if sum > 256 then
    return .error ⟨.invalidInput, "invalid FEC shards"⟩
  return .ok ()

/-- Shard counts that the encoder and the decoder can be built with. -/
structure ValidShards (d p : Nat) : Prop where
  data_pos : 0 < d
  parity_pos : 0 < p
  size_le : d + p ≤ 256

theorem validateShards_ok_iff :
    validateShards d p = .ok (.ok ()) ↔ ValidShards d p := by
  constructor
  · intro h
    simp only [validateShards] at h
    split at h
    · cases h
    · rename_i hz
      obtain ⟨sum, hs, h⟩ := bind_eq_ok.mp h
      simp only [add] at hs
      split at hs
      · cases hs
        split at h
        · cases h
        · exact ⟨by omega, by omega, by omega⟩
      · cases hs
  · intro ⟨hd, hp, hs⟩
    have hz : ¬(d = 0 ∨ p = 0) := by omega
    simp only [validateShards, if_neg hz, add_of_lt (show d + p < 2 ^ 64 by omega), ok_bind,
      if_neg (show ¬d + p > 256 by omega)]
    rfl

/-- The modulus of the sequence numbers: the largest multiple of the shard count that
fits a word. -/
def pawsOf (shardSize : Nat) : Nat :=
  0xffffffff / cast 32 shardSize * cast 32 shardSize

theorem ValidShards.size_pos (h : ValidShards d p) : 0 < d + p :=
  Nat.add_pos_left h.data_pos p

theorem ValidShards.cast_size (h : ValidShards d p) : cast 32 (d + p) = d + p :=
  cast_of_lt (by have hs := h.size_le; omega)

/-- The number of groups that fit the sequence numbers before they wrap. -/
def lapGroups (shardSize : Nat) : Nat := 0xffffffff / shardSize

theorem ValidShards.paws_eq (h : ValidShards d p) :
    pawsOf (d + p) = lapGroups (d + p) * (d + p) := by
  rw [pawsOf, h.cast_size]
  rfl

theorem ValidShards.paws_lt (h : ValidShards d p) : pawsOf (d + p) < 2 ^ 32 := by
  rw [h.paws_eq]
  have hle := Nat.div_mul_le_self 0xffffffff (d + p)
  simp only [lapGroups]
  omega

theorem ValidShards.lap_bounds (h : ValidShards d p) :
    3 * (d + p) + 1 < lapGroups (d + p) ∧ lapGroups (d + p) < 2 ^ 31 := by
  have hs := h.size_le
  have hd := h.data_pos
  have hp := h.parity_pos
  have hlow : 0xffffffff / 256 ≤ lapGroups (d + p) :=
    Nat.div_le_div_left hs h.size_pos
  have hhigh : lapGroups (d + p) ≤ 0xffffffff / 2 :=
    Nat.div_le_div_left (by omega) (by omega)
  omega

theorem ValidShards.paws_pos (h : ValidShards d p) : 0 < pawsOf (d + p) := by
  rw [h.paws_eq]
  have hl := h.lap_bounds
  exact Nat.mul_pos (by omega) h.size_pos

theorem ValidShards.mod_lt_size (h : ValidShards d p) (q : Nat) : q % (d + p) < d + p :=
  Nat.mod_lt q h.size_pos

end TokioKcp.Fec
