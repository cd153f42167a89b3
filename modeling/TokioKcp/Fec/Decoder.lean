import TokioKcp.Fec.Packet
import TokioKcp.Lib.FinMap

namespace TokioKcp.Fec
set_option autoImplicit true

open Checked ErasureCode

structure ShardSet where
  shards : List (Option Bytes)
  deriving DecidableEq

structure FecDecoder where
  dataShards : Nat
  shardSize : Nat
  paws : Nat
  shardSet : FinMap Nat ShardSet
  newestShardId : Nat
  codec : ReedSolomon

def FecDecoder.new (reedSolomon : Nat → Nat → Except String ReedSolomon)
    (dataShards parityShards : Nat) : Exec (IoResult FecDecoder) := do
  match ← validateShards dataShards parityShards with
  | .error err => return .error err
  | .ok () =>
    let shardSize ← add 64 dataShards parityShards
    match reedSolomon dataShards parityShards with
    | .error err => return .error (fecError err)
    | .ok codec =>
      let lap ← div 0xffffffff (cast 32 shardSize)
      return .ok {
        dataShards := dataShards
        shardSize := shardSize
        paws := lap * cast 32 shardSize
        shardSet := ∅
        newestShardId := 0
        codec := codec }

def FecDecoder.discardOldShards (self : FecDecoder) : FecDecoder :=
  let newest := self.newestShardId
  let shardSize := cast 32 self.shardSize
  { self with
    shardSet := self.shardSet.retain fun shardId =>
      decide (wrappingSub 32 newest shardId ≤ maxShardSets * shardSize) }

def missingData (dataShards : Nat) (shards : List (Option Bytes)) : List Nat :=
  (List.range shards.length).filter fun idx =>
    decide (idx < dataShards) && shards[idx]? == some none

def maxLen (shards : List (Option Bytes)) : Nat :=
  longest (shards.map fun data => (data.map List.length).getD 0)

/-- The payload in a reconstructed shard, if its size field makes sense. -/
def recoverPayload (shards : List (Option Bytes)) (idx : Nat) : Exec (Option Bytes) := do
  match ← index shards idx with
  | none => return none
  | some data =>
    if data.length < 2 then
      return none
    let b₀ ← index data 0
    let b₁ ← index data 1
    let size := LittleEndian.decode [b₀, b₁]
    if 2 ≤ size ∧ size ≤ data.length then
      let payload ← slice data 2 size
      return some payload
    else
      return none

def recoverPayloads (shards : List (Option Bytes)) : List Nat → Exec (List Bytes)
  | [] => .ok []
  | idx :: rest => do
    let payload ← recoverPayload shards idx
    let recovered ← recoverPayloads shards rest
    return payload.toList ++ recovered

/-- What `decode` does with a set that holds enough shards, once it is out of the map. -/
def FecDecoder.reconstruct (self : FecDecoder) (shard : ShardSet) :
    Exec (FecDecoder × IoResult (List Bytes)) := do
  let missing := missingData self.dataShards shard.shards
  let maxLen := maxLen shard.shards
  if missing = [] then
    return (self.discardOldShards, .ok [])
  match self.codec.reconstructData (shard.shards.map (Option.map (resize maxLen 0))) with
  -- this exit leaves old sets in place
  | .error err => return (self, .error (fecError err))
  | .ok shards =>
    let recovered ← recoverPayloads shards missing
    return (self.discardOldShards, .ok recovered)

def FecDecoder.decode (self : FecDecoder) (packet : Bytes) :
    Exec (FecDecoder × IoResult (List Bytes)) := do
  if packet.length < fecHeaderSize then
    return (self, .error ⟨.invalidInput, "FEC packet too short"⟩)
  let seq ← seqid packet
  if seq ≥ self.paws then
    return (self, .ok [])
  let shardId ← div seq (cast 32 self.shardSize)
  let shardIndex ← rem seq self.shardSize
  let (shardSet, shard) :=
    self.shardSet.orInsert shardId ⟨List.replicate self.shardSize none⟩
  let slot ← index shard.shards shardIndex
  if slot.isSome then
    return ({ self with shardSet := shardSet }, .ok [])
  let body ← sliceFrom packet fecHeaderSize
  let shard : ShardSet := ⟨shard.shards.set shardIndex (some body)⟩
  let newest :=
    if wrappingSub 32 shardId self.newestShardId < 0x80000000 ∧ shardId > self.newestShardId then
      shardId
    else
      self.newestShardId
  let self := { self with
    shardSet := shardSet.insert shardId shard, newestShardId := newest }
  if present shard.shards < self.dataShards then
    return (self.discardOldShards, .ok [])
  let shard ← unwrap (self.shardSet.lookup shardId)
  let self := { self with shardSet := self.shardSet.erase shardId }
  self.reconstruct shard

/-- The payloads that a decoder recovers when it is given the packet. -/
def FecDecoder.recovers (decoder : FecDecoder) (packet : Bytes) : List Bytes :=
  match decoder.decode packet with
  | .ok (_, .ok recovered) => recovered
  | _ => []

/-- The decoder's constant fields, as the constructor sets them. -/
structure FecDecoder.Built (s : FecDecoder) (c : ReedSolomon) (d p : Nat) : Prop where
  valid : ValidShards d p
  dataShards : s.dataShards = d
  shardSize : s.shardSize = d + p
  paws : s.paws = pawsOf (d + p)
  codec : s.codec = c

theorem FecDecoder.Built.update {s : FecDecoder} (h : s.Built c d p)
    (shardSet : FinMap Nat ShardSet) (newest : Nat) :
    ({ s with shardSet := shardSet, newestShardId := newest } : FecDecoder).Built c d p :=
  ⟨h.valid, h.dataShards, h.shardSize, h.paws, h.codec⟩

theorem FecDecoder.new_ok {rs : Nat → Nat → Except String ReedSolomon}
    (hv : ValidShards d p) (hrs : rs d p = .ok c) :
    ∃ s, FecDecoder.new rs d p = .ok (.ok s) ∧ s.Built c d p ∧ s.newestShardId = 0 ∧
      s.shardSet = ∅ := by
  have hadd : add 64 d p = .ok (d + p) := add_of_lt (by have hs := hv.size_le; omega)
  have hdiv : div 0xffffffff (cast 32 (d + p)) = .ok (0xffffffff / cast 32 (d + p)) :=
    div_of_pos (by rw [hv.cast_size]; exact hv.size_pos)
  simp only [FecDecoder.new, validateShards_ok_iff.mpr hv, ok_bind, hadd, hrs, hdiv]
  exact ⟨_, rfl, ⟨hv, rfl, rfl, rfl, rfl⟩, rfl, rfl⟩

theorem FecDecoder.new_returns (hv : ValidShards d p) (rs : Nat → Nat → Except String ReedSolomon) :
    ∃ r, FecDecoder.new rs d p = .ok r := by
  cases hrs : rs d p with
  | ok c =>
    obtain ⟨s, h, _⟩ := FecDecoder.new_ok hv hrs
    exact ⟨_, h⟩
  | error err =>
    have hadd : add 64 d p = .ok (d + p) := add_of_lt (by have hs := hv.size_le; omega)
    simp only [FecDecoder.new, validateShards_ok_iff.mpr hv, ok_bind, hadd, hrs]
    exact ⟨_, rfl⟩

end TokioKcp.Fec
