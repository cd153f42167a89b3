import TokioKcp.Fec.Packet

namespace TokioKcp.Fec
set_option autoImplicit true

open Checked ErasureCode

abbrev EncodedPackets := List Bytes

structure FecEncoder where
  dataShards : Nat
  parityShards : Nat
  shardSize : Nat
  paws : Nat
  next : Nat
  tsLatestPacket : Option Nat
  shards : List Bytes
  codec : ReedSolomon

/-- `reedSolomon` is the constructor of the codec crate. -/
def FecEncoder.new (reedSolomon : Nat → Nat → Except String ReedSolomon)
    (dataShards parityShards : Nat) : Exec (IoResult FecEncoder) := do
  match ← validateShards dataShards parityShards with
  | .error err => return .error err
  | .ok () =>
    let shardSize ← add 64 dataShards parityShards
    match reedSolomon dataShards parityShards with
    | .error err => return .error (fecError err)
    | .ok codec =>
      let lap ← div 0xffffffff (cast 32 shardSize)
      return .ok {
        dataShards := dataShards
        parityShards := parityShards
        shardSize := shardSize
        paws := lap * cast 32 shardSize
        next := 0
        tsLatestPacket := none
        shards := []
        codec := codec }

def FecEncoder.seal (self : FecEncoder) (packet : Bytes) (flag : Nat) :
    Exec (FecEncoder × Bytes) := do
  let packet := packet ++ LittleEndian.encode 4 self.next
  let packet := packet ++ LittleEndian.encode 2 flag
  let next ← add 32 self.next 1
  let next ← rem next self.paws
  return ({ self with next := next }, packet)

def FecEncoder.skipParity (self : FecEncoder) : Exec FecEncoder := do
  let next ← add 32 self.next (cast 32 self.parityShards)
  let next ← rem next self.paws
  return { self with next := next }

def FecEncoder.sealParity (self : FecEncoder) : List Bytes → Exec (FecEncoder × List Bytes)
  | [] => .ok (self, [])
  | parity :: rest => do
    let (self, packet) ← self.seal [] typeParity
    let (self, packets) ← self.sealParity rest
    return (self, (packet ++ parity) :: packets)

/-- Whether the packet before arrived recently enough for parity to be worth sending. -/
def FecEncoder.continuous (self : FecEncoder) (now : Nat) : Bool :=
  match self.tsLatestPacket with
  | some ts => decide (now - ts < maxFecEncodeLatency)
  | none => false

/-- What `encode` does once the group's data shards are all there: emit the group's parity,
or skip its numbers when the packets come too slowly. -/
def FecEncoder.closeGroup (self : FecEncoder) (now : Nat) :
    Exec (FecEncoder × IoResult (List Bytes)) := do
  if !self.continuous now then
    let self := { self with shards := [] }
    let self ← self.skipParity
    return (self, .ok [])
  let maxLen := longest (self.shards.map List.length)
  let shards := self.shards.map (resize maxLen 0) ++
    List.replicate self.parityShards (List.replicate maxLen 0)
  let self := { self with shards := [] }
  match self.codec.encode shards with
  | .error err => return (self, .error (fecError err))
  | .ok shards =>
    let parity ← sliceFrom shards self.dataShards
    let (self, packets) ← self.sealParity parity
    return (self, .ok packets)

/-- `now` is the clock reading of the call. -/
def FecEncoder.encode (self : FecEncoder) (payload : Bytes) (now : Nat) :
    Exec (FecEncoder × IoResult EncodedPackets) := do
  if payload.length + 2 > 0xffff then
    return (self, .error ⟨.invalidInput, "FEC payload too large"⟩)
  let (self, data) ← self.seal [] typeData
  let data := data ++ LittleEndian.encode 2 (cast 16 (payload.length + 2))
  let data := data ++ payload
  let shard ← sliceFrom data fecHeaderSize
  let self := { self with shards := self.shards ++ [shard] }
  if self.shards.length = self.dataShards then
    match ← self.closeGroup now with
    | (self, .error err) => return (self, .error err)
    | (self, .ok packets) =>
      return ({ self with tsLatestPacket := some now }, .ok (data :: packets))
  else
    return ({ self with tsLatestPacket := some now }, .ok [data])

/-- The encoder's constant fields, as the constructor sets them. -/
structure FecEncoder.Built (e : FecEncoder) (c : ReedSolomon) (d p : Nat) : Prop where
  valid : ValidShards d p
  dataShards : e.dataShards = d
  parityShards : e.parityShards = p
  shardSize : e.shardSize = d + p
  paws : e.paws = pawsOf (d + p)
  codec : e.codec = c

theorem FecEncoder.Built.update {e : FecEncoder} (h : e.Built c d p) (next : Nat)
    (ts : Option Nat) (shards : List Bytes) :
    ({ e with next := next, tsLatestPacket := ts, shards := shards } : FecEncoder).Built c d p :=
  ⟨h.valid, h.dataShards, h.parityShards, h.shardSize, h.paws, h.codec⟩

theorem FecEncoder.new_ok {rs : Nat → Nat → Except String ReedSolomon}
    (hv : ValidShards d p) (hrs : rs d p = .ok c) :
    ∃ e, FecEncoder.new rs d p = .ok (.ok e) ∧ e.Built c d p ∧ e.next = 0 ∧ e.shards = [] ∧
      e.tsLatestPacket = none := by
  have hadd : add 64 d p = .ok (d + p) := add_of_lt (by have hs := hv.size_le; omega)
  have hdiv : div 0xffffffff (cast 32 (d + p)) = .ok (0xffffffff / cast 32 (d + p)) :=
    div_of_pos (by rw [hv.cast_size]; exact hv.size_pos)
  simp only [FecEncoder.new, validateShards_ok_iff.mpr hv, ok_bind, hadd, hrs, hdiv]
  exact ⟨_, rfl, ⟨hv, rfl, rfl, rfl, rfl, rfl⟩, rfl, rfl, rfl⟩

theorem FecEncoder.new_returns (hv : ValidShards d p) (rs : Nat → Nat → Except String ReedSolomon) :
    ∃ r, FecEncoder.new rs d p = .ok r := by
  cases hrs : rs d p with
  | ok c =>
    obtain ⟨e, h, _⟩ := FecEncoder.new_ok hv hrs
    exact ⟨_, h⟩
  | error err =>
    have hadd : add 64 d p = .ok (d + p) := add_of_lt (by have hs := hv.size_le; omega)
    simp only [FecEncoder.new, validateShards_ok_iff.mpr hv, ok_bind, hadd, hrs]
    exact ⟨_, rfl⟩

theorem FecEncoder.encode_refused (e : FecEncoder) (now : Nat) (h : 0xffff < payload.length + 2) :
    e.encode payload now = .ok (e, .error ⟨.invalidInput, "FEC payload too large"⟩) := by
  simp only [FecEncoder.encode, if_pos h]
  rfl

end TokioKcp.Fec
