import TokioKcp.Config
import TokioKcp.Fec.Decoder

namespace TokioKcp
set_option autoImplicit true

open Checked Fec

variable {fec : KcpFecConfig} {rs : Nat → Nat → Except String ReedSolomon}

/-- A shard count that the sequence numbers can be divided by, and their modulus. -/
structure Divides (shardSize paws : Nat) : Prop where
  two_le : 2 ≤ shardSize
  size_le : shardSize ≤ 256
  paws_pos : 0 < paws
  dvd : shardSize ∣ paws

/-- Both constructors pass their own validation, return, and divide the sequence numbers,
whatever the codec's constructor `rs` answers. -/
structure KcpFecConfig.Builds (fec : KcpFecConfig)
    (rs : Nat → Nat → Except String ReedSolomon) : Prop where
  validateShards : validateShards fec.dataShards fec.parityShards = .ok (.ok ())
  encoder : ∃ r, FecEncoder.new rs fec.dataShards fec.parityShards = .ok r ∧
    ∀ c, rs fec.dataShards fec.parityShards = .ok c →
      ∃ e, r = .ok e ∧ Divides e.shardSize e.paws
  decoder : ∃ r, FecDecoder.new rs fec.dataShards fec.parityShards = .ok r ∧
    ∀ c, rs fec.dataShards fec.parityShards = .ok c →
      ∃ d, r = .ok d ∧ Divides d.shardSize d.paws

/-- The shard counts are validated without a panic, those and only those that make sense are
accepted, and every configuration with them that is accepted can be used. -/
structure KcpFecConfig.ExactlyValidated (fec : KcpFecConfig) : Prop where
  validate : ∃ r, fec.validate = .ok r
  validateShards : ∃ r, validateShards fec.dataShards fec.parityShards = .ok r
  accepts : fec.validate = .ok (.ok ()) ↔
    (fec.dataShards = 0 ∧ fec.parityShards = 0) ∨
    (1 ≤ fec.dataShards ∧ 1 ≤ fec.parityShards ∧ fec.dataShards + fec.parityShards ≤ 256)
  builds : ∀ config : KcpConfig, config.fec = fec → config.validate = .ok (.ok ()) →
    fec.enabled = true → ∀ rs, fec.Builds rs

theorem Fec.ValidShards.divides (h : ValidShards d p) : Divides (d + p) (pawsOf (d + p)) where
  two_le := Nat.add_le_add h.data_pos h.parity_pos
  size_le := h.size_le
  paws_pos := h.paws_pos
  dvd := by
    rw [h.paws_eq]
    exact Nat.dvd_mul_left (d + p) (lapGroups (d + p))

theorem KcpFecConfig.builds_of_valid (h : ValidShards fec.dataShards fec.parityShards)
    (rs : Nat → Nat → Except String ReedSolomon) : fec.Builds rs where
  validateShards := validateShards_ok_iff.mpr h
  encoder := by
    obtain ⟨r, hr⟩ := FecEncoder.new_returns h rs
    refine ⟨r, hr, ?_⟩
    intro c hc
    obtain ⟨e, he, hb, _⟩ := FecEncoder.new_ok h hc
    rw [he] at hr
    cases hr
    refine ⟨e, rfl, ?_⟩
    rw [hb.shardSize, hb.paws]
    exact h.divides
  decoder := by
    obtain ⟨r, hr⟩ := FecDecoder.new_returns h rs
    refine ⟨r, hr, ?_⟩
    intro c hc
    obtain ⟨s, hs, hb, _⟩ := FecDecoder.new_ok h hc
    rw [hs] at hr
    cases hr
    refine ⟨s, rfl, ?_⟩
    rw [hb.shardSize, hb.paws]
    exact h.divides

theorem KcpFecConfig.validate_eq (self : KcpFecConfig) : self.validate =
    if self.dataShards = 0 ∧ self.parityShards = 0 then .ok (.ok ())
    else validateShards self.dataShards self.parityShards := by
  rw [KcpFecConfig.validate, validateShards]
  split
  · rfl
  · rfl

theorem validateShards_returns_iff : (∃ r, validateShards d p = .ok r) ↔
    d = 0 ∨ p = 0 ∨ d + p < 2 ^ 64 := by
  rw [← or_assoc]
  by_cases hz : d = 0 ∨ p = 0
  · rw [validateShards, if_pos hz]
    exact ⟨fun _ => .inl hz, fun _ => ⟨_, rfl⟩⟩
  · rw [validateShards, if_neg hz, or_iff_right hz]
    constructor
    · rintro ⟨r, hr⟩
      obtain ⟨sum, hs, -⟩ := bind_eq_ok.mp hr
      rw [add] at hs
      split at hs
      · assumption
      · cases hs
    · intro hlt
      rw [add_of_lt hlt, ok_bind]
      split
      · exact ⟨_, rfl⟩
      · exact ⟨_, rfl⟩

theorem KcpFecConfig.accepts_iff : fec.validate = .ok (.ok ()) ↔
    (fec.dataShards = 0 ∧ fec.parityShards = 0) ∨
    (1 ≤ fec.dataShards ∧ 1 ≤ fec.parityShards ∧
      fec.dataShards + fec.parityShards ≤ 256) := by
  rw [KcpFecConfig.validate_eq]
  split
  · rename_i hz
    exact iff_of_true rfl (.inl hz)
  · rename_i hz
    rw [validateShards_ok_iff, or_iff_right hz]
    exact ⟨fun h => ⟨h.data_pos, h.parity_pos, h.size_le⟩, fun ⟨hd, hp, hs⟩ => ⟨hd, hp, hs⟩⟩

/-- Shard counts are validated exactly unless the validation adds them and the sum does not
fit 64 bits. -/
theorem shard_counts_exact_iff (fec : KcpFecConfig) : fec.ExactlyValidated ↔
    fec.dataShards = 0 ∨ fec.parityShards = 0 ∨ fec.dataShards + fec.parityShards < 2 ^ 64 := by
  constructor
  · intro h
    exact validateShards_returns_iff.mp h.validateShards
  · intro h
    have hreturns := validateShards_returns_iff.mpr h
    refine ⟨?_, hreturns, KcpFecConfig.accepts_iff, ?_⟩
    · rw [KcpFecConfig.validate_eq]
      split
      · exact ⟨_, rfl⟩
      · exact hreturns
    · rintro config rfl hvalid henabled rs
      exact KcpFecConfig.builds_of_valid
        ((KcpConfig.valid_of_validate hvalid).shards henabled) rs

/-- The largest word and one: validation overflows instead of refusing them. -/
theorem shard_counts_overflow :
    (⟨2 ^ 64 - 1, 1⟩ : KcpFecConfig).validate = .error .arithmeticOverflow ∧
    validateShards (2 ^ 64 - 1) 1 = .error .arithmeticOverflow ∧
    ¬(⟨2 ^ 64 - 1, 1⟩ : KcpFecConfig).ExactlyValidated := by
  have hv : validateShards (2 ^ 64 - 1) 1 = .error .arithmeticOverflow := rfl
  refine ⟨rfl, hv, ?_⟩
  intro h
  obtain ⟨r, hr⟩ := h.validateShards
  rw [hv] at hr
  cases hr

end TokioKcp
