import TokioKcp.Config
import TokioKcp.Fec.RoundTrip

namespace TokioKcp
set_option autoImplicit true

open Checked Fec ErasureCode

variable {config : KcpConfig} {rs : Nat → Nat → Except String ReedSolomon} {c : ReedSolomon}

def sizeField (packet : Bytes) : Nat :=
  LittleEndian.decode ((packet.drop fecHeaderSize).take 2)

/-- What a call of the encoder should give for a payload: a data packet with the true length in
it, and no packet longer than the MTU. -/
def FitsMtu (mtu : Nat) (payload : Bytes) (out : IoResult EncodedPackets) : Prop :=
  ∃ data parity, out = .ok (data :: parity) ∧ sizeField data = payload.length + 2 ∧
    ∀ packet ∈ data :: parity, packet.length ≤ mtu

/-- The encoder accepts every run of datagrams within the MTU left for KCP, and its packets fit. -/
def KcpConfig.MtuWorks (config : KcpConfig) (rs : Nat → Nat → Except String ReedSolomon) : Prop :=
  ∃ mtu, config.kcpMtu = .ok mtu ∧
  ∃ e, FecEncoder.new rs config.fec.dataShards config.fec.parityShards = .ok (.ok e) ∧
    ∀ inputs, (∀ x ∈ inputs, x.1.length ≤ mtu) → ∃ e' outs,
      encodeAll e inputs = .ok (e', outs) ∧
      List.Forall₂ (fun x out => FitsMtu config.mtu x.1 out) inputs outs

theorem sizeField_packetOf (paws q flag : Nat) (h : payload.length + 2 ≤ 0xffff) :
    sizeField (packetOf paws q flag (dataBody payload)) = payload.length + 2 := by
  rw [sizeField, drop_packetOf, dataBody, List.take_left' (LittleEndian.length_encode 2 _),
    LittleEndian.decode_encode (Nat.lt_succ_of_le h)]

theorem Fec.Numbered.fits_mtu {calls : List Call} {call : Call} {k : Nat}
    (h : Numbered c d p e calls) (hc : c.Systematic d p) (hk : calls[k]? = some call)
    (hroom : ∀ call ∈ calls, call.payload.length + 8 ≤ mtu) :
    FitsMtu mtu call.payload (.ok call.packets) := by
  obtain ⟨parity, hp, -⟩ := (h.packets k call hk).packets
  refine ⟨_, parity, congrArg Except.ok hp, ?_, ?_⟩
  · exact sizeField_packetOf _ _ _ (h.packets k call hk).fits
  · intro packet hm
    rw [← hp] at hm
    obtain ⟨payload, hg, hle⟩ := h.packet_size hc hk hm
    obtain ⟨call', hcall, rfl⟩ := mem_groupPayloads hg
    exact Nat.le_trans hle (hroom call' hcall)

theorem encodeAll_fitsMtu (h : Numbered c d p e []) (hc : c.Systematic d p)
    (hroom : ∀ x ∈ inputs, x.1.length + 8 ≤ mtu) (hfit : ∀ x ∈ inputs, x.1.length + 2 ≤ 0xffff) :
    ∃ e' outs, encodeAll e inputs = .ok (e', outs) ∧
      List.Forall₂ (fun x out => FitsMtu mtu x.1 out) inputs outs := by
  have hall : ∃ e' outs, encodeAll e inputs = .ok (e', outs) ∧
      Numbered c d p e' (accepted (inputs.zip outs)) ∧
      (∀ call ∈ accepted (inputs.zip outs), call.payload.length + 8 ≤ mtu) ∧
      ∀ x ∈ inputs.zip outs, FitsMtu mtu x.1.1 x.2 := by
    apply runAll_history (P := fun hist e => Numbered c d p e (accepted hist) ∧
      (∀ call ∈ accepted hist, call.payload.length + 8 ≤ mtu) ∧
      ∀ x ∈ hist, FitsMtu mtu x.1.1 x.2)
    · exact ⟨h, nofun, nofun⟩
    · intro hist t x ⟨hnum, hcalls, hfits⟩ hx
      obtain ⟨t', packets, henc, hnum'⟩ := hnum.encode_ok (hfit x hx) hc x.2
      have hcalls' : ∀ call ∈ accepted hist ++ [⟨x.1, x.2, packets⟩],
          call.payload.length + 8 ≤ mtu := by
        intro call hm
        rcases List.mem_append.mp hm with hm | hm
        · exact hcalls call hm
        · rw [List.mem_singleton.mp hm]
          exact hroom x hx
      refine ⟨t', .ok packets, henc, ?_⟩
      rw [accepted_snoc_ok]
      refine ⟨hnum', hcalls', ?_⟩
      intro y hy
      rcases List.mem_append.mp hy with hy | hy
      · exact hfits y hy
      · rw [List.mem_singleton.mp hy]
        exact hnum'.fits_mtu hc List.getElem?_concat_length hcalls'
  obtain ⟨e', outs, hrun, -, -, hfits⟩ := hall
  refine ⟨e', outs, hrun, List.forall₂_iff_zip.mpr ⟨(runAll_length hrun).symm, ?_⟩⟩
  intro x out hm
  exact hfits (x, out) hm

theorem KcpConfig.kcpMtu_of_enabled {mtu : Nat} (h : config.fec.enabled = true)
    (hm : config.kcpMtu = .ok mtu) : mtu + 8 = config.mtu := by
  rw [KcpConfig.kcpMtu, if_pos h] at hm
  split at hm
  · rename_i hle
    cases hm
    exact Nat.sub_add_cancel hle
  · cases hm

/-- If the longest datagram does not fit the size field, the encoder refuses it at once. -/
theorem KcpConfig.not_mtuWorks (henabled : config.fec.enabled = true)
    (hlarge : 65541 < config.mtu) : ¬config.MtuWorks rs := by
  rintro ⟨mtu, hm, e, -, hworks⟩
  have hsum := KcpConfig.kcpMtu_of_enabled henabled hm
  have hlen : (List.replicate mtu (0 : UInt8)).length = mtu := List.length_replicate
  obtain ⟨e', outs, hrun, hfits⟩ := hworks [(List.replicate mtu 0, 0)] (by
    intro x hx
    rw [List.mem_singleton.mp hx, hlen])
  have hrefused : e.encode (List.replicate mtu 0) 0 =
      .ok (e, .error ⟨.invalidInput, "FEC payload too large"⟩) :=
    e.encode_refused 0 (by omega)
  have hall : encodeAll e [(List.replicate mtu 0, 0)] = .ok (e, [.error _]) :=
    runAll_cons hrefused rfl
  rw [hall] at hrun
  cases hrun
  cases hfits with
  | cons hfit _ =>
    obtain ⟨_, _, he, -⟩ := hfit
    cases he

/-- An accepted MTU works exactly if the longest datagram still fits the size field. -/
theorem accepted_mtu_works_iff (hvalid : config.validate = .ok (.ok ()))
    (henabled : config.fec.enabled = true)
    (hrs : rs config.fec.dataShards config.fec.parityShards = .ok c)
    (hc : c.Systematic config.fec.dataShards config.fec.parityShards) :
    config.MtuWorks rs ↔ config.mtu ≤ 65541 := by
  have hconfig := KcpConfig.valid_of_validate hvalid
  constructor
  · intro hworks
    by_contra hlarge
    exact KcpConfig.not_mtuWorks henabled (Nat.lt_of_not_le hlarge) hworks
  · intro hle
    obtain ⟨mtu, hm, -⟩ := hconfig.mtu
    have hsum := KcpConfig.kcpMtu_of_enabled henabled hm
    obtain ⟨e, he, hnew⟩ :=
      FecEncoder.new_numbered (validateShards_ok_iff.mpr (hconfig.shards henabled)) hrs
    refine ⟨mtu, hm, e, he, ?_⟩
    intro inputs hlen
    apply encodeAll_fitsMtu hnew hc
    · intro x hx
      have hx := hlen x hx
      omega
    · intro x hx
      have hx := hlen x hx
      omega

theorem accepted_mtu_works_two_one :
    ({ fec := ⟨2, 1⟩ } : KcpConfig).MtuWorks reedSolomon ↔ 1400 ≤ 65541 :=
  accepted_mtu_works_iff rfl rfl rfl reedSolomon21_lawful.systematic

/-- One byte more than works: the configuration is accepted, and the longest datagram is refused
by every encoder. -/
theorem accepted_mtu_too_large :
    ({ mtu := 65542, fec := ⟨2, 1⟩ } : KcpConfig).validate = .ok (.ok ()) ∧
    ({ mtu := 65542, fec := ⟨2, 1⟩ } : KcpConfig).kcpMtu = .ok 65534 ∧
    (∀ e now, FecEncoder.encode e (List.replicate 65534 0) now =
      .ok (e, .error ⟨.invalidInput, "FEC payload too large"⟩)) ∧
    ¬({ mtu := 65542, fec := ⟨2, 1⟩ } : KcpConfig).MtuWorks reedSolomon := by
  refine ⟨rfl, rfl, ?_, KcpConfig.not_mtuWorks rfl (by decide)⟩
  intro e now
  apply e.encode_refused
  rw [List.length_replicate]
  decide

end TokioKcp
