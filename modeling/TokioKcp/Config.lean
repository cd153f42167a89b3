import TokioKcp.Kcp

namespace TokioKcp
set_option autoImplicit true

open Checked Fec

def minKcpMtu : Nat := 50

structure KcpNoDelayConfig where
  nodelay : Bool := false
  interval : Int := 100
  resend : Int := 0
  nc : Bool := false

def KcpNoDelayConfig.normal : KcpNoDelayConfig := ⟨false, 40, 0, false⟩

structure KcpFecConfig where
  dataShards : Nat := 0
  parityShards : Nat := 0

def KcpFecConfig.disabled : KcpFecConfig := ⟨0, 0⟩

def KcpFecConfig.enabled (self : KcpFecConfig) : Bool :=
  decide (0 < self.dataShards) && decide (0 < self.parityShards)

def KcpFecConfig.validate (self : KcpFecConfig) : Exec (IoResult Unit) := do
  if self.dataShards = 0 ∧ self.parityShards = 0 then
    return .ok ()
  if self.dataShards = 0 ∨ self.parityShards = 0 then
    return .error ⟨.invalidInput, "invalid FEC shards"⟩
  let sum ← add 64 self.dataShards self.parityShards
  if sum > 256 then
    return .error ⟨.invalidInput, "invalid FEC shards"⟩
  return .ok ()

/-- `sessionExpire` counts nanoseconds. -/
structure KcpConfig where
  mtu : Nat := 1400
  nodelay : KcpNoDelayConfig := .normal
  wndSize : Nat × Nat := (256, 256)
  sessionExpire : Option Nat := some (90 * 1000000000)
  flushWrite : Bool := false
  flushAcksInput : Bool := false
  stream : Bool := false
  allowRecvEmptyPacket : Bool := false
  fec : KcpFecConfig := .disabled

def KcpConfig.withFec (self : KcpConfig) (dataShards parityShards : Nat) : KcpConfig :=
  { self with fec := ⟨dataShards, parityShards⟩ }

/-- The MTU left for KCP, if there is room for the FEC header. -/
def KcpConfig.kcpMtu (self : KcpConfig) : Except String Nat :=
  if self.fec.enabled then
    if fecHeaderSizePlusSize ≤ self.mtu then .ok (self.mtu - fecHeaderSizePlusSize)
    else .error "MTU too small for FEC header"
  else
    .ok self.mtu

def KcpConfig.validate (self : KcpConfig) : Exec (IoResult Unit) := do
  match ← self.fec.validate with
  | .error err => return .error err
  | .ok () =>
    match self.kcpMtu with
    | .error message => return .error ⟨.invalidInput, message⟩
    | .ok mtu =>
      if mtu < minKcpMtu then
        return .error ⟨.invalidInput, "invalid MTU"⟩
      return .ok ()

def KcpConfig.applyConfig (self : KcpConfig) (K : KcpCrate κ) (k : κ) : Exec κ := do
  expect "invalid KCP config" (← self.validate)
  let mtu ← expect "invalid MTU" self.kcpMtu
  let (k, result) := K.setMtu k mtu
  expect "invalid MTU" result
  let k := K.setNodelay k self.nodelay.nodelay self.nodelay.interval self.nodelay.resend
    self.nodelay.nc
  return K.setWndsize k self.wndSize.1 self.wndSize.2

/-- Configurations that `validate` accepts. -/
structure KcpConfig.Valid (c : KcpConfig) : Prop where
  shards : c.fec.enabled = true → ValidShards c.fec.dataShards c.fec.parityShards
  mtu : ∃ mtu, c.kcpMtu = .ok mtu ∧ minKcpMtu ≤ mtu

theorem KcpFecConfig.enabled_iff {self : KcpFecConfig} :
    self.enabled = true ↔ 0 < self.dataShards ∧ 0 < self.parityShards := by
  rw [KcpFecConfig.enabled, Bool.and_eq_true, decide_eq_true_eq, decide_eq_true_eq]

theorem KcpFecConfig.valid_of_validate {self : KcpFecConfig} (h : self.validate = .ok (.ok ()))
    (he : self.enabled = true) : ValidShards self.dataShards self.parityShards := by
  obtain ⟨hd, hp⟩ := enabled_iff.mp he
  have hz : ¬(self.dataShards = 0 ∧ self.parityShards = 0) := by omega
  rw [KcpFecConfig.validate, if_neg hz] at h
  exact validateShards_ok_iff.mp h

theorem KcpConfig.valid_of_validate {self : KcpConfig} (h : self.validate = .ok (.ok ())) :
    self.Valid := by
  rw [KcpConfig.validate, bind_eq_ok] at h
  obtain ⟨fec, hfec, h⟩ := h
  cases fec with
  | error err => cases h
  | ok _ =>
    cases hm : self.kcpMtu with
    | error message =>
      rw [hm] at h
      cases h
    | ok mtu =>
      rw [hm] at h
      dsimp only at h
      split at h
      · cases h
      · rename_i hmin
        exact ⟨KcpFecConfig.valid_of_validate hfec, mtu, hm, Nat.le_of_not_lt hmin⟩

theorem KcpConfig.applyConfig_ok {self : KcpConfig} {K : KcpCrate κ}
    (h : self.validate = .ok (.ok ())) (hK : K.AcceptsMtu) (k : κ) :
    ∃ k' mtu, self.applyConfig K k = .ok k' ∧ k' =
      K.setWndsize (K.setNodelay (K.setMtu k mtu).1 self.nodelay.nodelay self.nodelay.interval
        self.nodelay.resend self.nodelay.nc) self.wndSize.1 self.wndSize.2 := by
  obtain ⟨mtu, hm, hmin⟩ := (KcpConfig.valid_of_validate h).mtu
  obtain ⟨k', hk⟩ := hK k mtu hmin
  refine ⟨_, mtu, ?_, rfl⟩
  simp only [KcpConfig.applyConfig, h, hm, hk, expect_ok, ok_bind]
  rfl

theorem KcpConfig.applyConfig_eq {self : KcpConfig} {K : KcpCrate κ}
    (h : self.applyConfig K k = .ok l) : ∃ mtu, minKcpMtu ≤ mtu ∧ l =
      K.setWndsize (K.setNodelay (K.setMtu k mtu).1 self.nodelay.nodelay self.nodelay.interval
        self.nodelay.resend self.nodelay.nc) self.wndSize.1 self.wndSize.2 := by
  obtain ⟨valid, hvalid, h⟩ := bind_eq_ok.mp h
  cases valid with
  | error err => cases h
  | ok _ =>
    obtain ⟨_, _, h⟩ := bind_eq_ok.mp h
    obtain ⟨mtu, hmtu, h⟩ := bind_eq_ok.mp h
    obtain ⟨_, _, h⟩ := bind_eq_ok.mp h
    obtain ⟨mtu', hm, hmin⟩ := (KcpConfig.valid_of_validate hvalid).mtu
    rw [hm, expect_ok] at hmtu
    cases hmtu
    cases h
    exact ⟨mtu, hmin, rfl⟩

theorem KcpConfig.applyConfig_keepsConv {self : KcpConfig} {K : KcpCrate κ} (hK : K.ConvLaws)
    (h : self.applyConfig K k = .ok l) : K.KeepsConv k l := by
  obtain ⟨mtu, _, rfl⟩ := KcpConfig.applyConfig_eq h
  exact ((hK.setMtu k mtu).trans (hK.setNodelay _ _ _ _ _)).trans (hK.setWndsize _ _ _)

theorem default_validate (nodelay : KcpNoDelayConfig) :
    ({ nodelay := nodelay } : KcpConfig).validate = .ok (.ok ()) := rfl

end TokioKcp
