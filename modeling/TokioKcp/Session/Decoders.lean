import TokioKcp.Session.Expiry
import TokioKcp.Socket.Decoding

namespace TokioKcp
set_option autoImplicit true

open Checked Fec Transition

variable {κ : Type}

/-- The decoder of a socket, if it has one, is as its constructor and its own steps leave it. -/
def KcpSocket.Decodes (c : ReedSolomon) (d p : Nat) (self : KcpSocket κ) : Prop :=
  ∀ decoder, self.fecDecoder = some decoder → decoder.Sound c d p ∧ DecoderBounds d p decoder

/-- The codec that the shard counts of the configuration give, if its decoder is on. -/
def KcpConfig.CodecIs (config : KcpConfig) (rs : Nat → Nat → Except String ReedSolomon)
    (c : ReedSolomon) : Prop :=
  config.fec.enabled = true → rs config.fec.dataShards config.fec.parityShards = .ok c

variable {K : KcpCrate κ} {rs : Nat → Nat → Except String ReedSolomon} {config : KcpConfig}
variable {c : ReedSolomon} {d p : Nat} {buf : Bytes} {now : Nat}

theorem FecDecoder.newIfEnabled_sound {decoder : FecDecoder} (hvalid : config.Valid)
    (hcodec : config.CodecIs rs c)
    (h : FecDecoder.newIfEnabled rs config = .ok (.ok (some decoder))) :
    decoder.Sound c config.fec.dataShards config.fec.parityShards ∧
      DecoderBounds config.fec.dataShards config.fec.parityShards decoder := by
  rw [FecDecoder.newIfEnabled] at h
  split at h
  · rename_i he
    obtain ⟨decoder', hnew, hbuilt, hnewest, hempty⟩ :=
      FecDecoder.new_ok (hvalid.shards he) (hcodec he)
    rw [hnew] at h
    cases h
    exact ⟨FecDecoder.sound_of_empty hbuilt hnewest hempty, FecDecoder.bounds_of_empty hempty⟩
  · cases h

theorem KcpSocket.Fresh.decodes {conv : UInt32} {stream : Bool} {s : KcpSocket κ}
    (h : s.Fresh K rs config conv stream now) (hcodec : config.CodecIs rs c) :
    s.Decodes c config.fec.dataShards config.fec.parityShards := by
  intro decoder hd
  have hnew := h.fecDecoder
  rw [hd] at hnew
  exact FecDecoder.newIfEnabled_sound (KcpConfig.valid_of_validate h.valid) hcodec hnew

theorem KcpSocket.Decodes.input_returns {s : KcpSocket κ} (h : s.Decodes c d p)
    (hc : c.KeepsShardCount) (buf : Bytes) (now : Nat) : ∃ r, s.input K buf now = .ok r := by
  rw [KcpSocket.input]
  split
  · rename_i hfec
    obtain ⟨decoder, hd⟩ := Option.isSome_iff_exists.mp (Bool.and_eq_true_iff.mp hfec).1
    have hkeep := (s.inputEach_moves K false now (dataPayload buf).toList).2
    obtain ⟨hsound, hbounds⟩ := h decoder hd
    obtain ⟨decoder', out, hdecode, _⟩ := hsound.decode_step hbounds hc buf
    rw [KcpSocket.inputFec]
    rcases he : s.inputEach K false now (dataPayload buf).toList with ⟨u, err | waked⟩
    · exact ⟨_, rfl⟩
    · rw [he] at hkeep
      dsimp only at hkeep ⊢
      rw [hkeep, hd, unwrap, ok_bind, hdecode, ok_bind]
      cases out with
      | error err => exact ⟨_, rfl⟩
      | ok recovered => exact ⟨_, rfl⟩
  · exact ⟨_, rfl⟩

theorem KcpSocket.Step.no_decoder {s t : KcpSocket κ} {call : SocketCall × Nat}
    (hs : s.fecDecoder = none) (h : s.Step K call t) : t.fecDecoder = none := by
  obtain ⟨call, now⟩ := call
  cases call with
  | input buf =>
    obtain ⟨⟨u, result⟩, hinput, he⟩ := bind_eq_ok.mp h
    cases he
    rw [KcpSocket.input, hs, Option.isSome_none, Bool.false_and, if_neg Bool.false_ne_true]
      at hinput
    have ht : (s.inputKcp K buf now).1 = t := congrArg Prod.fst (Except.ok.inj hinput)
    rw [← ht]
    exact (s.inputKcp_moves K buf now).2.trans hs
  | pollSend waker buf =>
    cases h
    exact ((s.pollSend_moves K waker buf now).decoder rfl).trans hs
  | pollRecv waker len =>
    cases h
    exact (s.pollRecv_decoder K waker len now).trans hs
  | updateAt =>
    cases h
    exact ((s.updateAt_moves K now).decoder rfl).trans hs
  | flush =>
    cases h
    exact ((s.flush_moves K now).decoder rfl).trans hs
  | close =>
    cases h
    exact hs

theorem KcpSocket.Decodes.step {s t : KcpSocket κ} {call : SocketCall × Nat}
    (h : s.Decodes c d p) (hc : c.KeepsShardCount) (hstep : s.Step K call t) :
    t.Decodes c d p := by
  intro next hnext
  cases hs : s.fecDecoder with
  | none =>
    rw [hstep.no_decoder hs] at hnext
    cases hnext
  | some decoder =>
    obtain ⟨hsound, hbounds⟩ := h decoder hs
    rcases hstep.decoder hs with ⟨_, hkept⟩ | ⟨packet, decoder', out, _, hdecode, hgot, _⟩
    · rw [hkept] at hnext
      cases hnext
      exact ⟨hsound, hbounds⟩
    · obtain ⟨decoder'', out', hstep', hsound', hbounds', _⟩ :=
        hsound.decode_step hbounds hc packet
      rw [hdecode] at hstep'
      cases hstep'
      rw [hgot] at hnext
      cases hnext
      exact ⟨hsound', hbounds'⟩

theorem KcpSocket.Decodes.call_returns {s : KcpSocket κ} (h : s.Decodes c d p)
    (hc : c.KeepsShardCount) (now : Nat) (call : SocketCall) :
    ∃ t, s.call K now call = .ok t := by
  cases call with
  | input buf =>
    obtain ⟨r, hr⟩ := h.input_returns (K := K) hc buf now
    rw [KcpSocket.call, hr]
    exact ⟨_, rfl⟩
  | _ => exact ⟨_, rfl⟩

theorem KcpSocket.movedTo_decoder (K : KcpCrate κ) (s : KcpSocket κ) (inputConv : Option UInt32) :
    (s.movedTo K inputConv).fecDecoder = s.fecDecoder := by
  cases inputConv with
  | none => rfl
  | some conv =>
    rw [KcpSocket.movedTo]
    split
    · rfl
    · rfl

theorem KcpSession.recv_returns {s : KcpSession κ} (hW : K.wire.Laws)
    (h : s.socket.Decodes c d p) (hc : c.KeepsShardCount) (recvResult : IoResult Bytes)
    (now : Nat) : ∃ t, s.recv K recvResult now = .ok t := by
  have hdatagram (buf : Bytes) : ∃ t, s.recvDatagram K buf now = .ok t := by
    have hmoved : (s.socket.movedTo K (namedConv buf)).Decodes c d p := by
      intro decoder hd
      rw [KcpSocket.movedTo_decoder] at hd
      exact h decoder hd
    obtain ⟨r, hr⟩ := hmoved.input_returns (K := K) hc buf now
    rw [recvDatagram_eq hW]
    split
    · exact ⟨{ s with socket := r.1 }, bind_eq_ok.mpr ⟨r, hr, rfl⟩⟩
    · exact ⟨_, rfl⟩
  cases recvResult with
  | error err =>
    rw [KcpSession.recv]
    split
    · exact ⟨_, rfl⟩
    · exact ⟨_, rfl⟩
  | ok buf =>
    rw [KcpSession.recv]
    split
    · exact hdatagram buf
    · exact ⟨_, rfl⟩

theorem KcpSession.runIoTask_returns {s : KcpSession κ} (h : s.socket.Decodes c d p)
    (hc : c.KeepsShardCount) (now : Nat) : ∃ t, s.runIoTask K now = .ok t := by
  rw [KcpSession.runIoTask]
  split
  · rename_i inputBuffer rest _ _
    obtain ⟨r, hr⟩ := h.input_returns (K := K) hc inputBuffer now
    rw [hr]
    exact ⟨_, rfl⟩
  · exact ⟨_, rfl⟩

theorem KcpSession.pollSchedulerTick_decodes {s : KcpSession κ} (h : s.socket.Decodes c d p)
    (nowMs : Nat) : (s.pollSchedulerTick K nowMs).1.socket.Decodes c d p := by
  have hdrive := (s.driveUpdate_moves K nowMs).decoder rfl
  rw [KcpSession.pollSchedulerTick]
  split
  · rename_i he
    rw [he] at hdrive
    intro decoder hd
    exact h decoder (hdrive ▸ hd)
  · rename_i he
    rw [he] at hdrive
    intro decoder hd
    exact h decoder (hdrive ▸ hd)

theorem KcpSession.Step.decodes {s t : KcpSession κ} {event : SessionEvent}
    (h : s.socket.Decodes c d p) (hc : c.KeepsShardCount) (hstep : s.Step K event t) :
    t.socket.Decodes c d p := by
  have hinput {u v : KcpSocket κ} {buf : Bytes} {now : Nat} {result : KcpResult Bool}
      (hu : u.fecDecoder = s.socket.fecDecoder) (hv : u.input K buf now = .ok (v, result)) :
      v.Decodes c d p := by
    have hdecodes : u.Decodes c d p := fun decoder hd => h decoder (hu ▸ hd)
    have hcall : u.Step K (.input buf, now) v := bind_eq_ok.mpr ⟨(v, result), hv, rfl⟩
    exact hdecodes.step hc hcall
  cases event with
  | call call now =>
    obtain ⟨socket, hcall, rfl⟩ := hstep
    have hcall : s.socket.Step K (call, now) socket := hcall
    exact h.step hc hcall
  | close =>
    cases hstep
    exact h
  | input buf =>
    change s.input buf = _ at hstep
    rw [KcpSession.input] at hstep
    split at hstep
    · cases hstep
    · split at hstep
      · cases hstep
        exact h
      · cases hstep
  | runIoTask now =>
    change s.runIoTask K now = _ at hstep
    rw [KcpSession.runIoTask] at hstep
    split at hstep
    · obtain ⟨⟨socket, result⟩, hi, hstep⟩ := bind_eq_ok.mp hstep
      cases hstep
      exact hinput rfl hi
    · cases hstep
      exact h
  | recv recvResult now =>
    change s.recv K recvResult now = _ at hstep
    cases recvResult with
    | error err =>
      rw [KcpSession.recv] at hstep
      split at hstep
      · cases hstep
        exact h
      · cases hstep
        exact h
    | ok buf =>
      rw [KcpSession.recv] at hstep
      split at hstep
      · rcases recvDatagram_cases hstep with rfl | ⟨inputConv, socket, result, hi, rfl⟩
        · exact h
        · exact hinput (s.socket.movedTo_decoder K inputConv) hi
      · cases hstep
        exact h
  | tick nowMs =>
    cases hstep
    exact pollSchedulerTick_decodes h nowMs

/-- As long as KCP's own functions return, whatever a session goes through, whatever it receives
and however its codec fails, it never panics. The memory of its decoder stays bounded. -/
theorem session_returns {conv : UInt32} {stream : Bool} {socket : KcpSocket κ}
    {sessionExpire : Option Nat} {notifier : Option SocketAddr} {s : KcpSession κ}
    {trace : List (KcpSession κ × SessionEvent)} (hW : K.wire.Laws)
    (hn : KcpSocket.new K rs config conv stream now = .ok (.ok socket))
    (hcodec : config.CodecIs rs c) (hc : c.KeepsShardCount)
    (hrun : Run (KcpSession.Step K) (.new socket sessionExpire notifier) trace s) :
    (∀ now call, ∃ u, s.socket.call K now call = .ok u) ∧
    (∀ now, ∃ t, s.runIoTask K now = .ok t) ∧
    (∀ recvResult now, ∃ t, s.recv K recvResult now = .ok t) ∧
    ∀ decoder, s.socket.fecDecoder = some decoder →
      DecoderBounds config.fec.dataShards config.fec.parityShards decoder := by
  have hborn := (KcpSocket.new_fresh hn).decodes hcodec
  have h : s.socket.Decodes c config.fec.dataShards config.fec.parityShards :=
    (hrun.invariant (P := fun s : KcpSession κ =>
      s.socket.Decodes c config.fec.dataShards config.fec.parityShards)
      (fun _ _ _ hs hstep => hstep.decodes hs hc) hborn).2
  exact ⟨h.call_returns hc, KcpSession.runIoTask_returns h hc, KcpSession.recv_returns hW h hc,
    fun decoder hd => (h decoder hd).2⟩

/-- A client that received a whole FEC header and nothing else. -/
theorem session_returns_small : ∃ socket s,
    KcpSocket.new smallKcp reedSolomon (KcpConfig.withFec {} 2 1) 9 false 0 = .ok (.ok socket) ∧
    (KcpSession.new socket none none).recv smallKcp (.ok [0, 0, 0, 0, 0xf2, 0]) 0 = .ok s ∧
    (∀ now call, ∃ u, s.socket.call smallKcp now call = .ok u) ∧
    (∀ now, ∃ t, s.runIoTask smallKcp now = .ok t) ∧
    (∀ recvResult now, ∃ t, s.recv smallKcp recvResult now = .ok t) ∧
    ∀ decoder, s.socket.fecDecoder = some decoder → DecoderBounds 2 1 decoder := by
  have hstart : ∃ socket s,
      KcpSocket.new smallKcp reedSolomon (KcpConfig.withFec {} 2 1) 9 false 0 =
        .ok (.ok socket) ∧
      (KcpSession.new socket none none).recv smallKcp (.ok [0, 0, 0, 0, 0xf2, 0]) 0 = .ok s :=
    ⟨_, _, rfl, rfl⟩
  obtain ⟨socket, s, hn, hrecv⟩ := hstart
  have hrun : Run (KcpSession.Step smallKcp) (.new socket none none)
      [(.new socket none none, .recv (.ok [0, 0, 0, 0, 0xf2, 0]) 0)] s := .cons hrecv .nil
  exact ⟨socket, s, hn, hrecv, session_returns smallWire_laws hn (fun _ => rfl)
    reedSolomon21_keepsShardCount hrun⟩

end TokioKcp
