import TokioKcp.Listener.Sessions

namespace TokioKcp
set_option autoImplicit true

open Checked Fec ErasureCode Transition Population

variable {κ : Type} {K : KcpCrate κ} {rs : Nat → Nat → Except String ReedSolomon}
variable {config : KcpConfig} {s : System κ} {c : ReedSolomon} {packet : Bytes}
variable {peer : SocketAddr} {draws : RandomDraws} {now : Nat}

theorem System.handleDatagram_panics {panic : Panic} (hW : K.wire.Laws) (hM : K.AcceptsMtu)
    (hc : config.validate = .ok (.ok ()))
    (h : s.handleDatagram K rs config packet peer draws now = .error panic) :
    NoPayload config packet := by
  by_contra hn
  obtain ⟨⟨front, body⟩, hp⟩ := (kcpPacket_returns_iff config packet).mpr hn
  rw [System.handleDatagram, readHeader_eq hW hp] at h
  split at h
  · cases hg : s.get peer with
    | none =>
      rw [hg] at h
      cases h
    | some entry =>
      rw [hg] at h
      cases h
  · split at h
    · cases h
    · obtain ⟨⟨t, result⟩, hget⟩ :=
        s.getOrCreate_returns hc hM rs (convFor draws body) (snOf body) peer now
      rw [ok_bind] at h
      dsimp only at h
      rw [hget, ok_bind] at h
      rcases result with err | ⟨⟨id, session⟩, created⟩
      · cases h
      · cases created with
        | true =>
          dsimp only at h
          split at h
          · cases h
          · cases h
        | false =>
          dsimp only at h
          split at h
          · cases h
          · cases h

theorem System.Descends.decodes (h : s.Descends K rs config) (hcodec : config.CodecIs rs c)
    (hc : c.KeepsShardCount) {session : KcpSession κ} (hs : session ∈ s.arena) :
    session.socket.Decodes c config.fec.dataShards config.fec.parityShards := by
  apply Population.Descends.invariant h (P := fun session : KcpSession κ =>
    session.socket.Decodes c config.fec.dataShards config.fec.parityShards) _ _ hs
  · intro _ _ _ hdecodes _ hstep
    exact hstep.decodes hdecodes hc
  · rintro _ ⟨_, _, _, _, _, hn, rfl⟩
    exact (KcpSocket.new_fresh hn).decodes hcodec

/-- As long as KCP's own functions return, in no reachable state does the listener, one of its
sessions, a stream or the scheduler panic, whatever is received and however the codec fails, but
for the handler of datagrams on one without a payload. What the decoders of the sessions hold
stays bounded throughout. -/
theorem listener_panics_only_without_payload {trace : List (System κ × Event)}
    (hW : K.wire.Laws) (hM : K.AcceptsMtu) (hvalid : config.validate = .ok (.ok ()))
    (hcodec : config.CodecIs rs c) (hc : c.KeepsShardCount)
    (hrun : Run (System.Step K rs config) .new trace s) :
    (∀ event panic, s.next K rs config event = .error panic →
      ∃ packet peer draws now, event = .datagram packet peer draws now ∧
        NoPayload config packet) ∧
    ∀ session ∈ s.arena, ∀ decoder, session.socket.fecDecoder = some decoder →
      DecoderBounds config.fec.dataShards config.fec.parityShards decoder := by
  have hs := System.run_descends hW hrun
  constructor
  · intro event panic h
    cases event with
    | datagram packet peer draws now =>
      refine ⟨packet, peer, draws, now, rfl, ?_⟩
      rw [System.next] at h
      split at h
      · cases h
      · cases hd : s.handleDatagram K rs config packet peer draws now with
        | error panic' => exact System.handleDatagram_panics hW hM hvalid hd
        | ok r =>
          rw [hd] at h
          cases h
    | stream id call now =>
      rw [System.next, System.stream] at h
      split at h
      · rename_i session hget
        split at h
        · have hmem : session ∈ s.arena := List.mem_of_getElem? hget
          obtain ⟨socket, hcall⟩ :=
            (hs.decodes hcodec hc hmem).call_returns (K := K) hc now call.toSocket
          rw [hcall] at h
          cases h
        · cases h
      · cases h
    | ioTask id now =>
      rw [System.next, System.ioTask] at h
      split at h
      · cases h
      · rename_i session hget
        have hmem : session ∈ s.arena := List.mem_of_getElem? hget
        obtain ⟨session', hio⟩ :=
          KcpSession.runIoTask_returns (K := K) (hs.decodes hcodec hc hmem) hc now
        rw [hio] at h
        cases h
    | _ => cases h
  · intro session hmem decoder hd
    exact (hs.decodes hcodec hc hmem decoder hd).2

/-- A listener with a session, in a configuration with a decoder. -/
theorem listener_panics_only_without_payload_small : ∃ trace s,
    trace.map Prod.snd = [.datagram (segment 7 81 0 [65]) ⟨[10, 0, 0, 1], 4000⟩ ⟨[9], rfl⟩ 0] ∧
    Run (System.Step smallKcp reedSolomon (KcpConfig.withFec {} 2 1)) .new trace s ∧
    s.arena.length = 1 ∧
    (∀ event panic, s.next smallKcp reedSolomon (KcpConfig.withFec {} 2 1) event = .error panic →
      ∃ packet peer draws now, event = .datagram packet peer draws now ∧
        NoPayload (KcpConfig.withFec {} 2 1) packet) ∧
    ∀ session ∈ s.arena, ∀ decoder, session.socket.fecDecoder = some decoder →
      DecoderBounds 2 1 decoder := by
  have hreplay : ∃ trace s,
      replay (System.next? smallKcp reedSolomon (KcpConfig.withFec {} 2 1)) .new
        [.datagram (segment 7 81 0 [65]) ⟨[10, 0, 0, 1], 4000⟩ ⟨[9], rfl⟩ 0] =
          some (trace, s) ∧
      trace.map Prod.snd =
        [.datagram (segment 7 81 0 [65]) ⟨[10, 0, 0, 1], 4000⟩ ⟨[9], rfl⟩ 0] ∧
      s.arena.length = 1 := ⟨_, _, rfl, rfl, rfl⟩
  obtain ⟨trace, s, hr, hevents, hlen⟩ := hreplay
  have hrun := run_of_replay
    (fun _ _ _ => System.step_of_next? smallKcp reedSolomon (KcpConfig.withFec {} 2 1)) hr
  exact ⟨trace, s, hevents, hrun, hlen,
    listener_panics_only_without_payload smallWire_laws smallKcp_acceptsMtu rfl (fun _ => rfl)
      reedSolomon21_keepsShardCount hrun⟩

end TokioKcp
