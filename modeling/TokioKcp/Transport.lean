import TokioKcp.Fec.Gathering
import TokioKcp.Output
import TokioKcp.Socket.Payloads

namespace TokioKcp
set_option autoImplicit true

open Checked Fec ErasureCode Transition

/-- One direction of a connection: the output of one side, the datagrams that it has sent, and the
socket of the other side. -/
structure Transport (κ : Type) where
  pipe : OutputPipe
  network : List Bytes
  socket : KcpSocket κ

inductive TransportEvent where
  | output (event : OutputEvent)
  | deliver (packet : Bytes) (now : Nat)
  | call (call : SocketCall) (now : Nat)

variable {κ : Type}

/-- The network delivers what was sent, any number of times and in any order, or never. -/
inductive Transport.Step (K : KcpCrate κ) (s : Transport κ) :
    TransportEvent → Transport κ → Prop where
  | output (h : s.pipe.next event = .ok (pipe', packets)) :
      Step K s (.output event) { s with pipe := pipe', network := s.network ++ packets }
  | deliver (hsent : packet ∈ s.network) (h : s.socket.Step K (.input packet, now) socket') :
      Step K s (.deliver packet now) { s with socket := socket' }
  | call (hcall : ∀ packet, call ≠ .input packet) (h : s.socket.Step K (call, now) socket') :
      Step K s (.call call now) { s with socket := socket' }

def Transport.next? (K : KcpCrate κ) (s : Transport κ) : TransportEvent → Option (Transport κ)
  | .output event => (s.pipe.next event).toOption.map fun (pipe, packets) =>
    { s with pipe := pipe, network := s.network ++ packets }
  | .deliver packet now =>
    if packet ∈ s.network then
      (s.socket.call K now (.input packet)).toOption.map fun socket => { s with socket := socket }
    else
      none
  | .call (.input _) _ => none
  | .call call now =>
    (s.socket.call K now call).toOption.map fun socket => { s with socket := socket }

def Transport.writes : Transport κ × TransportEvent → List Bytes
  | (s, .output event) => OutputPipe.puts (s.pipe, event)
  | _ => []

def Transport.takes : Transport κ × TransportEvent → List (Bytes × Nat)
  | (s, .output event) => OutputPipe.takes (s.pipe, event)
  | _ => []

/-- Without FEC: everything on its way was written. -/
structure Transport.Plain (written : List Bytes) (s : Transport κ) : Prop where
  encoder : s.pipe.task.fecEncoder = none
  decoder : s.socket.fecDecoder = none
  waiting : s.pipe.output.postTx ⊆ written
  network : s.network ⊆ written

/-- With FEC: the encoder's calls had payloads that were written, the network has packets of
these calls, and the decoder holds shards of them. -/
structure Transport.Coded (c : ReedSolomon) (d p : Nat) (calls : List Call) (written : List Bytes)
    (s : Transport κ) : Prop where
  encoder : ∃ e, s.pipe.task.fecEncoder = some e ∧ Numbered c d p e calls
  decoder : ∃ decoder, s.socket.fecDecoder = some decoder ∧
    Gathers c d p (groupPayloads d calls) decoder
  waiting : s.pipe.output.postTx ⊆ written
  payloads : calls.map Call.payload ⊆ written
  network : ∀ packet ∈ s.network, ∃ q, (q, packet) ∈ numbered d (d + p) calls

variable {K : KcpCrate κ} {rs : Nat → Nat → Except String ReedSolomon} {config : KcpConfig}
variable {c : ReedSolomon} {d p q : Nat} {s t : Transport κ} {event : TransportEvent}
variable {calls : List Call} {written : List Bytes} {packet : Bytes} {e : FecEncoder}
variable {out : IoResult EncodedPackets} {trace : List (Transport κ × TransportEvent)}

theorem OutputPipe.Acts.waiting {s t : OutputPipe} {event : OutputEvent} {packets : List Bytes}
    (h : s.Acts event t packets) (hs : s.output.postTx ⊆ written) :
    t.output.postTx ⊆ written ++ OutputPipe.puts (s, event) := by
  cases h with
  | @queued buf hopen hroom =>
    have hputs : OutputPipe.puts (s, .write buf) = [buf] := if_pos ⟨hopen, hroom⟩
    rw [hputs]
    exact List.append_subset.mpr
      ⟨List.subset_append_of_subset_left _ hs, List.subset_append_right _ _⟩
  | dropped h => exact List.subset_append_of_subset_left _ hs
  | sent hopen hq hsend =>
    rw [hq] at hs
    exact List.subset_append_of_subset_left _ (List.Subset.trans (List.subset_cons_self _ _) hs)
  | idle h => exact List.subset_append_of_subset_left _ hs
  | ended => exact List.nil_subset _

theorem KcpSocket.handed_input {s : KcpSocket κ} {packet' : Bytes}
    (h : s.handed K (.input packet, now) = some packet') : packet' = packet := by
  rw [KcpSocket.handed] at h
  split at h
  · cases h
    rfl
  · cases h

theorem Transport.Plain.step (h : s.Plain written) (hstep : s.Step K event t) :
    t.Plain (written ++ Transport.writes (s, event)) := by
  cases hstep with
  | output hnext =>
    have hacts := OutputPipe.acts hnext
    obtain ⟨hencoder, hpackets⟩ := hacts.sendsPlain h.encoder
    refine ⟨hencoder, h.decoder, hacts.waiting h.waiting, ?_⟩
    apply List.append_subset.mpr ⟨List.subset_append_of_subset_left _ h.network, ?_⟩
    rw [hpackets]
    exact List.subset_append_of_subset_left _
      (List.Subset.trans (OutputPipe.takes_subset _ _) h.waiting)
  | deliver hsent hcall =>
    refine ⟨h.encoder, hcall.no_decoder h.decoder, ?_, ?_⟩
    · exact List.subset_append_of_subset_left _ h.waiting
    · exact List.subset_append_of_subset_left _ h.network
  | call hcall hstep =>
    refine ⟨h.encoder, hstep.no_decoder h.decoder, ?_, ?_⟩
    · exact List.subset_append_of_subset_left _ h.waiting
    · exact List.subset_append_of_subset_left _ h.network

theorem Transport.Coded.delivered (h : s.Coded c d p calls written) (hc : c.Lawful d p)
    (hlap : calls.length ≤ lapGroups (d + p) * d) (hsent : packet ∈ s.network)
    {socket : KcpSocket κ} (hcall : s.socket.Step K (.input packet, now) socket) :
    ∃ decoder, socket.fecDecoder = some decoder ∧
      Gathers c d p (groupPayloads d calls) decoder := by
  obtain ⟨e, _, hn⟩ := h.encoder
  obtain ⟨decoder, hd, hgathers⟩ := h.decoder
  obtain ⟨q, hm⟩ := h.network packet hsent
  rcases hcall.decoder hd with ⟨_, hkept⟩ | ⟨packet', decoder', out, hgot, hdecode, hnext, _⟩
  · exact ⟨decoder, hkept, hgathers⟩
  · obtain ⟨decoder'', out', hdecode', hgathers', _⟩ :=
      hgathers.deliver hn hc hm (hn.lt_paws hc.systematic hlap hm)
    have hpacket : packet' = packet := KcpSocket.handed_input hgot
    rw [hpacket, hdecode'] at hdecode
    cases hdecode
    exact ⟨decoder', hnext, hgathers'⟩

theorem Transport.Coded.called (h : s.Coded c d p calls written) {socket : KcpSocket κ}
    (hcall : ∀ packet, call ≠ .input packet) (hstep : s.socket.Step K (call, now) socket) :
    ∃ decoder, socket.fecDecoder = some decoder ∧
      Gathers c d p (groupPayloads d calls) decoder := by
  obtain ⟨decoder, hd, hgathers⟩ := h.decoder
  rcases hstep.decoder hd with ⟨_, hkept⟩ | ⟨packet, _, _, hgot, _⟩
  · exact ⟨decoder, hkept, hgathers⟩
  · cases call with
    | input packet => exact absurd rfl (hcall packet)
    | _ => cases hgot

theorem Transport.Coded.output (h : s.Coded c d p calls written) (hc : c.Systematic d p)
    {event : OutputEvent} {pipe : OutputPipe} {packets : List Bytes}
    (hnext : s.pipe.next event = .ok (pipe, packets)) :
    ∃ more, more.length ≤ (OutputPipe.takes (s.pipe, event)).length ∧
      ({ s with pipe := pipe, network := s.network ++ packets } : Transport κ).Coded c d p
        (calls ++ more) (written ++ OutputPipe.puts (s.pipe, event)) := by
  have hacts := OutputPipe.acts hnext
  have hwaiting := hacts.waiting h.waiting
  obtain ⟨e, he, hn⟩ := h.encoder
  obtain ⟨decoder, hd, hgathers⟩ := h.decoder
  have hsame (hpackets : packets = []) (htask : pipe.task = s.pipe.task) :
      ∃ more, more.length ≤ (OutputPipe.takes (s.pipe, event)).length ∧
        ({ s with pipe := pipe, network := s.network ++ packets } : Transport κ).Coded c d p
          (calls ++ more) (written ++ OutputPipe.puts (s.pipe, event)) := by
    refine ⟨[], Nat.zero_le _, ?_⟩
    rw [List.append_nil, hpackets, List.append_nil]
    refine ⟨⟨e, htask ▸ he, hn⟩, h.decoder, hwaiting, ?_, h.network⟩
    exact List.subset_append_of_subset_left _ h.payloads
  cases hacts with
  | queued hopen hroom => exact hsame rfl rfl
  | dropped hfull => exact hsame rfl rfl
  | @sent buf postTx now task packets hopen hq hsend =>
    obtain ⟨e', out, hencode, hn'⟩ := FecEncoder.encode_numbered hn hc buf now
    rw [UdpOutputTask.send_some he hencode] at hsend
    cases hsend
    have htakes : OutputPipe.takes (s.pipe, .runTask now) = [(buf, now)] := by
      rw [OutputPipe.takes, if_pos hopen, hq]
      rfl
    obtain ⟨hpayload, hone⟩ := accepted_singleton buf now out
    refine ⟨accepted [((buf, now), out)], ?_, ?_⟩
    · rw [htakes]
      exact hone
    · refine ⟨⟨e', rfl, hn'⟩, ⟨decoder, hd, hgathers.append _⟩, hwaiting, ?_, ?_⟩
      · have hbuf : [buf] ⊆ written := by
          have hmem : buf ∈ s.pipe.output.postTx := by
            rw [hq]
            exact List.mem_cons_self
          exact List.cons_subset.mpr ⟨h.waiting hmem, List.nil_subset _⟩
        rw [List.map_append]
        exact List.subset_append_of_subset_left _
          (List.append_subset.mpr ⟨h.payloads, List.Subset.trans hpayload hbuf⟩)
      · intro packet hm
        rcases List.mem_append.mp hm with hm | hm
        · obtain ⟨q, hq⟩ := h.network packet hm
          exact ⟨q, numbered_append hq _⟩
        · exact numbered_last hm
  | idle hidle => exact hsame rfl rfl
  | ended => exact hsame rfl rfl

theorem Transport.Coded.step (h : s.Coded c d p calls written) (hc : c.Lawful d p)
    (hlap : calls.length ≤ lapGroups (d + p) * d) (hstep : s.Step K event t) :
    ∃ more, more.length ≤ (Transport.takes (s, event)).length ∧
      t.Coded c d p (calls ++ more) (written ++ Transport.writes (s, event)) := by
  have hsame {socket : KcpSocket κ} (hdecoder : ∃ decoder, socket.fecDecoder = some decoder ∧
      Gathers c d p (groupPayloads d calls) decoder) :
      ({ s with socket := socket } : Transport κ).Coded c d p (calls ++ []) (written ++ []) := by
    rw [List.append_nil, List.append_nil]
    exact ⟨h.encoder, hdecoder, h.waiting, h.payloads, h.network⟩
  cases hstep with
  | output hnext => exact h.output hc.systematic hnext
  | deliver hsent hcall => exact ⟨[], Nat.le_refl _, hsame (h.delivered hc hlap hsent hcall)⟩
  | call hcall hstep => exact ⟨[], Nat.le_refl _, hsame (h.called hcall hstep)⟩

/-- As long as no more buffers are taken than a lap has data packets for, a run stays coded. -/
theorem Transport.Coded.run (h : s.Coded c d p calls written) (hc : c.Lawful d p)
    (hrun : Run (Transport.Step K) s trace t)
    (hlap : calls.length + (trace.flatMap Transport.takes).length ≤ lapGroups (d + p) * d) :
    ∃ calls', calls'.length ≤ lapGroups (d + p) * d ∧
      t.Coded c d p calls' (written ++ trace.flatMap Transport.writes) := by
  induction hrun generalizing calls written with
  | nil =>
    rw [List.flatMap_nil, List.append_nil]
    exact ⟨calls, Nat.le_of_add_right_le hlap, h⟩
  | cons hstep _ ih =>
    rw [List.flatMap_cons, List.length_append] at hlap
    obtain ⟨more, hmore, h'⟩ := h.step hc (by omega) hstep
    rw [List.flatMap_cons, ← List.append_assoc]
    apply ih h'
    rw [List.length_append]
    omega

theorem Transport.Plain.run (h : s.Plain written) (hrun : Run (Transport.Step K) s trace t) :
    t.Plain (written ++ trace.flatMap Transport.writes) := by
  induction hrun generalizing written with
  | nil =>
    rw [List.flatMap_nil, List.append_nil]
    exact h
  | cons hstep _ ih =>
    rw [List.flatMap_cons, ← List.append_assoc]
    exact ih (h.step hstep)

theorem FecDecoder.newIfEnabled_gathers {o : Option FecDecoder} (hvalid : config.Valid)
    (hcodec : config.CodecIs rs c) (he : config.fec.enabled = true)
    (h : FecDecoder.newIfEnabled rs config = .ok (.ok o)) (payloads : Nat → List Bytes) :
    ∃ decoder, o = some decoder ∧
      Gathers c config.fec.dataShards config.fec.parityShards payloads decoder := by
  obtain ⟨decoder, hnew, hb, hn, hempty⟩ := FecDecoder.new_ok (hvalid.shards he) (hcodec he)
  rw [FecDecoder.newIfEnabled, if_pos he, hnew] at h
  cases h
  exact ⟨decoder, rfl, gathers_of_empty hb hn hempty payloads⟩

theorem KcpSocket.takes_offered {s : KcpSocket κ} {r : KcpSocket κ × KcpResult Bool}
    (h : s.input K packet now = .ok r) (hwritten : s.offered packet ⊆ written) :
    ∃ t result bufs, s.input K packet now = .ok (t, result) ∧
      t.kcp = K.takes s.flushAckInput s.kcp bufs ∧ bufs ⊆ written :=
  ⟨r.1, r.2, s.offered packet, h, KcpSocket.input_kcp h, hwritten⟩

theorem Transport.Plain.delivers (h : s.Plain written) (hsent : packet ∈ s.network) (now : Nat) :
    ∃ t result bufs, s.socket.input K packet now = .ok (t, result) ∧
      t.kcp = K.takes s.socket.flushAckInput s.socket.kcp bufs ∧ bufs ⊆ written := by
  have hinput : s.socket.input K packet now = .ok (s.socket.inputKcp K packet now) := by
    rw [KcpSocket.input, h.decoder]
    rfl
  apply KcpSocket.takes_offered hinput
  rw [KcpSocket.offered, h.decoder]
  exact List.cons_subset.mpr ⟨h.network hsent, List.nil_subset _⟩

theorem Transport.Coded.delivers (h : s.Coded c d p calls written) (hc : c.Lawful d p)
    (hlap : calls.length ≤ lapGroups (d + p) * d) (hsent : packet ∈ s.network) (now : Nat) :
    ∃ t result bufs, s.socket.input K packet now = .ok (t, result) ∧
      t.kcp = K.takes s.socket.flushAckInput s.socket.kcp bufs ∧ bufs ⊆ written := by
  obtain ⟨e, _, hn⟩ := h.encoder
  obtain ⟨decoder, hd, hgathers⟩ := h.decoder
  obtain ⟨q, hm⟩ := h.network packet hsent
  have hfec := hn.isFecPacket hc.systematic hm
  obtain ⟨decoder', out, hdecode, _, hout⟩ :=
    hgathers.deliver hn hc hm (hn.lt_paws hc.systematic hlap hm)
  obtain ⟨t, result, hinput, _⟩ := KcpSocket.inputFec_records (K := K) hd hdecode now
  have hinput : s.socket.input K packet now = .ok (t, result) := by
    rw [KcpSocket.input, hd, hfec]
    exact hinput
  apply KcpSocket.takes_offered hinput
  rw [KcpSocket.offered_eq hd hfec hdecode]
  intro buf hbuf
  obtain ⟨call, hcall, rfl⟩ := hout buf hbuf
  exact h.payloads (List.mem_map_of_mem hcall)

/-- Whatever the network loses, repeats or reorders, and whatever else the other side does: no
datagram makes its socket panic, and its KCP takes nothing but buffers that this side's KCP
wrote, as long as the packet numbers have not wrapped. -/
theorem payloads_written {conv : UInt32} {stream : Bool} {socket : KcpSocket κ}
    {output : UdpOutput} {task : UdpOutputTask} {start : Nat}
    (hn : UdpOutput.new rs config = .ok (.ok (output, task)))
    (hs : KcpSocket.new K rs config conv stream start = .ok (.ok socket))
    (hcodec : config.CodecIs rs c)
    (hc : config.fec.enabled = true → c.Lawful config.fec.dataShards config.fec.parityShards)
    (hrun : Run (Transport.Step K) ⟨⟨output, task⟩, [], socket⟩ trace s)
    (hlap : config.fec.enabled = true → (trace.flatMap Transport.takes).length ≤
      lapGroups (config.fec.dataShards + config.fec.parityShards) * config.fec.dataShards) :
    ∀ packet ∈ s.network, ∀ now, ∃ t result bufs,
      s.socket.input K packet now = .ok (t, result) ∧
      t.kcp = K.takes s.socket.flushAckInput s.socket.kcp bufs ∧
      bufs ⊆ trace.flatMap Transport.writes := by
  intro packet hsent now
  have hfresh := KcpSocket.new_fresh hs
  have hvalid := KcpConfig.valid_of_validate hfresh.valid
  obtain ⟨rfl, hsome, hnumbers⟩ := UdpOutput.new_numbers hvalid hcodec hn
  by_cases he : config.fec.enabled = true
  · rw [he] at hsome
    obtain ⟨encoder, hencoder⟩ := Option.isSome_iff_exists.mp hsome
    have hstart : Transport.Coded c config.fec.dataShards config.fec.parityShards [] []
        ⟨⟨⟨[], false⟩, task⟩, [], socket⟩ :=
      ⟨⟨encoder, hencoder, hnumbers encoder hencoder⟩,
        FecDecoder.newIfEnabled_gathers hvalid hcodec he hfresh.fecDecoder _,
        List.Subset.refl _, List.Subset.refl _, fun _ hm => absurd hm List.not_mem_nil⟩
    obtain ⟨calls, hcalls, hlast⟩ := hstart.run (hc he) hrun (by
      rw [List.length_nil, Nat.zero_add]
      exact hlap he)
    exact hlast.delivers (hc he) hcalls hsent now
  · have hnone : socket.fecDecoder = none := by
      have hnew := hfresh.fecDecoder
      rw [FecDecoder.newIfEnabled, if_neg he] at hnew
      exact (Except.ok.inj (Except.ok.inj hnew)).symm
    have hstart : Transport.Plain [] ⟨⟨⟨[], false⟩, task⟩, [], socket⟩ := by
      refine ⟨?_, hnone, List.Subset.refl _, List.Subset.refl _⟩
      rw [← Option.not_isSome_iff_eq_none, hsome]
      exact he
    exact (hstart.run hrun).delivers hsent now

theorem Transport.step_of_next? (h : s.next? K event = some t) : s.Step K event t := by
  have hcalled {call : SocketCall} {now : Nat} (hcall : ∀ packet, call ≠ .input packet)
      (h : ((s.socket.call K now call).toOption.map fun socket =>
        { s with socket := socket }) = some t) : s.Step K (.call call now) t := by
    obtain ⟨socket, hs, rfl⟩ := Option.map_eq_some_iff.mp h
    exact .call hcall (eq_ok_of_toOption hs)
  cases event with
  | output event =>
    obtain ⟨⟨pipe, packets⟩, hnext, rfl⟩ := Option.map_eq_some_iff.mp h
    exact .output (eq_ok_of_toOption hnext)
  | deliver packet now =>
    rw [Transport.next?] at h
    split at h
    · rename_i hsent
      obtain ⟨socket, hs, rfl⟩ := Option.map_eq_some_iff.mp h
      exact .deliver hsent (eq_ok_of_toOption hs)
    · cases h
  | call call now =>
    cases call with
    | input packet => cases h
    | _ => exact hcalled (fun packet he => by cases he) h

def smallData : Bytes := packetOf (pawsOf 3) 1 typeData (dataBody (segment 1 81 1 [66]))

def smallParity : Bytes :=
  packetOf (pawsOf 3) 2 typeParity
    (parityOf (dataBody (segment 1 81 0 [65])) (dataBody (segment 1 81 1 [66])))

/-- Two payloads make a group whose first packet is lost. The parity packet comes twice, and then
the second packet lets the other side recover the first payload. -/
theorem payloads_written_small : ∃ output task socket trace s packet,
    UdpOutput.new reedSolomon (KcpConfig.withFec {} 2 1) = .ok (.ok (output, task)) ∧
    KcpSocket.new smallKcp reedSolomon (KcpConfig.withFec {} 2 1) 1 false 0 = .ok (.ok socket) ∧
    Run (Transport.Step smallKcp) ⟨⟨output, task⟩, [], socket⟩ trace s ∧ packet ∈ s.network ∧
    trace.flatMap Transport.writes = [segment 1 81 0 [65], segment 1 81 1 [66]] ∧
    s.socket.offered packet = [segment 1 81 1 [66], segment 1 81 0 [65]] ∧
    ∀ now, ∃ t result bufs, s.socket.input smallKcp packet now = .ok (t, result) ∧
      t.kcp = smallKcp.takes s.socket.flushAckInput s.socket.kcp bufs ∧
      bufs ⊆ trace.flatMap Transport.writes := by
  have hreplay : ∃ output task socket trace s,
      UdpOutput.new reedSolomon (KcpConfig.withFec {} 2 1) = .ok (.ok (output, task)) ∧
      KcpSocket.new smallKcp reedSolomon (KcpConfig.withFec {} 2 1) 1 false 0 =
        .ok (.ok socket) ∧
      replay (Transport.next? smallKcp) (⟨⟨output, task⟩, [], socket⟩ : Transport SmallKcp)
        [.output (.write (segment 1 81 0 [65])), .output (.write (segment 1 81 1 [66])),
          .output (.runTask 0), .output (.runTask 0), .deliver smallParity 1,
          .deliver smallParity 2] = some (trace, s) ∧
      smallData ∈ s.network ∧
      trace.flatMap Transport.writes = [segment 1 81 0 [65], segment 1 81 1 [66]] ∧
      (trace.flatMap Transport.takes).length = 2 ∧
      s.socket.offered smallData = [segment 1 81 1 [66], segment 1 81 0 [65]] :=
    ⟨_, _, _, _, _, rfl, rfl, rfl, by decide, rfl, rfl, rfl⟩
  obtain ⟨output, task, socket, trace, s, hn, hs, hr, hsent, hwrites, htakes, hoffered⟩ := hreplay
  have hrun := run_of_replay (fun _ _ _ => Transport.step_of_next?) hr
  refine ⟨output, task, socket, trace, s, smallData, hn, hs, hrun, hsent, hwrites, hoffered, ?_⟩
  have h := payloads_written hn hs (fun _ => rfl) (fun _ => reedSolomon21_lawful) hrun (fun _ => by
    rw [htakes]
    decide)
  exact h smallData hsent

end TokioKcp
