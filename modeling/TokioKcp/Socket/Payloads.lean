import TokioKcp.Socket.Readers
import TokioKcp.Socket.Decoding
import TokioKcp.Fec.NumberingInvariant

namespace TokioKcp
set_option autoImplicit true

open Checked Fec

variable {κ : Type} {K : KcpCrate κ} {k : κ} {log : List Bytes} {flushAck : Bool} {buf : Bytes}
variable {bufs rest : List Bytes}

/-- The crate with a state beside its control block, which `input` and the functions that write
to the output change. -/
def KcpCrate.beside (K : KcpCrate κ) (init : σ) (input : κ → Bytes → σ → σ) (emit : σ → σ) :
    KcpCrate (κ × σ) where
  wire := K.wire
  new conv output := (K.new conv output, init)
  newStream conv output := (K.newStream conv output, init)
  setMtu k mtu := (((K.setMtu k.1 mtu).1, k.2), (K.setMtu k.1 mtu).2)
  setNodelay k nodelay interval resend nc := (K.setNodelay k.1 nodelay interval resend nc, k.2)
  setWndsize k snd rcv := (K.setWndsize k.1 snd rcv, k.2)
  mss k := K.mss k.1
  inputConv k := (K.inputConv k.1, k.2)
  update k now := (((K.update k.1 now).1, emit k.2), (K.update k.1 now).2)
  check k now := K.check k.1 now
  input k buf := (((K.input k.1 buf).1, input k.1 buf k.2), (K.input k.1 buf).2)
  send k buf := (((K.send k.1 buf).1, k.2), (K.send k.1 buf).2)
  recv k len := (((K.recv k.1 len).1, k.2), (K.recv k.1 len).2)
  peeksize k := K.peeksize k.1
  flush k := (((K.flush k.1).1, emit k.2), (K.flush k.1).2)
  flushAck k := (((K.flushAck k.1).1, emit k.2), (K.flushAck k.1).2)
  waitSnd k := K.waitSnd k.1
  sndWnd k := K.sndWnd k.1
  rmtWnd k := K.rmtWnd k.1
  waitingConv k := K.waitingConv k.1
  conv k := K.conv k.1
  setConv k conv := (K.setConv k.1 conv, k.2)

/-- The crate with a record of the buffers that its `input` is given. -/
def KcpCrate.recording (K : KcpCrate κ) : KcpCrate (κ × List Bytes) :=
  K.beside [] (fun _ buf log => log ++ [buf]) id

def KcpSocket.withKcp (s : KcpSocket κ) (kcp : κ') : KcpSocket κ' := { s with kcp := kcp }

def KcpSocket.erase (s : KcpSocket (κ × List Bytes)) : KcpSocket κ := s.withKcp s.kcp.1

/-- The input of a datagram, with the payloads that KCP is offered in it, in order. -/
def KcpSocket.inputRecorded (K : KcpCrate κ) (s : KcpSocket κ) (buf : Bytes) (now : Nat) :
    Exec (KcpSocket κ × List Bytes × KcpResult Bool) := do
  let (t, result) ← (s.withKcp (s.kcp, [])).input K.recording buf now
  return (t.erase, t.kcp.2, result)

/-- KCP refuses one of the payloads when it is given them in turn. -/
def KcpCrate.refuses (K : KcpCrate κ) (flushAck : Bool) : κ → List Bytes → Bool
  | _, [] => false
  | k, buf :: rest =>
    match K.judge flushAck k buf with
    | (_, .refused) => true
    | (k, _) => K.refuses flushAck k rest

/-- The payloads up to the first that KCP refuses, with that one. -/
def KcpCrate.reached (K : KcpCrate κ) (flushAck : Bool) : κ → List Bytes → List Bytes
  | _, [] => []
  | k, buf :: rest =>
    match K.judge flushAck k buf with
    | (_, .refused) => [buf]
    | (k, _) => buf :: K.reached flushAck k rest

theorem KcpCrate.recording_judge (K : KcpCrate κ) (flushAck : Bool) (k : κ) (log : List Bytes)
    (buf : Bytes) : K.recording.judge flushAck (k, log) buf =
      (((K.judge flushAck k buf).1, log ++ [buf]), (K.judge flushAck k buf).2) := by
  rcases hi : K.input k buf with ⟨l, err | n⟩
  · simp only [KcpCrate.judge, KcpCrate.recording, KcpCrate.beside, hi]
    cases err <;> rfl
  · simp only [KcpCrate.judge, KcpCrate.recording, KcpCrate.beside, hi]
    split
    · rcases hf : K.flushAck l with ⟨m, err | _⟩
      · rfl
      · rfl
    · rfl

theorem KcpCrate.recording_takes (K : KcpCrate κ) (flushAck : Bool) (k : κ) (log : List Bytes)
    (bufs : List Bytes) : (K.recording.takes flushAck (k, log) bufs).2 =
      log ++ K.reached flushAck k bufs := by
  induction bufs generalizing k log with
  | nil => exact (List.append_nil log).symm
  | cons buf bufs ih =>
    rw [KcpCrate.takes, KcpCrate.reached, K.recording_judge]
    rcases K.judge flushAck k buf with ⟨l, verdict⟩
    cases verdict with
    | refused => rfl
    | ignored => exact (ih l _).trans (List.append_assoc ..)
    | accepted => exact (ih l _).trans (List.append_assoc ..)

theorem KcpCrate.recording_refuses (K : KcpCrate κ) (flushAck : Bool) (k : κ)
    (log : List Bytes) (bufs : List Bytes) :
    K.recording.refuses flushAck (k, log) bufs = K.refuses flushAck k bufs := by
  induction bufs generalizing k log with
  | nil => rfl
  | cons buf bufs ih =>
    rw [KcpCrate.refuses, KcpCrate.refuses, K.recording_judge]
    rcases K.judge flushAck k buf with ⟨l, verdict⟩
    cases verdict with
    | refused => rfl
    | ignored => exact ih l _
    | accepted => exact ih l _

theorem KcpCrate.intake_refused (K : KcpCrate κ) (queue : κ → List Bytes)
    (allowEmpty flushAck : Bool) (k : κ) (bufs : List Bytes) :
    (K.intake queue allowEmpty flushAck k bufs).refused = K.refuses flushAck k bufs := by
  induction bufs generalizing k with
  | nil => rfl
  | cons buf bufs ih =>
    rw [KcpCrate.intake, KcpCrate.refuses]
    rcases K.judge flushAck k buf with ⟨l, verdict⟩
    cases verdict with
    | refused => rfl
    | ignored => exact ih l
    | accepted => exact ih l

theorem KcpCrate.takes_append (h : K.refuses flushAck k bufs = false) :
    K.takes flushAck k (bufs ++ rest) = K.takes flushAck (K.takes flushAck k bufs) rest := by
  induction bufs generalizing k with
  | nil => rfl
  | cons buf bufs ih =>
    rw [KcpCrate.refuses] at h
    rw [List.cons_append, KcpCrate.takes, KcpCrate.takes]
    rcases hj : K.judge flushAck k buf with ⟨l, verdict⟩
    rw [hj] at h
    cases verdict with
    | refused => cases h
    | ignored => exact ih h
    | accepted => exact ih h

theorem KcpCrate.reached_initial (K : KcpCrate κ) (flushAck : Bool) (k : κ) (bufs : List Bytes) :
    K.reached flushAck k bufs <+: bufs := by
  induction bufs generalizing k with
  | nil => exact List.prefix_refl []
  | cons buf bufs ih =>
    rw [KcpCrate.reached]
    rcases K.judge flushAck k buf with ⟨l, verdict⟩
    cases verdict with
    | refused => exact ⟨bufs, rfl⟩
    | ignored => exact (List.prefix_cons_inj buf).mpr (ih l)
    | accepted => exact (List.prefix_cons_inj buf).mpr (ih l)

/-- All payloads are reached unless one before the last is refused. -/
theorem KcpCrate.reached_eq_iff (K : KcpCrate κ) (flushAck : Bool) (k : κ) (bufs : List Bytes) :
    K.reached flushAck k bufs = bufs ↔ K.refuses flushAck k bufs.dropLast = false := by
  induction bufs generalizing k with
  | nil => exact iff_of_true rfl rfl
  | cons buf bufs ih =>
    cases bufs with
    | nil =>
      apply iff_of_true _ rfl
      rw [KcpCrate.reached]
      split
      · rfl
      · rfl
    | cons next bufs =>
      have hlast : (buf :: next :: bufs).dropLast = buf :: (next :: bufs).dropLast := rfl
      rw [hlast, KcpCrate.reached, KcpCrate.refuses]
      rcases K.judge flushAck k buf with ⟨l, verdict⟩
      cases verdict with
      | refused => simp only [List.cons.injEq, true_and, reduceCtorEq]
      | ignored => simp only [List.cons.injEq, true_and, ih]
      | accepted => simp only [List.cons.injEq, true_and, ih]

section Erase

variable (s : KcpSocket (κ × List Bytes)) (now : Nat)

theorem KcpSocket.tryWakePendingSender_erase : s.erase.tryWakePendingSender K =
    ((s.tryWakePendingSender K.recording).1.erase, (s.tryWakePendingSender K.recording).2) := by
  rw [KcpSocket.tryWakePendingSender, KcpSocket.tryWakePendingSender]
  have hsame : s.erase.pendingSender = s.pendingSender := rfl
  rw [hsame]
  cases s.pendingSender with
  | none => rfl
  | some waker =>
    have hready : (!K.recording.windowFull s.kcp && !K.recording.waitingConv s.kcp) =
      (!K.windowFull s.erase.kcp && !K.waitingConv s.erase.kcp) := rfl
    dsimp only
    rw [hready]
    split
    · rfl
    · rfl

theorem KcpSocket.tryWakePendingReceiver_erase : s.erase.tryWakePendingReceiver K =
    ((s.tryWakePendingReceiver K.recording).1.erase,
      (s.tryWakePendingReceiver K.recording).2) := by
  rw [KcpSocket.tryWakePendingReceiver, KcpSocket.tryWakePendingReceiver]
  have hsame : s.erase.pendingReceiver = s.pendingReceiver := rfl
  have hpeek : K.recording.peeksize s.kcp = K.peeksize s.erase.kcp := rfl
  rw [hsame, hpeek]
  cases s.pendingReceiver with
  | none => rfl
  | some waker =>
    cases K.peeksize s.erase.kcp with
    | error err => rfl
    | ok peek =>
      have hallow : s.erase.allowRecvEmptyPacket = s.allowRecvEmptyPacket := rfl
      dsimp only
      rw [hallow]
      split
      · rfl
      · rfl

theorem KcpSocket.tryWakePendingWaker_erase : s.erase.tryWakePendingWaker K =
    ((s.tryWakePendingWaker K.recording).1.erase, (s.tryWakePendingWaker K.recording).2) := by
  simp only [KcpSocket.tryWakePendingWaker, tryWakePendingSender_erase,
    tryWakePendingReceiver_erase]

theorem KcpSocket.flushAckIf_erase (condition : Bool) : s.erase.flushAckIf K condition =
    ((s.flushAckIf K.recording condition).1.erase, (s.flushAckIf K.recording condition).2) := by
  cases condition with
  | true => rfl
  | false => rfl

theorem KcpSocket.inputKcp_erase (buf : Bytes) : s.erase.inputKcp K buf now =
    ((s.inputKcp K.recording buf now).1.erase, (s.inputKcp K.recording buf now).2) := by
  have hin : K.recording.input s.kcp buf =
    (((K.input s.kcp.1 buf).1, s.kcp.2 ++ [buf]), (K.input s.kcp.1 buf).2) := rfl
  have hsame : K.input s.erase.kcp buf = K.input s.kcp.1 buf := rfl
  rw [KcpSocket.inputKcp, KcpSocket.inputKcp, hin, hsame]
  rcases K.input s.kcp.1 buf with ⟨l, err | n⟩
  · cases err <;> rfl
  · obtain ⟨u, hu⟩ : ∃ u, u = { s with kcp := (l, s.kcp.2 ++ [buf]), lastUpdateMs := now } :=
      ⟨_, rfl⟩
    have hset : { s.erase with kcp := l, lastUpdateMs := now } = u.erase := congrArg erase hu.symm
    have hflush : s.erase.flushAckInput = s.flushAckInput := rfl
    dsimp only
    rw [hset, ← hu, hflush, flushAckIf_erase]
    rcases u.flushAckIf K.recording s.flushAckInput with ⟨v, err | _⟩
    · rfl
    · dsimp only
      rw [tryWakePendingWaker_erase]

theorem KcpSocket.inputEach_erase (waked : Bool) (bufs : List Bytes) :
    s.erase.inputEach K waked now bufs =
      ((s.inputEach K.recording waked now bufs).1.erase,
        (s.inputEach K.recording waked now bufs).2) := by
  induction bufs generalizing s waked with
  | nil => rfl
  | cons buf bufs ih =>
    rw [KcpSocket.inputEach, KcpSocket.inputEach, inputKcp_erase]
    rcases s.inputKcp K.recording buf now with ⟨u, err | woke⟩
    · rfl
    · exact ih u (waked || woke)

/-- The record changes nothing of what the socket does with a datagram. -/
theorem KcpSocket.input_erase (buf : Bytes) : s.erase.input K buf now =
    (s.input K.recording buf now).map fun r => (r.1.erase, r.2) := by
  have hsame : s.erase.fecDecoder = s.fecDecoder := rfl
  rw [KcpSocket.input, KcpSocket.input, hsame]
  split
  · rw [KcpSocket.inputFec, KcpSocket.inputFec, inputEach_erase]
    rcases s.inputEach K.recording false now (dataPayload buf).toList with ⟨u, err | waked⟩
    · rfl
    · have hdec : u.erase.fecDecoder = u.fecDecoder := rfl
      dsimp only
      rw [hdec]
      cases u.fecDecoder with
      | none => rfl
      | some decoder =>
        change (decoder.decode buf >>= _) = Except.map _ (decoder.decode buf >>= _)
        rcases decoder.decode buf with panic | ⟨decoder', err | recovered⟩
        · rfl
        · rfl
        · exact congrArg Except.ok (inputEach_erase { u with fecDecoder := some decoder' } now
            waked recovered)
  · exact congrArg Except.ok (inputKcp_erase s now buf)

end Erase

variable {s t : KcpSocket κ} {decoder decoder' : FecDecoder} {out : IoResult (List Bytes)}

theorem KcpSocket.inputRecorded_eq {u : KcpSocket (κ × List Bytes)}
    (h : (s.withKcp (s.kcp, [])).input K.recording buf now = .ok (u, result)) :
    s.inputRecorded K buf now = .ok (u.erase, u.kcp.2, result) ∧
      s.input K buf now = .ok (u.erase, result) := by
  have herase := input_erase (K := K) (s.withKcp (s.kcp, [])) now buf
  rw [h] at herase
  refine ⟨?_, herase⟩
  rw [KcpSocket.inputRecorded, h]
  rfl

/-- A FEC packet is recorded in the decoder unless KCP refuses its own payload. -/
theorem KcpSocket.inputFec_records (hs : s.fecDecoder = some decoder)
    (hdecode : decoder.decode buf = .ok (decoder', out)) (now : Nat) :
    ∃ t result, s.inputFec K buf now = .ok (t, result) ∧ t.fecDecoder =
      some (if K.refuses s.flushAckInput s.kcp (dataPayload buf).toList then decoder
        else decoder') := by
  have hok := (inputEach_took K.peeks s false now (dataPayload buf).toList).2
  have hkeep := (s.inputEach_moves K false now (dataPayload buf).toList).2
  rw [K.intake_refused] at hok
  rw [KcpSocket.inputFec]
  rcases he : s.inputEach K false now (dataPayload buf).toList with ⟨u, err | waked⟩
  · rw [he] at hok hkeep
    rw [if_pos ((Bool.not_eq_false' ..).mp hok.symm)]
    exact ⟨u, .error err, rfl, hkeep.trans hs⟩
  · rw [he] at hok hkeep
    have hdec : u.fecDecoder = some decoder := hkeep.trans hs
    rw [if_neg (by rw [Bool.not_eq_true]; exact (Bool.not_eq_true' ..).mp hok.symm)]
    dsimp only
    rw [hdec]
    change ∃ t result, (decoder.decode buf >>= _) = _ ∧ _
    rw [hdecode, ok_bind]
    cases out with
    | error err => exact ⟨_, _, rfl, rfl⟩
    | ok recovered => exact ⟨_, _, rfl, (inputEach_moves K _ waked now recovered).2⟩

theorem KcpSocket.offered_eq (hs : s.fecDecoder = some decoder) (hp : isFecPacket buf = true)
    (hdecode : decoder.decode buf = .ok (decoder', out)) :
    s.offered buf = (dataPayload buf).toList ++ out.toOption.getD [] := by
  simp only [KcpSocket.offered, hs, if_pos hp, FecDecoder.recovers, hdecode]
  cases out with
  | error err => rfl
  | ok recovered => rfl

/-- Whatever KCP answers for the payloads of a FEC packet: the packet is recorded as by decoding
alone, and the carried and the recovered payloads are offered to KCP once each, exactly if KCP
refuses none but the last of them and a refused packet has nothing to record. -/
theorem bad_payload_iff (hs : s.fecDecoder = some decoder) (hp : isFecPacket buf = true)
    (hdecode : decoder.decode buf = .ok (decoder', out)) (now : Nat) :
    let carried := (dataPayload buf).toList
    let offered := carried ++ out.toOption.getD []
    ∃ t calls result, s.inputRecorded K buf now = .ok (t, calls, result) ∧
      s.input K buf now = .ok (t, result) ∧
      ((t.fecDecoder = some decoder' ∧ calls.Perm offered) ↔
        (K.refuses s.flushAckInput s.kcp carried = true → decoder' = decoder) ∧
        K.refuses s.flushAckInput s.kcp offered.dropLast = false) := by
  intro carried offered
  have hs' : (s.withKcp (s.kcp, ([] : List Bytes))).fecDecoder = some decoder := hs
  obtain ⟨u, result, hu, hdecoder⟩ := KcpSocket.inputFec_records (K := K.recording) hs' hdecode now
  have hinput : (s.withKcp (s.kcp, [])).input K.recording buf now = .ok (u, result) := by
    rw [KcpSocket.input, hs', hp]
    exact hu
  have hcalls : u.kcp.2 = K.reached s.flushAckInput s.kcp offered := by
    rw [KcpSocket.input_kcp hinput, KcpSocket.offered_eq hs' hp hdecode]
    exact (K.recording_takes s.flushAckInput s.kcp [] offered).trans (List.nil_append _)
  obtain ⟨hrecorded, hreal⟩ := KcpSocket.inputRecorded_eq hinput
  refine ⟨u.erase, u.kcp.2, result, hrecorded, hreal, and_congr ?_ ?_⟩
  · have hrefuses := K.recording_refuses s.flushAckInput s.kcp [] carried
    change u.fecDecoder = _ ↔ _
    rw [hdecoder, Option.some_inj]
    change (if K.recording.refuses s.flushAckInput (s.kcp, []) carried then _ else _) = _ ↔ _
    rw [hrefuses]
    split
    · rename_i hrefused
      exact ⟨fun h _ => h.symm, fun h => (h hrefused).symm⟩
    · rename_i hrefused
      exact iff_of_true rfl (fun h => absurd h hrefused)
  · rw [hcalls, ← K.reached_eq_iff]
    constructor
    · intro hperm
      exact (K.reached_initial _ _ offered).eq_of_length hperm.length_eq
    · intro heq
      rw [heq]

/-- The packets of a group whose second payload has a command that KCP does not know. -/
def badPayloads : List Bytes := [segment 1 81 0 [65], segment 1 0 1 [66]]

def badData : Bytes := packetOf (pawsOf 3) 1 typeData (dataBody (segment 1 0 1 [66]))

def badParity : Bytes :=
  packetOf (pawsOf 3) 2 typeParity
    (parityOf (dataBody (segment 1 81 0 [65])) (dataBody (segment 1 0 1 [66])))

theorem badGroup_emitted : ∃ e e' outs, FecEncoder.new reedSolomon 2 1 = .ok (.ok e) ∧
    encodeAll e (badPayloads.map (·, 0)) = .ok (e', outs) ∧
    outs.flatMap (fun out => out.toOption.getD []) =
      [packetOf (pawsOf 3) 0 typeData (dataBody (segment 1 81 0 [65])), badData, badParity] := by
  refine ⟨_, _, _, rfl, rfl, ?_⟩
  decide

theorem badGroup_decoded : ∃ s t decoder decoder',
    KcpSocket.new smallKcp reedSolomon (KcpConfig.withFec {} 2 1) 1 false 0 = .ok (.ok s) ∧
    s.Step smallKcp (.input badParity, 0) t ∧ t.fecDecoder = some decoder ∧
    decoder.decode badData = .ok (decoder', .ok [segment 1 81 0 [65]]) ∧
    decoder.shardSet.size = 1 ∧ decoder'.shardSet.size = 0 ∧ ∃ u,
    t.inputRecorded smallKcp badData 1 =
      .ok (u, [segment 1 0 1 [66]], .error (.unsupportedCmd 0)) ∧ u.fecDecoder = some decoder :=
  ⟨_, _, _, _, rfl, rfl, rfl, rfl, rfl, rfl, _, rfl, rfl⟩

theorem bad_payload_iff_two_one : ∃ (s t : KcpSocket SmallKcp) (decoder decoder' : FecDecoder)
    (calls : List Bytes) (result : KcpResult Bool),
    s.fecDecoder = some decoder ∧
    decoder.decode badData = .ok (decoder', .ok [segment 1 81 0 [65]]) ∧
    s.inputRecorded smallKcp badData 1 = .ok (t, calls, result) ∧
    ((t.fecDecoder = some decoder' ∧ calls.Perm [segment 1 0 1 [66], segment 1 81 0 [65]]) ↔
      (smallKcp.refuses s.flushAckInput s.kcp [segment 1 0 1 [66]] = true →
        decoder' = decoder) ∧
      smallKcp.refuses s.flushAckInput s.kcp [segment 1 0 1 [66]] = false) := by
  obtain ⟨_, s, decoder, decoder', _, _, hs, hdecode, _⟩ := badGroup_decoded
  obtain ⟨t, calls, result, hrecorded, _, hiff⟩ :=
    bad_payload_iff (K := smallKcp) hs (show isFecPacket badData = true from rfl) hdecode 1
  exact ⟨s, t, decoder, decoder', calls, result, hs, hdecode, hrecorded, hiff⟩

/-- KCP refuses the second payload. Its packet is not recorded, and the first payload, which it
would complete, is never recovered. -/
theorem bad_payload_costs_two_one : ∃ e e' outs s t decoder decoder',
    FecEncoder.new reedSolomon 2 1 = .ok (.ok e) ∧
    encodeAll e (badPayloads.map (·, 0)) = .ok (e', outs) ∧
    outs.flatMap (fun out => out.toOption.getD []) =
      [packetOf (pawsOf 3) 0 typeData (dataBody (segment 1 81 0 [65])), badData, badParity] ∧
    KcpSocket.new smallKcp reedSolomon (KcpConfig.withFec {} 2 1) 1 false 0 = .ok (.ok s) ∧
    s.Step smallKcp (.input badParity, 0) t ∧ t.fecDecoder = some decoder ∧
    isFecPacket badData = true ∧
    decoder.decode badData = .ok (decoder', .ok [segment 1 81 0 [65]]) ∧
    ¬∃ u calls result, t.inputRecorded smallKcp badData 1 = .ok (u, calls, result) ∧
      u.fecDecoder = some decoder' ∧
      calls.Perm ((dataPayload badData).toList ++ [segment 1 81 0 [65]]) := by
  obtain ⟨e, e', outs, he, hrun, houts⟩ := badGroup_emitted
  obtain ⟨s, t, decoder, decoder', hs, hstep, hdecoder, hdecode, hone, hzero, u, hinput, hu⟩ :=
    badGroup_decoded
  refine ⟨e, e', outs, s, t, decoder, decoder', he, hrun, houts, hs, hstep, hdecoder, rfl,
    hdecode, ?_⟩
  rintro ⟨u', calls, result, hinput', hu', _⟩
  rw [hinput] at hinput'
  cases hinput'
  rw [hu] at hu'
  cases hu'
  rw [hone] at hzero
  cases hzero

end TokioKcp
