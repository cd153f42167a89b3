import TokioKcp.Socket
import TokioKcp.Fec.DecoderBounds
import TokioKcp.Lib.Runs

namespace TokioKcp
set_option autoImplicit true

open Checked Fec Transition

variable {κ : Type} (K : KcpCrate κ)

/-- The packet that a call hands to the decoder: a FEC packet whose own payload KCP does not
refuse. -/
def KcpSocket.handed (s : KcpSocket κ) : SocketCall × Nat → Option Bytes
  | (.input buf, now) =>
    if s.fecDecoder.isSome && isFecPacket buf &&
        (s.inputEach K false now (dataPayload buf).toList).2.isOk then some buf
    else none
  | _ => none

/-- The payloads that the decoder of a socket reconstructs when it is handed the packet. -/
def KcpSocket.reconstructs (s : KcpSocket κ) (packet : Bytes) : List Bytes :=
  (s.fecDecoder.map fun decoder => decoder.recovers packet).getD []

/-- The packets that the decoder is handed in a run, with the payloads that it reconstructs. -/
def decodings (trace : List (KcpSocket κ × (SocketCall × Nat))) : List (Bytes × List Bytes) :=
  trace.filterMap fun x => (x.1.handed K x.2).map fun packet => (packet, x.1.reconstructs packet)

variable {K} {s t : KcpSocket κ} {buf : Bytes} {now : Nat} {d : FecDecoder}
variable {trace : List (KcpSocket κ × (SocketCall × Nat))}

theorem KcpSocket.input_decoder (hs : s.fecDecoder = some d)
    (h : s.input K buf now = .ok (t, result)) :
    (s.handed K (.input buf, now) = none ∧ t.fecDecoder = some d) ∨
    ∃ decoder' out, s.handed K (.input buf, now) = some buf ∧
      d.decode buf = .ok (decoder', out) ∧ t.fecDecoder = some decoder' ∧
      s.reconstructs buf = out.toOption.getD [] := by
  rw [KcpSocket.input] at h
  split at h
  · rename_i hfec
    have hkeep := (s.inputEach_moves K false now (dataPayload buf).toList).2
    obtain ⟨u, rfl, ⟨rfl, err, herr⟩ | ⟨waked, decoder', next, out, hwaked, hdec, hdecode, hout⟩⟩ :=
      inputFec_cases h
    · refine .inl ⟨?_, hkeep.trans hs⟩
      rw [KcpSocket.handed, hfec, herr]
      rfl
    · rw [hs] at hdec
      cases hdec
      refine .inr ⟨next, out, ?_, hdecode, ?_, ?_⟩
      · rw [KcpSocket.handed, hfec, hwaked]
        rfl
      · rcases hout with ⟨rfl, _⟩ | ⟨recovered, _, rfl⟩
        · rfl
        · exact (inputEach_moves K _ waked now recovered).2
      · rw [KcpSocket.reconstructs, hs, Option.map_some, Option.getD_some, FecDecoder.recovers,
          hdecode]
        cases out with
        | error err => rfl
        | ok recovered => rfl
  · rename_i hfec
    left
    have he : (s.inputKcp K buf now).1 = t := congrArg Prod.fst (Except.ok.inj h)
    refine ⟨?_, ?_⟩
    · rw [Bool.not_eq_true] at hfec
      rw [KcpSocket.handed, hfec]
      rfl
    · rw [← he]
      exact (s.inputKcp_moves K buf now).2.trans hs

theorem KcpSocket.Step.decoder {call : SocketCall × Nat} (hs : s.fecDecoder = some d)
    (h : s.Step K call t) :
    (s.handed K call = none ∧ t.fecDecoder = some d) ∨
    ∃ packet decoder' out, s.handed K call = some packet ∧
      d.decode packet = .ok (decoder', out) ∧ t.fecDecoder = some decoder' ∧
      s.reconstructs packet = out.toOption.getD [] := by
  obtain ⟨call, now⟩ := call
  cases call with
  | input buf =>
    obtain ⟨⟨u, result⟩, hu, he⟩ := bind_eq_ok.mp h
    cases he
    rcases input_decoder hs hu with h | ⟨decoder', out, h⟩
    · exact .inl h
    · exact .inr ⟨buf, decoder', out, h⟩
  | pollSend waker buf =>
    cases h
    exact .inl ⟨rfl, ((s.pollSend_moves K waker buf now).decoder rfl).trans hs⟩
  | pollRecv waker len =>
    cases h
    exact .inl ⟨rfl, (s.pollRecv_decoder K waker len now).trans hs⟩
  | updateAt =>
    cases h
    exact .inl ⟨rfl, ((s.updateAt_moves K now).decoder rfl).trans hs⟩
  | flush =>
    cases h
    exact .inl ⟨rfl, ((s.flush_moves K now).decoder rfl).trans hs⟩
  | close =>
    cases h
    exact .inl ⟨rfl, hs⟩

/-- Over a run, the decoder of a socket is handed packets one after the other. -/
theorem KcpSocket.run_decodes (hs : s.fecDecoder = some d)
    (hrun : Run (KcpSocket.Step K) s trace t) : ∃ decoder' results,
      decodeAll d ((decodings K trace).map Prod.fst) = .ok (decoder', results) ∧
      t.fecDecoder = some decoder' ∧
      (decodings K trace).map Prod.snd = results.map fun out => out.toOption.getD [] := by
  induction hrun generalizing d with
  | nil => exact ⟨d, [], rfl, hs, rfl⟩
  | @cons s call u trace t hstep _ ih =>
    rcases hstep.decoder hs with
      ⟨hnone, hu⟩ | ⟨packet, decoder', out, hsome, hdecode, hu, hout⟩
    · have hskip : decodings K ((s, call) :: trace) = decodings K trace :=
        List.filterMap_cons_none (by rw [hnone]; rfl)
      rw [hskip]
      exact ih hu
    · have hcons : decodings K ((s, call) :: trace) =
          (packet, s.reconstructs packet) :: decodings K trace :=
        List.filterMap_cons_some (by rw [hsome]; rfl)
      obtain ⟨last, results, hall, ht, hres⟩ := ih hu
      refine ⟨last, out :: results, ?_, ht, ?_⟩
      · rw [hcons]
        exact runAll_cons hdecode hall
      · rw [hcons, List.map_cons, List.map_cons, hout, hres]

end TokioKcp
