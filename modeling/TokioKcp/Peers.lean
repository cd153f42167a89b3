import TokioKcp.Connection
import TokioKcp.SmallPair
import TokioKcp.Stream.Reading
import TokioKcp.Transport

namespace TokioKcp
set_option autoImplicit true

open Checked Fec ErasureCode Transition

/-- One end of a connection: a stream with its socket, the two ends of the socket's output, and
all datagrams that were sent. `written` has the bytes that KCP took from the application, `read`
those that the application got, and `taken` counts the buffers that the output task has taken. -/
structure Endpoint (κ : Type) where
  stream : KcpStream
  socket : KcpSocket κ
  pipe : OutputPipe
  sent : List Bytes
  written : Bytes
  read : Bytes
  taken : Nat

abbrev Peers (κ : Type) := Bool → Endpoint κ

def given : Poll (KcpResult Bytes) → Bytes
  | .ready (.ok data) => data
  | _ => []

def SocketCall.Local : SocketCall → Prop
  | .input _ | .pollRecv _ _ => False
  | _ => True

instance (call : SocketCall) : Decidable call.Local :=
  match call with
  | .input _ | .pollRecv _ _ => .isFalse id
  | .pollSend _ _ | .updateAt | .flush | .close => .isTrue True.intro

/-- KCP writes what `writes` tells of its control block. -/
def OutputEvent.Written (writes : κ → Bytes → Prop) (k : κ) : OutputEvent → Prop
  | .write buf => writes k buf
  | _ => True

instance (writes : κ → Bytes → Prop) [∀ k buf, Decidable (writes k buf)] (k : κ)
    (event : OutputEvent) : Decidable (event.Written writes k) :=
  match event with
  | .write buf => inferInstanceAs (Decidable (writes k buf))
  | .runTask _ | .dropTask => .isTrue True.intro

variable {κ : Type}

def KcpSocket.accepted (K : KcpCrate κ) (self : KcpSocket κ) (buf : Bytes) : Bytes :=
  if self.closed || self.blocked K then []
  else K.accepts self.kcp (.send (buf.take (self.maxSendLen K)))

def KcpSocket.acceptedIn (K : KcpCrate κ) (self : KcpSocket κ) : SocketCall → Bytes
  | .pollSend _ buf => self.accepted K buf
  | _ => []

def KcpSocket.givenIn (K : KcpCrate κ) (self : KcpSocket κ) : SocketCall → Nat → Bytes
  | .pollRecv waker len, now => given (self.pollRecv K waker len now).2
  | _, _ => []

/-- Calls on a socket, with the bytes that KCP takes and hands over in them. What is input is of
the given datagrams. -/
inductive KcpSocket.Uses (K : KcpCrate κ) (datagrams : List Bytes) (s : KcpSocket κ) :
    Bytes → Bytes → KcpSocket κ → Prop where
  | refl : Uses K datagrams s [] [] s
  | call {call : SocketCall} {written read : Bytes} (h : Uses K datagrams s written read t)
      (hinput : ∀ packet, call = .input packet → packet ∈ datagrams)
      (hcall : t.Step K (call, now) u) :
      Uses K datagrams s (written ++ t.acceptedIn K call) (read ++ t.givenIn K call now) u

def Endpoint.new (socket : KcpSocket κ) : Endpoint κ where
  stream := .withSession
  socket := socket
  pipe := socket.pipe
  sent := []
  written := []
  read := []
  taken := 0

def Peers.new (sockets : Bool → KcpSocket κ) : Peers κ := fun side => .new (sockets side)

inductive PeersEvent where
  | call (side : Bool) (call : SocketCall) (now : Nat)
  | recv (side : Bool) (waker : Waker) (len now : Nat)
  | deliver (side : Bool) (packet : Bytes) (now : Nat)
  | output (side : Bool) (event : OutputEvent)

/-- The network loses, repeats and reorders what the sides send to each other. -/
inductive Peers.Step (K : KcpCrate κ) (writes : κ → Bytes → Prop) (s : Peers κ) :
    PeersEvent → Peers κ → Prop where
  | call (hlocal : call.Local) (h : (s side).socket.Step K (call, now) socket) :
      Step K writes s (.call side call now) (Function.update s side
        { s side with
          socket := socket
          written := (s side).written ++ (s side).socket.acceptedIn K call })
  | recv (h : KcpStream.pollRecv K rounds waker len now ((s side).stream, (s side).socket) =
        .ok (some ((stream, socket), result))) :
      Step K writes s (.recv side waker len now) (Function.update s side
        { s side with stream := stream, socket := socket, read := (s side).read ++ given result })
  | deliver (hsent : packet ∈ (s (!side)).sent)
      (h : (s side).socket.Step K (.input packet, now) socket) :
      Step K writes s (.deliver side packet now)
        (Function.update s side { s side with socket := socket })
  | output (hwritten : event.Written writes (s side).socket.kcp)
      (h : (s side).pipe.next event = .ok (pipe, packets)) :
      Step K writes s (.output side event) (Function.update s side
        { s side with
          pipe := pipe
          sent := (s side).sent ++ packets
          taken := (s side).taken + (OutputPipe.takes ((s side).pipe, event)).length })

def Peers.next? (K : KcpCrate κ) (writes : κ → Bytes → Prop)
    [∀ k buf, Decidable (writes k buf)] (s : Peers κ) : PeersEvent → Option (Peers κ)
  | .call side call now =>
    if call.Local then
      ((s side).socket.call K now call).toOption.map fun socket =>
        Function.update s side
          { s side with
            socket := socket
            written := (s side).written ++ (s side).socket.acceptedIn K call }
    else
      none
  | .recv side waker len now =>
    match KcpStream.pollRecv K 2 waker len now ((s side).stream, (s side).socket) with
    | .ok (some ((stream, socket), result)) =>
      some (Function.update s side
        { s side with stream := stream, socket := socket, read := (s side).read ++ given result })
    | _ => none
  | .deliver side packet now =>
    if (s (!side)).sent.contains packet then
      ((s side).socket.call K now (.input packet)).toOption.map fun socket =>
        Function.update s side { s side with socket := socket }
    else
      none
  | .output side event =>
    if event.Written writes (s side).socket.kcp then
      ((s side).pipe.next event).toOption.map fun (pipe, packets) =>
        Function.update s side
          { s side with
            pipe := pipe
            sent := (s side).sent ++ packets
            taken := (s side).taken + (OutputPipe.takes ((s side).pipe, event)).length }
    else
      none

variable {K : KcpCrate κ} {writes : κ → Bytes → Prop} {inputs : List Bytes} {k l : κ}
variable {s t : KcpSocket κ} {self : KcpStream} {x y z : Locked κ} {waker : Waker} {len now : Nat}
variable {buf got : Bytes} {result : Poll (KcpResult Bytes)}

theorem KcpCrate.Flushed.works (h : K.Flushed k l) : K.Works inputs k [] [] l := by
  induction h with
  | refl => exact .refl
  | flush _ ih => exact ih.quiet .flush nofun rfl rfl

theorem KcpCrate.works_judge (K : KcpCrate κ) (flushAck : Bool) (k : κ) (hm : buf ∈ inputs) :
    K.Works inputs k [] [] (K.judge flushAck k buf).1 := by
  have hinput : K.Works inputs k [] [] (K.input k buf).1 := by
    apply KcpCrate.Works.refl.quiet (.input buf) _ rfl rfl
    intro buf' he
    cases he
    exact hm
  have hack := hinput.quiet .flushAck nofun rfl rfl
  rw [KcpCrate.judge]
  split
  · rename_i hi
    rw [hi] at hinput
    exact hinput
  · rename_i hi
    rw [hi] at hinput
    exact hinput
  · rename_i hi
    rw [hi] at hinput hack
    split
    · split
      · rename_i ha
        rw [KcpCrate.operate, ha] at hack
        exact hack
      · rename_i ha
        rw [KcpCrate.operate, ha] at hack
        exact hack
    · exact hinput

theorem KcpCrate.works_takes (K : KcpCrate κ) (flushAck : Bool) (k : κ) {bufs : List Bytes}
    (hsub : bufs ⊆ inputs) : K.Works inputs k [] [] (K.takes flushAck k bufs) := by
  induction bufs generalizing k with
  | nil => exact .refl
  | cons buf bufs ih =>
    obtain ⟨hm, hrest⟩ := List.cons_subset.mp hsub
    have hjudge := K.works_judge flushAck k hm
    rw [KcpCrate.takes]
    rcases hj : K.judge flushAck k buf with ⟨l, verdict⟩
    rw [hj] at hjudge
    cases verdict with
    | refused => exact hjudge
    | ignored => exact hjudge.trans (ih l hrest)
    | accepted => exact hjudge.trans (ih l hrest)

theorem KcpSocket.PollsSend.works {result : Poll (KcpResult Nat)}
    (h : s.PollsSend K waker buf t result) :
    K.Works inputs s.kcp (s.accepted K buf) [] t.kcp := by
  cases h with
  | closed hc =>
    rw [KcpSocket.accepted, hc]
    exact .refl
  | waits hc hb =>
    rw [KcpSocket.accepted, hc, hb]
    exact .refl
  | refused hc hb hs =>
    have hsend := K.works_once inputs s.kcp (.send (buf.take (s.maxSendLen K))) nofun
    rw [KcpCrate.operate, hs] at hsend
    rw [KcpSocket.accepted, hc, hb]
    exact hsend
  | taken hc hb hs hf hr =>
    have hsend := K.works_once inputs s.kcp (.send (buf.take (s.maxSendLen K))) nofun
    rw [KcpCrate.operate, hs] at hsend
    rw [KcpSocket.accepted, hc, hb]
    have hall := hsend.trans hf.works
    rw [List.append_nil] at hall
    exact hall

theorem KcpSocket.pollRecv_works (h : s.pollRecv K waker len now = (t, result)) :
    K.Works inputs s.kcp [] (given result) t.kcp := by
  have hrecv := K.works_once inputs s.kcp (.recv len) nofun
  rw [KcpSocket.pollRecv] at h
  split at h
  · cases h
    exact .refl
  · rw [KcpCrate.operate, KcpCrate.delivers] at hrecv
    rcases hr : K.recv s.kcp len with ⟨k, err | data⟩
    · rw [hr] at hrecv h
      dsimp only at h
      split at h
      · cases h
        exact hrecv
      · cases h
        exact hrecv
      · cases h
        exact hrecv
      · rename_i he
        cases he
    · rw [hr] at hrecv h
      dsimp only at h
      split at h
      · rename_i hempty
        cases h
        rw [List.eq_nil_of_length_eq_zero hempty.1] at hrecv
        exact hrecv
      · cases h
        exact hrecv

theorem KcpSocket.works_call {call : SocketCall} (hcall : ∀ packet, call ≠ .input packet)
    (h : s.Step K (call, now) t) :
    K.Works inputs s.kcp (s.acceptedIn K call) (s.givenIn K call now) t.kcp := by
  cases call with
  | input packet => exact absurd rfl (hcall packet)
  | pollSend waker buf =>
    cases h
    exact (s.pollSend_cases K waker buf now).works
  | pollRecv waker len =>
    cases h
    exact KcpSocket.pollRecv_works rfl
  | updateAt =>
    cases h
    rw [s.updateAt_kcp]
    exact KcpCrate.Works.refl.quiet (.update (.ofNat now)) nofun rfl rfl
  | flush =>
    cases h
    rw [s.flush_kcp]
    exact KcpCrate.Works.refl.quiet .flush nofun rfl rfl
  | close =>
    cases h
    exact .refl

/-- Reading takes what KCP hands over through the stream's buffer, in order. -/
structure KcpStream.Draws (K : KcpCrate κ) (inputs : List Bytes) (x : Locked κ) (got : Bytes)
    (y : Locked κ) : Prop where
  bounded : y.1.Bounded
  decoder : y.2.fecDecoder = x.2.fecDecoder
  works : ∃ received, K.Works inputs x.2.kcp [] received y.2.kcp ∧
    x.1.leftover ++ received = got ++ y.1.leftover

theorem KcpStream.Draws.trans {got' : Bytes} (h : KcpStream.Draws K inputs x got y)
    (h' : KcpStream.Draws K inputs y got' z) : KcpStream.Draws K inputs x (got ++ got') z := by
  obtain ⟨received, hworks, hgot⟩ := h.works
  obtain ⟨received', hworks', hgot'⟩ := h'.works
  refine ⟨h'.bounded, h'.decoder.trans h.decoder, received ++ received', hworks.trans hworks', ?_⟩
  rw [← List.append_assoc, hgot, List.append_assoc, hgot', List.append_assoc]

/-- A stream with nothing in its buffer passes on what its socket gives. -/
theorem KcpStream.draws_pollRecv (inputs : List Bytes) (hs : self.Bounded)
    (hnil : self.leftover = [])
    (h : s.pollRecv K waker len now = (t, result)) :
    KcpStream.Draws K inputs (self, s) (given result) (self, t) := by
  refine ⟨hs, ?_, given result, KcpSocket.pollRecv_works h, ?_⟩
  · have hkeep := s.pollRecv_decoder K waker len now
    rw [h] at hkeep
    exact hkeep
  · rw [hnil, List.append_nil]
    rfl

theorem KcpStream.Bounded.grown (hs : self.Bounded) (size : Nat) :
    ∃ grown, (if self.recvBuffer.length < size then
      { self with recvBuffer := resize size 0 self.recvBuffer } else self) = grown ∧
      grown.leftover = self.leftover ∧ grown.Bounded := by
  split
  · rename_i hlt
    refine ⟨_, rfl, ?_, hs.pos_le, ?_⟩
    · rw [KcpStream.leftover, take_resize (Nat.le_of_lt hlt) 0 hs.cap_le, KcpStream.leftover]
    · rw [length_resize]
      exact Nat.le_trans hs.cap_le (Nat.le_of_lt hlt)
  · exact ⟨self, rfl, rfl, hs⟩

/-- What a round of reading leads to: the loop goes on only with something in the buffer. -/
def KcpStream.Round (K : KcpCrate κ) (inputs : List Bytes) (x : Locked κ) :
    Locked κ ⊕ (Locked κ × Poll (KcpResult Bytes)) → Prop
  | .inl y => KcpStream.Draws K inputs x [] y ∧ y.1.recvBufferPos < y.1.recvBufferCap
  | .inr (y, result) => KcpStream.Draws K inputs x (given result) y

theorem KcpStream.recvBuffered_draws (inputs : List Bytes) (hs : self.Bounded)
    (hnil : self.leftover = []) (s : KcpSocket κ) (size : Nat) (waker : Waker) (now : Nat) :
    KcpStream.Round K inputs (self, s) (self.recvBuffered K s size waker now) := by
  obtain ⟨grown, hgrown, hleft, hbounded⟩ := hs.grown size
  rw [KcpStream.recvBuffered, hgrown]
  rcases hp : s.pollRecv K waker grown.recvBuffer.length now with ⟨t, result⟩
  have hdraws := KcpStream.draws_pollRecv inputs hbounded (hleft.trans hnil) hp
  have hsame : KcpStream.Draws K inputs (self, s) (given result) (grown, t) :=
    ⟨hdraws.bounded, hdraws.decoder, hleft ▸ hdraws.works⟩
  cases result with
  | pending => exact hsame
  | ready result =>
    cases result with
    | error err => exact hsame
    | ok data =>
      cases data with
      | nil => exact hsame
      | cons b data =>
        refine ⟨⟨⟨Nat.zero_le _, ?_⟩, hsame.decoder, b :: data, KcpSocket.pollRecv_works hp, ?_⟩,
          Nat.succ_pos _⟩
        · rw [List.length_append]
          exact Nat.le_add_right _ _
        · rw [hnil]
          exact List.take_left.symm

theorem KcpStream.recvRound_draws (inputs : List Bytes) (hs : x.1.Bounded) (waker : Waker)
    (len now : Nat) :
    ∃ out, KcpStream.recvRound K waker len now x = .ok out ∧ KcpStream.Round K inputs x out := by
  obtain ⟨self, s⟩ := x
  by_cases hlt : self.recvBufferPos < self.recvBufferCap
  · obtain ⟨self', hround, hleft, hbounded⟩ := KcpStream.recvRound_rest K hs hlt s waker len now
    refine ⟨_, hround, hbounded, rfl, [], .refl, ?_⟩
    rw [List.append_nil, hleft]
    exact (List.take_append_drop len self.leftover).symm
  · have hnil := KcpStream.leftover_eq_nil hlt
    rw [KcpStream.recvRound, if_neg hlt]
    dsimp only
    split
    · rcases hp : s.pollRecv K waker len now with ⟨t, result⟩
      have hdraws := KcpStream.draws_pollRecv inputs hs hnil hp
      split
      · rename_i he
        cases he
        exact ⟨_, rfl, hdraws⟩
      · rename_i he
        cases he
        refine ⟨_, rfl, ?_⟩
        -- nothing came with the error, and the message goes to the buffer
        have hbuffered := KcpStream.recvBuffered_draws (K := K) inputs hs hnil t
          ((K.peeksize s.kcp).toOption.getD 0) waker now
        rcases hout : self.recvBuffered K t ((K.peeksize s.kcp).toOption.getD 0) waker now with
          y | ⟨y, result⟩
        · rw [hout] at hbuffered
          exact ⟨hdraws.trans hbuffered.1, hbuffered.2⟩
        · rw [hout] at hbuffered
          exact hdraws.trans hbuffered
      · rename_i he
        cases he
        exact ⟨_, rfl, hdraws⟩
    · exact ⟨_, rfl, KcpStream.recvBuffered_draws inputs hs hnil s _ waker now⟩

theorem KcpStream.pollRecv_draws (hs : x.1.Bounded)
    (h : KcpStream.pollRecv K rounds waker len now x = .ok (some (y, result))) :
    KcpStream.Draws K inputs x (given result) y := by
  induction rounds generalizing x with
  | zero => cases h
  | succ rounds ih =>
    obtain ⟨out, hbody, h⟩ := bind_eq_ok.mp h
    obtain ⟨out', hround, hdraws⟩ :=
      KcpStream.recvRound_draws (K := K) inputs hs waker len now
    rw [hbody] at hround
    cases hround
    cases out with
    | inl z => exact hdraws.1.trans (ih hdraws.1.bounded h)
    | inr z =>
      cases h
      exact hdraws

/-- Two rounds are enough. -/
theorem KcpStream.pollRecv_returns (K : KcpCrate κ) (hs : x.1.Bounded) (waker : Waker)
    (len now : Nat) : ∃ y, KcpStream.pollRecv K 2 waker len now x = .ok (some y) := by
  obtain ⟨out, hround, hdraws⟩ :=
    KcpStream.recvRound_draws (K := K) [] hs waker len now
  rw [KcpStream.pollRecv]
  cases out with
  | inr y =>
    have hleft : loop (KcpStream.recvRound K waker len now) 2 x = _ := loop_left hround
    exact ⟨y, hleft⟩
  | inl y =>
    obtain ⟨hy, hlt⟩ := hdraws
    obtain ⟨self', hsecond, _⟩ :=
      KcpStream.recvRound_rest K hy.bounded hlt y.2 waker len now
    have htwo : loop (KcpStream.recvRound K waker len now) 2 x = _ :=
      (loop_next hround).trans (loop_left hsecond)
    exact ⟨_, htwo⟩

/-- All that was said of what goes from one side to the other, with FEC and without. `taken` counts
the buffers that the output task has taken. -/
def Transport.Carries (fec : KcpFecConfig) (c : ReedSolomon) (taken : Nat) (wrote : List Bytes)
    (s : Transport κ) : Prop :=
  if fec.enabled then
    ∃ calls, calls.length ≤ taken ∧ s.Coded c fec.dataShards fec.parityShards calls wrote
  else
    s.Plain wrote

section Transport

variable {fec : KcpFecConfig} {c : ReedSolomon} {taken : Nat} {wrote : List Bytes}
variable {line line' : Transport κ} {event : TransportEvent} {packet : Bytes}

theorem Transport.Carries.step (h : line.Carries fec c taken wrote)
    (hc : fec.enabled = true → c.Lawful fec.dataShards fec.parityShards)
    (hlap : fec.enabled = true →
      taken ≤ lapGroups (fec.dataShards + fec.parityShards) * fec.dataShards)
    (hstep : line.Step K event line') :
    line'.Carries fec c (taken + (Transport.takes (line, event)).length)
      (wrote ++ Transport.writes (line, event)) := by
  rw [Transport.Carries] at h ⊢
  split
  · rename_i he
    rw [if_pos he] at h
    obtain ⟨calls, hcalls, hcoded⟩ := h
    obtain ⟨more, hmore, hnext⟩ :=
      hcoded.step (hc he) (Nat.le_trans hcalls (hlap he)) hstep
    refine ⟨calls ++ more, ?_, hnext⟩
    rw [List.length_append]
    exact Nat.add_le_add hcalls hmore
  · rename_i he
    rw [if_neg he] at h
    exact h.step hstep

/-- Of the receiving socket, only the decoder matters. -/
theorem Transport.Carries.socket (h : line.Carries fec c taken wrote) {socket : KcpSocket κ}
    (hd : socket.fecDecoder = line.socket.fecDecoder) :
    ({ line with socket := socket } : Transport κ).Carries fec c taken wrote := by
  rw [Transport.Carries] at h ⊢
  split
  · rename_i he
    rw [if_pos he] at h
    obtain ⟨calls, hcalls, hcoded⟩ := h
    exact ⟨calls, hcalls, hcoded.encoder, hd ▸ hcoded.decoder, hcoded.waiting, hcoded.payloads,
      hcoded.network⟩
  · rename_i he
    rw [if_neg he] at h
    exact ⟨h.encoder, hd.trans h.decoder, h.waiting, h.network⟩

theorem Transport.Carries.delivers (h : line.Carries fec c taken wrote)
    (hc : fec.enabled = true → c.Lawful fec.dataShards fec.parityShards)
    (hlap : fec.enabled = true →
      taken ≤ lapGroups (fec.dataShards + fec.parityShards) * fec.dataShards)
    (hsent : packet ∈ line.network) (now : Nat) :
    ∃ t result bufs, line.socket.input K packet now = .ok (t, result) ∧
      t.kcp = K.takes line.socket.flushAckInput line.socket.kcp bufs ∧ bufs ⊆ wrote := by
  rw [Transport.Carries] at h
  split at h
  · rename_i he
    obtain ⟨calls, hcalls, hcoded⟩ := h
    exact hcoded.delivers (hc he) (Nat.le_trans hcalls (hlap he)) hsent now
  · exact h.delivers hsent now

theorem Transport.Carries.called {call : SocketCall} {socket : KcpSocket κ}
    (h : line.Carries fec c taken wrote)
    (hc : fec.enabled = true → c.Lawful fec.dataShards fec.parityShards)
    (hlap : fec.enabled = true →
      taken ≤ lapGroups (fec.dataShards + fec.parityShards) * fec.dataShards)
    (hinput : ∀ packet, call = .input packet → packet ∈ line.network)
    (hcall : line.socket.Step K (call, now) socket) :
    K.Works wrote line.socket.kcp (line.socket.acceptedIn K call)
      (line.socket.givenIn K call now) socket.kcp ∧
    ({ line with socket := socket } : Transport κ).Carries fec c taken wrote := by
  have hstays {event : TransportEvent} (htakes : Transport.takes (line, event) = [])
      (hwrites : Transport.writes (line, event) = [])
      (hstep : line.Step K event { line with socket := socket }) :
      ({ line with socket := socket } : Transport κ).Carries fec c taken wrote := by
    have hnext := h.step hc hlap hstep
    rw [htakes, hwrites, List.append_nil] at hnext
    exact hnext
  by_cases hpacket : ∃ packet, call = .input packet
  · obtain ⟨packet, rfl⟩ := hpacket
    have hsent := hinput packet rfl
    obtain ⟨u, result, bufs, hin, hkcp, hsub⟩ := h.delivers (K := K) hc hlap hsent now
    obtain ⟨out, hout, he⟩ := bind_eq_ok.mp hcall
    rw [hin] at hout
    cases hout
    cases he
    refine ⟨?_, hstays rfl rfl (.deliver hsent hcall)⟩
    rw [hkcp]
    exact K.works_takes _ _ hsub
  · have hnot (packet : Bytes) : call ≠ .input packet := fun he => hpacket ⟨packet, he⟩
    exact ⟨KcpSocket.works_call hnot hcall, hstays rfl rfl (.call hnot hcall)⟩

theorem Transport.Carries.uses {socket : KcpSocket κ} {datagrams : List Bytes}
    {written read : Bytes} (h : line.Carries fec c taken wrote)
    (hc : fec.enabled = true → c.Lawful fec.dataShards fec.parityShards)
    (hlap : fec.enabled = true →
      taken ≤ lapGroups (fec.dataShards + fec.parityShards) * fec.dataShards)
    (hsub : datagrams ⊆ line.network)
    (hu : line.socket.Uses K datagrams written read socket) :
    K.Works wrote line.socket.kcp written read socket.kcp ∧
    ({ line with socket := socket } : Transport κ).Carries fec c taken wrote := by
  induction hu with
  | refl => exact ⟨.refl, h⟩
  | @call _ _ u call _ v _ hinput hcall ih =>
    obtain ⟨hworks, hcarries⟩ := ih
    have hnext := hcarries.called hc hlap (fun packet he => hsub (hinput packet he)) hcall
    exact ⟨hworks.trans hnext.1, hnext.2⟩

end Transport

/-- A side, as a control block with what went in and out. -/
structure Endpoint.Matches (x : Endpoint κ) (e : KcpEnd κ) : Prop where
  kcp : e.kcp = x.socket.kcp
  sent : e.sent = x.written
  received : e.received = x.read ++ x.stream.leftover
  bounded : x.stream.Bounded

def Peers.line (s : Peers κ) (side : Bool) : Transport κ :=
  ⟨(s side).pipe, (s side).sent, (s (!side)).socket⟩

/-- The two sides are a pair of control blocks, and what is on its way between them was written. -/
structure Peers.Refines (fec : KcpFecConfig) (c : ReedSolomon) (s : Peers κ) (pair : KcpPair κ) :
    Prop where
  ends : ∀ side, (s side).Matches (pair side)
  lines : ∀ side, (s.line side).Carries fec c (s side).taken (pair side).wrote

section Refinement

variable {fec : KcpFecConfig} {c : ReedSolomon} {s t : Peers κ} {pair : KcpPair κ} {side : Bool}
variable {event : PeersEvent} {rs : Nat → Nat → Except String ReedSolomon} {conv : UInt32}

theorem Peers.Refines.update {self : Endpoint κ} {e : KcpEnd κ} (h : s.Refines fec c pair)
    (hends : self.Matches e)
    (hout : (⟨self.pipe, self.sent, (s (!side)).socket⟩ : Transport κ).Carries fec c self.taken
      e.wrote)
    (hin : (⟨(s (!side)).pipe, (s (!side)).sent, self.socket⟩ : Transport κ).Carries fec c
      (s (!side)).taken (pair (!side)).wrote) :
    Peers.Refines fec c (Function.update s side self) (Function.update pair side e) := by
  have hother := Bool.not_ne_self side
  constructor
  · intro side'
    by_cases heq : side' = side
    · rw [heq, Function.update_self, Function.update_self]
      exact hends
    · rw [Function.update_of_ne heq, Function.update_of_ne heq]
      exact h.ends side'
  · intro side'
    rw [Peers.line]
    by_cases heq : side' = side
    · rw [heq, Function.update_self, Function.update_self, Function.update_of_ne hother]
      exact hout
    · obtain rfl := Bool.eq_not_of_ne heq
      rw [Function.update_of_ne heq, Function.update_of_ne heq, Bool.not_not,
        Function.update_self]
      exact hin

/-- The control block works on what the other side has written, and everything else stays. -/
theorem Peers.Refines.works {self : Endpoint κ} {sent received : Bytes}
    (h : s.Refines fec c pair)
    (hworks : K.Works (pair (!side)).wrote (s side).socket.kcp sent received self.socket.kcp)
    (hpipe : self.pipe = (s side).pipe) (hsent : self.sent = (s side).sent)
    (htaken : self.taken = (s side).taken) (hwritten : self.written = (s side).written ++ sent)
    (hread : (s side).read ++ (s side).stream.leftover ++ received =
      self.read ++ self.stream.leftover)
    (hbounded : self.stream.Bounded)
    (hin : (⟨(s (!side)).pipe, (s (!side)).sent, self.socket⟩ : Transport κ).Carries fec c
      (s (!side)).taken (pair (!side)).wrote) :
    ∃ trace pair', Run (KcpPair.Step K writes) pair trace pair' ∧
      Peers.Refines fec c (Function.update s side self) pair' := by
  have hends := h.ends side
  rw [← hends.kcp] at hworks
  obtain ⟨trace, hrun⟩ := KcpPair.run_works writes hworks
  refine ⟨trace, _, hrun, h.update ?_ ?_ hin⟩
  · refine ⟨rfl, ?_, ?_, hbounded⟩
    · rw [hends.sent, hwritten]
    · rw [hends.received, hread]
  · rw [hpipe, hsent, htaken]
    exact h.lines side

/-- A side whose stream has nothing buffered may use its socket directly. -/
theorem Peers.Refines.uses {socket : KcpSocket κ} {datagrams : List Bytes} {written read : Bytes}
    (h : s.Refines fec c pair) (writes : κ → Bytes → Prop) (side : Bool)
    (hc : fec.enabled = true → c.Lawful fec.dataShards fec.parityShards)
    (hlap : fec.enabled = true → (s (!side)).taken ≤
      lapGroups (fec.dataShards + fec.parityShards) * fec.dataShards)
    (hnil : (s side).stream.leftover = []) (hsub : datagrams ⊆ (s (!side)).sent)
    (hu : (s side).socket.Uses K datagrams written read socket) :
    ∃ trace pair', Run (KcpPair.Step K writes) pair trace pair' ∧
      Peers.Refines fec c (Function.update s side
        { s side with
          socket := socket
          written := (s side).written ++ written
          read := (s side).read ++ read }) pair' := by
  have hline := h.lines (!side)
  rw [Peers.line, Bool.not_not] at hline
  obtain ⟨hworks, hin⟩ := hline.uses hc hlap hsub hu
  refine h.works hworks rfl rfl rfl rfl ?_ (h.ends side).bounded hin
  rw [hnil, List.append_nil, List.append_nil]

theorem Peers.Refines.call {call : SocketCall} {socket : KcpSocket κ} (h : s.Refines fec c pair)
    (hc : fec.enabled = true → c.Lawful fec.dataShards fec.parityShards)
    (hlap : fec.enabled = true → (s (!side)).taken ≤
      lapGroups (fec.dataShards + fec.parityShards) * fec.dataShards)
    (hlocal : call.Local) (hstep : (s side).socket.Step K (call, now) socket) :
    ∃ trace pair', Run (KcpPair.Step K writes) pair trace pair' ∧
      Peers.Refines fec c (Function.update s side
        { s side with
          socket := socket
          written := (s side).written ++ (s side).socket.acceptedIn K call }) pair' := by
  have hline := h.lines (!side)
  rw [Peers.line, Bool.not_not] at hline
  have hnot (packet : Bytes) : call ≠ .input packet := by
    rintro rfl
    exact hlocal
  obtain ⟨hworks, hin⟩ :=
    hline.called hc hlap (fun packet he => absurd he (hnot packet)) hstep
  have hgiven : (s side).socket.givenIn K call now = [] := by
    cases call with
    | pollRecv waker len => exact hlocal.elim
    | _ => rfl
  rw [hgiven] at hworks
  exact h.works hworks rfl rfl rfl rfl (List.append_nil _) (h.ends side).bounded hin

theorem Peers.Refines.recv {stream : KcpStream} {socket : KcpSocket κ} (h : s.Refines fec c pair)
    (hstep : KcpStream.pollRecv K rounds waker len now ((s side).stream, (s side).socket) =
      .ok (some ((stream, socket), result))) :
    ∃ trace pair', Run (KcpPair.Step K writes) pair trace pair' ∧
      Peers.Refines fec c (Function.update s side
        { s side with
          stream := stream, socket := socket, read := (s side).read ++ given result }) pair' := by
  have hbounded : (s side).stream.Bounded := (h.ends side).bounded
  obtain ⟨hnext, hdecoder, received, hworks, hgot⟩ :=
    KcpStream.pollRecv_draws (x := ((s side).stream, (s side).socket)) hbounded hstep
  have hline := h.lines (!side)
  rw [Peers.line, Bool.not_not] at hline
  refine h.works hworks rfl rfl rfl (List.append_nil _).symm ?_ hnext (hline.socket hdecoder)
  rw [List.append_assoc, List.append_assoc]
  exact congrArg ((s side).read ++ ·) hgot

theorem Peers.Refines.deliver {packet : Bytes} {socket : KcpSocket κ} (h : s.Refines fec c pair)
    (hc : fec.enabled = true → c.Lawful fec.dataShards fec.parityShards)
    (hlap : fec.enabled = true → (s (!side)).taken ≤
      lapGroups (fec.dataShards + fec.parityShards) * fec.dataShards)
    (hsent : packet ∈ (s (!side)).sent)
    (hstep : (s side).socket.Step K (.input packet, now) socket) :
    ∃ trace pair', Run (KcpPair.Step K writes) pair trace pair' ∧
      Peers.Refines fec c (Function.update s side { s side with socket := socket }) pair' := by
  have hline := h.lines (!side)
  rw [Peers.line, Bool.not_not] at hline
  have hinput (other : Bytes) (he : SocketCall.input packet = .input other) :
      other ∈ (s (!side)).sent := by
    cases he
    exact hsent
  obtain ⟨hworks, hin⟩ := hline.called hc hlap hinput hstep
  exact h.works hworks rfl rfl rfl (List.append_nil _).symm (List.append_nil _)
    (h.ends side).bounded hin

theorem Peers.Refines.output {event : OutputEvent} {pipe : OutputPipe} {packets : List Bytes}
    (h : s.Refines fec c pair) (side : Bool)
    (hc : fec.enabled = true → c.Lawful fec.dataShards fec.parityShards)
    (hlap : fec.enabled = true → (s side).taken ≤
      lapGroups (fec.dataShards + fec.parityShards) * fec.dataShards)
    (hwritten : event.Written writes (s side).socket.kcp)
    (hstep : (s side).pipe.next event = .ok (pipe, packets)) :
    ∃ trace pair', Run (KcpPair.Step K writes) pair trace pair' ∧
      Peers.Refines fec c (Function.update s side
        { s side with
          pipe := pipe
          sent := (s side).sent ++ packets
          taken := (s side).taken + (OutputPipe.takes ((s side).pipe, event)).length }) pair' := by
  have hends := h.ends side
  have hline : (⟨pipe, (s side).sent ++ packets, (s (!side)).socket⟩ : Transport κ).Carries fec c
      ((s side).taken + (OutputPipe.takes ((s side).pipe, event)).length)
      ((pair side).wrote ++ OutputPipe.puts ((s side).pipe, event)) :=
    (h.lines side).step (K := K) hc hlap (.output hstep)
  have hin : (⟨(s (!side)).pipe, (s (!side)).sent, (s side).socket⟩ : Transport κ).Carries fec c
      (s (!side)).taken (pair (!side)).wrote := by
    have hother := h.lines (!side)
    rw [Peers.line, Bool.not_not] at hother
    exact hother
  -- what finds no room in the channel might as well not have been written
  have hwrote : ∃ trace, Run (KcpPair.Step K writes) pair trace (Function.update pair side
      { pair side with
        wrote := (pair side).wrote ++ OutputPipe.puts ((s side).pipe, event) }) := by
    have hnothing (hputs : OutputPipe.puts ((s side).pipe, event) = []) :
        Run (KcpPair.Step K writes) pair [] (Function.update pair side
          { pair side with
            wrote := (pair side).wrote ++ OutputPipe.puts ((s side).pipe, event) }) := by
      rw [hputs, List.append_nil, Function.update_eq_self]
      exact .nil
    cases event with
    | write buf =>
      by_cases hroom : (s side).pipe.output.taskClosed = false ∧
          (s side).pipe.output.postTx.length < outputBacklog
      · rw [OutputPipe.puts, if_pos hroom]
        refine ⟨_, .cons (.write ?_) .nil⟩
        rw [hends.kcp]
        exact hwritten
      · exact ⟨[], hnothing (if_neg hroom)⟩
    | runTask now => exact ⟨[], hnothing rfl⟩
    | dropTask => exact ⟨[], hnothing rfl⟩
  obtain ⟨trace, hrun⟩ := hwrote
  exact ⟨trace, _, hrun, h.update ⟨hends.kcp, hends.sent, hends.received, hends.bounded⟩ hline hin⟩

theorem Peers.Step.taken_le (h : s.Step K writes event t) (side : Bool) :
    (s side).taken ≤ (t side).taken := by
  have hupdate {side' : Bool} {x : Endpoint κ} (hx : (s side').taken ≤ x.taken) :
      (s side).taken ≤ (Function.update s side' x side).taken := by
    by_cases heq : side = side'
    · rw [heq, Function.update_self]
      exact hx
    · rw [Function.update_of_ne heq]
  cases h with
  | call hlocal h => exact hupdate (Nat.le_refl _)
  | recv h => exact hupdate (Nat.le_refl _)
  | deliver hsent h => exact hupdate (Nat.le_refl _)
  | output hwritten h => exact hupdate (Nat.le_add_right _ _)

/-- No task has taken more buffers than a lap of packet numbers has data packets for. -/
def Peers.InLap (fec : KcpFecConfig) (s : Peers κ) : Prop :=
  fec.enabled = true → ∀ side, (s side).taken ≤
    lapGroups (fec.dataShards + fec.parityShards) * fec.dataShards

theorem Peers.Refines.step (h : s.Refines fec c pair)
    (hc : fec.enabled = true → c.Lawful fec.dataShards fec.parityShards) (hlap : s.InLap fec)
    (hstep : s.Step K writes event t) :
    ∃ trace pair', Run (KcpPair.Step K writes) pair trace pair' ∧ t.Refines fec c pair' := by
  cases hstep with
  | call hlocal hcall => exact h.call hc (fun he => hlap he _) hlocal hcall
  | recv hrecv => exact h.recv hrecv
  | deliver hsent hcall => exact h.deliver hc (fun he => hlap he _) hsent hcall
  | output hwritten hnext => exact h.output _ hc (fun he => hlap he _) hwritten hnext

theorem Peers.Refines.run {trace : List (Peers κ × PeersEvent)} (h : s.Refines fec c pair)
    (hc : fec.enabled = true → c.Lawful fec.dataShards fec.parityShards)
    (hrun : Run (Peers.Step K writes) s trace t) (hlap : t.InLap fec) :
    ∃ trace' pair', Run (KcpPair.Step K writes) pair trace' pair' ∧ t.Refines fec c pair' := by
  induction hrun generalizing pair with
  | nil => exact ⟨[], pair, .nil, h⟩
  | @cons s event u trace t hstep hrest ih =>
    have hmono (side : Bool) : (s side).taken ≤ (t side).taken :=
      (hrest.invariant (P := fun v => (s side).taken ≤ (v side).taken)
        (fun _ _ _ hv hs => Nat.le_trans hv (hs.taken_le side)) (hstep.taken_le side)).2
    obtain ⟨first, pair₁, hfirst, h₁⟩ :=
      h.step hc (fun he side => Nat.le_trans (hmono side) (hlap he side)) hstep
    obtain ⟨rest, pair₂, hrest, h₂⟩ := ih h₁ hlap
    exact ⟨first ++ rest, pair₂, hfirst.append hrest, h₂⟩

theorem KcpSocket.new_carries {config config' : KcpConfig} {conv' : UInt32}
    {stream stream' : Bool} {start start' : Nat} {socket socket' : KcpSocket κ}
    (hs : KcpSocket.new K rs config conv stream start = .ok (.ok socket))
    (hs' : KcpSocket.new K rs config' conv' stream' start' = .ok (.ok socket'))
    (hfec : config'.fec = config.fec) (hcodec : config.CodecIs rs c) :
    (⟨socket.pipe, [], socket'⟩ : Transport κ).Carries config.fec c 0 [] := by
  have hvalid := KcpConfig.valid_of_validate (KcpSocket.new_fresh hs).valid
  have hfresh' := KcpSocket.new_fresh hs'
  have hvalid' := KcpConfig.valid_of_validate hfresh'.valid
  have hcodec' : config'.CodecIs rs c := by
    rw [KcpConfig.CodecIs, hfec]
    exact hcodec
  obtain ⟨output, hn⟩ := KcpSocket.new_outputTask hs
  obtain ⟨_, hsome, hnumbers⟩ := UdpOutput.new_numbers hvalid hcodec hn
  rw [Transport.Carries]
  split
  · rename_i he
    rw [he] at hsome
    obtain ⟨encoder, hencoder⟩ := Option.isSome_iff_exists.mp hsome
    have hdecoder := FecDecoder.newIfEnabled_gathers hvalid' hcodec' (hfec ▸ he)
      hfresh'.fecDecoder (groupPayloads config'.fec.dataShards [])
    rw [hfec] at hdecoder
    exact ⟨[], Nat.le_refl 0, ⟨encoder, hencoder, hnumbers encoder hencoder⟩, hdecoder,
      List.Subset.refl _, List.Subset.refl _, fun _ hm => absurd hm List.not_mem_nil⟩
  · rename_i he
    have hnone : socket'.fecDecoder = none := by
      have hnew := hfresh'.fecDecoder
      rw [FecDecoder.newIfEnabled, hfec, if_neg he] at hnew
      exact (Except.ok.inj (Except.ok.inj hnew)).symm
    refine ⟨?_, hnone, List.Subset.refl _, List.Subset.refl _⟩
    change socket.outputTask.fecEncoder = none
    rw [← Option.not_isSome_iff_eq_none, hsome]
    exact he

theorem Peers.new_refines {config : Bool → KcpConfig} {conv : Bool → UInt32}
    {stream : Bool → Bool} {start : Bool → Nat} {sockets : Bool → KcpSocket κ}
    (hs : ∀ side, KcpSocket.new K rs (config side) (conv side) (stream side) (start side) =
      .ok (.ok (sockets side)))
    (hfec : ∀ side, (config side).fec = fec) (hcodec : ∀ side, (config side).CodecIs rs c) :
    (Peers.new sockets).Refines fec c (.new fun side => (sockets side).kcp) where
  ends side := ⟨rfl, rfl, rfl, Nat.le_refl _, Nat.le_refl _⟩
  lines side := by
    rw [← hfec side]
    exact KcpSocket.new_carries (hs side) (hs (!side)) ((hfec (!side)).trans (hfec side).symm)
      (hcodec side)

theorem Peers.run_refines {config : Bool → KcpConfig} {conv : Bool → UInt32}
    {stream : Bool → Bool} {start : Bool → Nat} {sockets : Bool → KcpSocket κ}
    {trace : List (Peers κ × PeersEvent)}
    (hs : ∀ side, KcpSocket.new K rs (config side) (conv side) (stream side) (start side) =
      .ok (.ok (sockets side)))
    (hfec : ∀ side, (config side).fec = fec)
    (hcodec : fec.enabled = true → rs fec.dataShards fec.parityShards = .ok c)
    (hc : fec.enabled = true → c.Lawful fec.dataShards fec.parityShards)
    (hrun : Run (Peers.Step K writes) (.new sockets) trace s) (hlap : s.InLap fec) :
    ∃ trace' pair, Run (KcpPair.Step K writes) (.new fun side => (sockets side).kcp) trace' pair ∧
      s.Refines fec c pair := by
  have hstart : (Peers.new sockets).Refines fec c (.new fun side => (sockets side).kcp) := by
    apply Peers.new_refines hs hfec
    intro side
    rw [KcpConfig.CodecIs, hfec side]
    exact hcodec
  exact hstart.run hc hrun hlap

end Refinement

section Results

variable {s : Peers κ} {fec : KcpFecConfig} {c : ReedSolomon}
variable {rs : Nat → Nat → Except String ReedSolomon}

theorem Peers.step_of_next? [∀ k buf, Decidable (writes k buf)] {t : Peers κ}
    {event : PeersEvent} (h : s.next? K writes event = some t) : s.Step K writes event t := by
  cases event with
  | call side call now =>
    rw [Peers.next?] at h
    split at h
    · rename_i hlocal
      obtain ⟨socket, hs, rfl⟩ := Option.map_eq_some_iff.mp h
      exact .call hlocal (eq_ok_of_toOption hs)
    · cases h
  | recv side waker len now =>
    rw [Peers.next?] at h
    split at h
    · rename_i hpoll
      cases h
      exact .recv hpoll
    · cases h
  | deliver side packet now =>
    rw [Peers.next?] at h
    split at h
    · rename_i hsent
      obtain ⟨socket, hs, rfl⟩ := Option.map_eq_some_iff.mp h
      exact .deliver (List.contains_iff_mem.mp hsent) (eq_ok_of_toOption hs)
    · cases h
  | output side event =>
    rw [Peers.next?] at h
    split at h
    · rename_i hwritten
      obtain ⟨⟨pipe, packets⟩, hnext, rfl⟩ := Option.map_eq_some_iff.mp h
      exact .output hwritten (eq_ok_of_toOption hnext)
    · cases h

/-- One side writes two bytes. Of the first group only the parity packet and the second data packet
come, which is enough for the first byte; the second is sent again. -/
def smallTransfer : List PeersEvent :=
  [.call true (.pollSend 5 [65]) 0, .output true (.write (segment 1 81 0 [65])),
    .call true (.pollSend 5 [66]) 0, .output true (.write (segment 1 81 1 [66])),
    .output true (.runTask 0), .output true (.runTask 0), .deliver false smallParity 1,
    .deliver false smallData 1, .recv false 9 4 2, .output true (.write (segment 1 81 1 [66])),
    .output true (.runTask 3),
    .deliver false (packetOf (pawsOf 3) 3 typeData (dataBody (segment 1 81 1 [66]))) 4,
    .recv false 9 4 5]

theorem smallTransfer_run : ∃ socket trace s,
    KcpSocket.new smallKcp reedSolomon (KcpConfig.withFec {} 2 1) 1 false 0 = .ok (.ok socket) ∧
    trace.map Prod.snd = smallTransfer ∧
    Run (Peers.Step smallKcp SmallKcp.Writes) (.new fun _ => socket) trace s ∧
    s.InLap (KcpConfig.withFec {} 2 1).fec ∧
    (s true).written = [65, 66] ∧ (s false).read = [65, 66] ∧
    smallKcp.Reliable SmallKcp.Writes fun _ => socket.kcp := by
  have hreplay : ∃ socket trace s,
      KcpSocket.new smallKcp reedSolomon (KcpConfig.withFec {} 2 1) 1 false 0 = .ok (.ok socket) ∧
      replay (Peers.next? smallKcp SmallKcp.Writes) (Peers.new fun _ => socket) smallTransfer =
        some (trace, s) ∧
      trace.map Prod.snd = smallTransfer ∧
      (s true).taken = 3 ∧ (s false).taken = 0 ∧
      (s true).written = [65, 66] ∧ (s false).read = [65, 66] ∧
      socket.kcp.conv = 1 ∧ socket.kcp.rcvNxt = 0 ∧ socket.kcp.messages = [] ∧
      socket.kcp.sndQueue = [] :=
    ⟨_, _, _, rfl, rfl, rfl, rfl, rfl, rfl, rfl, rfl, rfl, rfl, rfl⟩
  obtain ⟨socket, trace, s, hs, hr, hevents, htrue, hfalse, hwritten, hread, hconv, hnext,
    hmessages, hqueue⟩ := hreplay
  refine ⟨socket, trace, s, hs, hevents, run_of_replay (fun _ _ _ => Peers.step_of_next?) hr, ?_,
    hwritten, hread, ?_⟩
  · intro _ side
    cases side with
    | true =>
      rw [htrue]
      decide
    | false =>
      rw [hfalse]
      decide
  · exact smallKcp_reliable _ (fun _ => hconv) (fun _ => hnext) (fun _ => hmessages)
      fun _ => hqueue

/-- Two streams, whatever the network between them does, are two control blocks with such a network
between them: FEC, the output tasks and the streams' buffers only carry what the control blocks
write, take and hand over, in order and without loss of their own, until packet numbers wrap. No
datagram makes a socket panic, and a read returns in two rounds. -/
theorem peers_refine {config : Bool → KcpConfig} {conv : Bool → UInt32} {stream : Bool → Bool}
    {start : Bool → Nat} {sockets : Bool → KcpSocket κ} {trace : List (Peers κ × PeersEvent)}
    (hs : ∀ side, KcpSocket.new K rs (config side) (conv side) (stream side) (start side) =
      .ok (.ok (sockets side)))
    (hfec : ∀ side, (config side).fec = fec)
    (hcodec : fec.enabled = true → rs fec.dataShards fec.parityShards = .ok c)
    (hc : fec.enabled = true → c.Lawful fec.dataShards fec.parityShards)
    (hrun : Run (Peers.Step K writes) (.new sockets) trace s) (hlap : s.InLap fec) :
    (∃ trace' pair,
      Run (KcpPair.Step K writes) (.new fun side => (sockets side).kcp) trace' pair ∧
      ∀ side, (pair side).kcp = (s side).socket.kcp ∧ (pair side).sent = (s side).written ∧
        (pair side).received = (s side).read ++ (s side).stream.leftover) ∧
    (∀ side, ∀ packet ∈ (s (!side)).sent, ∀ now,
      ∃ r, (s side).socket.input K packet now = .ok r) ∧
    ∀ side waker len now, ∃ x,
      KcpStream.pollRecv K 2 waker len now ((s side).stream, (s side).socket) = .ok (some x) := by
  obtain ⟨trace', pair, hpair, h⟩ := Peers.run_refines hs hfec hcodec hc hrun hlap
  refine ⟨⟨trace', pair, hpair, ?_⟩, ?_, ?_⟩
  · exact fun side => ⟨(h.ends side).kcp, (h.ends side).sent, (h.ends side).received⟩
  · intro side packet hsent now
    have hline := h.lines (!side)
    rw [Peers.line, Bool.not_not] at hline
    obtain ⟨t, result, _, hinput, _⟩ :=
      hline.delivers (K := K) hc (fun he => hlap he _) hsent now
    exact ⟨_, hinput⟩
  · intro side waker len now
    exact KcpStream.pollRecv_returns K (x := ((s side).stream, (s side).socket))
      (h.ends side).bounded waker len now

theorem peers_refine_small : ∃ socket trace s,
    trace.map Prod.snd = smallTransfer ∧
    Run (Peers.Step smallKcp SmallKcp.Writes) (.new fun _ => socket) trace s ∧
    (s true).written = [65, 66] ∧ (s false).read = [65, 66] ∧
    (∃ trace' pair,
      Run (KcpPair.Step smallKcp SmallKcp.Writes) (.new fun _ => socket.kcp) trace' pair ∧
      ∀ side, (pair side).kcp = (s side).socket.kcp ∧ (pair side).sent = (s side).written ∧
        (pair side).received = (s side).read ++ (s side).stream.leftover) ∧
    ∀ side, ∀ packet ∈ (s (!side)).sent, ∀ now,
      ∃ r, (s side).socket.input smallKcp packet now = .ok r := by
  obtain ⟨socket, trace, s, hs, hevents, hrun, hlap, hwritten, hread, _⟩ := smallTransfer_run
  obtain ⟨hpair, hinput, _⟩ := peers_refine (fun _ => hs) (fun _ => rfl) (fun _ => rfl)
    (fun _ => reedSolomon21_lawful) hrun hlap
  exact ⟨socket, trace, s, hevents, hrun, hwritten, hread, hpair, hinput⟩

/-- If KCP is reliable, so are the streams: what the application reads on one side is what it wrote
on the other, from the beginning, in order, without loss or repetition. -/
theorem streams_reliable {config : Bool → KcpConfig} {conv : Bool → UInt32} {stream : Bool → Bool}
    {start : Bool → Nat} {sockets : Bool → KcpSocket κ} {trace : List (Peers κ × PeersEvent)}
    (hK : K.Reliable writes fun side => (sockets side).kcp)
    (hs : ∀ side, KcpSocket.new K rs (config side) (conv side) (stream side) (start side) =
      .ok (.ok (sockets side)))
    (hfec : ∀ side, (config side).fec = fec)
    (hcodec : fec.enabled = true → rs fec.dataShards fec.parityShards = .ok c)
    (hc : fec.enabled = true → c.Lawful fec.dataShards fec.parityShards)
    (hrun : Run (Peers.Step K writes) (.new sockets) trace s) (hlap : s.InLap fec) (side : Bool) :
    (s side).read ++ (s side).stream.leftover <+: (s (!side)).written := by
  obtain ⟨trace', pair, hpair, h⟩ := Peers.run_refines hs hfec hcodec hc hrun hlap
  have hprefix := hK trace' pair hpair side
  rw [(h.ends side).received, (h.ends (!side)).sent] at hprefix
  exact hprefix

theorem streams_reliable_small : ∃ socket trace s,
    trace.map Prod.snd = smallTransfer ∧
    smallKcp.Reliable SmallKcp.Writes (fun _ => KcpSocket.kcp socket) ∧
    Run (Peers.Step smallKcp SmallKcp.Writes) (.new fun _ => socket) trace s ∧
    (s false).read = [65, 66] ∧ (s true).written = [65, 66] ∧
    (s false).read ++ (s false).stream.leftover <+: (s true).written := by
  obtain ⟨socket, trace, s, hs, hevents, hrun, hlap, hwritten, hread, hK⟩ := smallTransfer_run
  have hprefix := streams_reliable hK (fun _ => hs) (fun _ => rfl) (fun _ => rfl)
    (fun _ => reedSolomon21_lawful) hrun hlap false
  exact ⟨socket, trace, s, hevents, hK, hrun, hread, hwritten, hprefix⟩

end Results

end TokioKcp
