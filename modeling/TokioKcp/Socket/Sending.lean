import TokioKcp.Socket.Readers
import TokioKcp.Socket.Calls
import TokioKcp.Lib.Fragments

namespace TokioKcp
set_option autoImplicit true

open Checked Fec Transition Fragments

variable {κ : Type}

/-- The send side of a control block: its mode and sizes, the segments that were sent and not
acknowledged, and those that were not sent yet. -/
structure SendSide where
  stream : Bool
  mss : Nat
  sndWnd : Nat
  sndBuf : List Bytes
  sndQueue : List Bytes

def SendSide.setup (side : SendSide) : Bool × Nat × Nat := (side.stream, side.mss, side.sndWnd)

def SendSide.segments (side : SendSide) : List Bytes := side.sndBuf ++ side.sndQueue

/-- In stream mode a chunk fills the last segment in the queue first. -/
def SendSide.fill (side : SendSide) (buf : Bytes) : List Bytes × Bytes :=
  if side.stream then topUp side.mss side.sndQueue buf else (side.sndQueue, buf)

/-- The number of further segments that a chunk needs. In message mode it needs at least one. -/
def SendSide.needs (side : SendSide) (buf : Bytes) : Nat :=
  if side.stream ∧ (side.fill buf).2 = [] then 0 else count side.mss (side.fill buf).2.length

def SendSide.further (side : SendSide) (buf : Bytes) : List Bytes :=
  cut side.mss (side.needs buf) (side.fill buf).2

def SendSide.send (side : SendSide) (buf : Bytes) : SendSide :=
  { side with sndQueue := (side.fill buf).1 ++ side.further buf }

/-- The segments stay, sent or not. -/
structure SendSide.Holds (a b : SendSide) : Prop where
  setup : b.setup = a.setup
  segments : b.segments = a.segments

/-- Some segments may be acknowledged. -/
structure SendSide.Acked (a b : SendSide) : Prop where
  setup : b.setup = a.setup
  segments : b.segments.Sublist a.segments

/-- The send side of KCP is a queue of segments, which `send` alone adds to and `input` alone
takes from. A chunk of 128 or more segments is refused. -/
structure KcpCrate.Sends (K : KcpCrate κ) (side : κ → SendSide) : Prop where
  mss : ∀ k, K.mss k = (side k).mss
  sndWnd : ∀ k, K.sndWnd k = (side k).sndWnd
  waitSnd : ∀ k, K.waitSnd k = (side k).segments.length
  new : ∀ conv output, (side (K.new conv output)).stream = false ∧
    (side (K.new conv output)).segments = []
  newStream : ∀ conv output, (side (K.newStream conv output)).stream = true ∧
    (side (K.newStream conv output)).segments = []
  setMtu : ∀ k mtu, minKcpMtu ≤ mtu →
    side (K.setMtu k mtu).1 = { side k with mss := mtu - kcpOverhead }
  setNodelay : ∀ k nodelay interval resend nc,
    side (K.setNodelay k nodelay interval resend nc) = side k
  setWndsize : ∀ k snd rcv, ∃ wnd, side (K.setWndsize k snd rcv) = { side k with sndWnd := wnd }
  inputConv : ∀ k, side (K.inputConv k) = side k
  setConv : ∀ k conv, side (K.setConv k conv) = side k
  recv : ∀ k len, side (K.recv k len).1 = side k
  update : ∀ k now, (side k).Holds (side (K.update k now).1)
  flush : ∀ k, (side k).Holds (side (K.flush k).1)
  flushAck : ∀ k, (side k).Holds (side (K.flushAck k).1)
  input : ∀ k buf, (side k).Acked (side (K.input k buf).1)
  send : ∀ k buf, 26 ≤ (side k).mss → (side k).needs buf < 128 →
    side (K.send k buf).1 = (side k).send buf ∧ (K.send k buf).2 = .ok buf.length
  send_big : ∀ k buf, 26 ≤ (side k).mss → 128 ≤ (side k).needs buf →
    (K.send k buf).2 = .error .userBufTooBig

/-- Only `input` ends the wait for a conversation, and then for good. -/
structure KcpCrate.Waits (K : KcpCrate κ) : Prop where
  setConv : ∀ k conv, K.waitingConv (K.setConv k conv) = K.waitingConv k
  recv : ∀ k len, K.waitingConv (K.recv k len).1 = K.waitingConv k
  update : ∀ k now, K.waitingConv (K.update k now).1 = K.waitingConv k
  flush : ∀ k, K.waitingConv (K.flush k).1 = K.waitingConv k
  flushAck : ∀ k, K.waitingConv (K.flushAck k).1 = K.waitingConv k
  send : ∀ k buf, K.waitingConv (K.send k buf).1 = K.waitingConv k
  input : ∀ k buf, K.waitingConv k = false → K.waitingConv (K.input k buf).1 = false

/-- What happens to a socket: a call on it, or a conversation that its session gives it. -/
inductive SocketOp where
  | call (call : SocketCall) (now : Nat)
  | setConv (conv : UInt32)

def KcpSocket.Op (K : KcpCrate κ) (s : KcpSocket κ) : SocketOp → KcpSocket κ → Prop
  | .call call now, t => s.Step K (call, now) t
  | .setConv conv, t => t = s.setConv K conv

/-- KCP neither gets bytes to send nor a datagram. -/
def SocketOp.isQuiet : SocketOp → Bool
  | .call (.pollSend _ _) _ => false
  | .call (.input _) _ => false
  | _ => true

structure KcpSocket.Quiet (K : KcpCrate κ) (side : κ → SendSide) (s t : KcpSocket κ) : Prop where
  holds : (side s.kcp).Holds (side t.kcp)
  waiting : K.waitingConv t.kcp = K.waitingConv s.kcp
  settings : t.settings = s.settings
  sentFirst : t.sentFirst = s.sentFirst
  closed : s.closed = true → t.closed = true

/-- All that can happen to the send side of a socket. -/
inductive KcpSocket.Effect (K : KcpCrate κ) (side : κ → SendSide) (s : KcpSocket κ) :
    SocketOp → KcpSocket κ → Prop where
  | pollSend (h : s.PollsSend K waker buf t result) :
    Effect K side s (.call (.pollSend waker buf) now) t
  | input (hkcp : t.kcp = K.takes s.flushAckInput s.kcp (s.offered buf))
      (hphase : t.phase = s.phase) (hsettings : t.settings = s.settings) :
    Effect K side s (.call (.input buf) now) t
  | quiet (hop : op.isQuiet = true) (h : s.Quiet K side t) : Effect K side s op t

/-- The chunk lengths of the socket are those for KCP's segments. -/
structure KcpSocket.Sized (side : κ → SendSide) (s : KcpSocket κ) : Prop where
  mss : 26 ≤ (side s.kcp).mss
  first : s.firstSendChunkLen = (side s.kcp).mss
  max : s.maxSendChunkLen = (side s.kcp).mss * maxSendSegments

def KcpSocket.Unsent (side : κ → SendSide) (s : KcpSocket κ) : Prop :=
  s.sentFirst = false → (side s.kcp).segments = []

def KcpSocket.chunk (K : KcpCrate κ) (s : KcpSocket κ) (buf : Bytes) : Bytes :=
  buf.take (s.maxSendLen K)

/-- A call of `poll_send` that KCP takes a chunk from. -/
structure KcpSocket.SendsChunk (K : KcpCrate κ) (side : κ → SendSide) (s : KcpSocket κ)
    (buf : Bytes) (t : KcpSocket κ) : Prop where
  isOpen : s.closed = false
  free : s.blocked K = false
  holds : ((side s.kcp).send (s.chunk K buf)).Holds (side t.kcp)
  waiting : K.waitingConv t.kcp = K.waitingConv s.kcp
  phase : t.phase = (true, false)

/-- A call of `poll_send` that fails or waits at once. -/
structure KcpSocket.SendsNothing (K : KcpCrate κ) (s t : KcpSocket κ) : Prop where
  kept : s.closed = true ∨ s.blocked K = true
  kcp : t.kcp = s.kcp
  phase : t.phase = s.phase

variable {a b c : SendSide} {buf : Bytes}

theorem SendSide.Holds.refl (a : SendSide) : a.Holds a := ⟨rfl, rfl⟩

theorem SendSide.Holds.trans (h : a.Holds b) (h' : b.Holds c) : a.Holds c :=
  ⟨h'.setup.trans h.setup, h'.segments.trans h.segments⟩

theorem SendSide.Holds.acked (h : a.Holds b) : a.Acked b :=
  ⟨h.setup, h.segments ▸ List.Sublist.refl _⟩

theorem SendSide.Acked.trans (h : a.Acked b) (h' : b.Acked c) : a.Acked c :=
  ⟨h'.setup.trans h.setup, h'.segments.trans h.segments⟩

theorem SendSide.stream_eq (h : b.setup = a.setup) : b.stream = a.stream := congrArg Prod.fst h

theorem SendSide.mss_eq (h : b.setup = a.setup) : b.mss = a.mss := congrArg (·.2.1) h

theorem SendSide.sndWnd_eq (h : b.setup = a.setup) : b.sndWnd = a.sndWnd := congrArg (·.2.2) h

theorem SendSide.flatten_fill (a : SendSide) (buf : Bytes) :
    (a.fill buf).1.flatten ++ (a.fill buf).2 = a.sndQueue.flatten ++ buf := by
  rw [SendSide.fill]
  split
  · exact flatten_topUp a.mss a.sndQueue buf
  · rfl

theorem SendSide.length_fill (a : SendSide) (buf : Bytes) :
    (a.fill buf).1.length = a.sndQueue.length := by
  rw [SendSide.fill]
  split
  · exact length_topUp a.mss a.sndQueue buf
  · rfl

theorem SendSide.fill_rest_le (a : SendSide) (buf : Bytes) :
    (a.fill buf).2.length ≤ buf.length := by
  rw [SendSide.fill]
  split
  · exact length_topUp_rest_le a.mss a.sndQueue buf
  · exact Nat.le_refl _

theorem SendSide.flatten_further (a : SendSide) (hmss : 0 < a.mss) (buf : Bytes) :
    (a.further buf).flatten = (a.fill buf).2 := by
  rw [SendSide.further, SendSide.needs]
  split
  · rename_i h
    rw [h.2]
    rfl
  · exact flatten_cut_count hmss _

theorem SendSide.flatten_send (a : SendSide) (hmss : 0 < a.mss) (buf : Bytes) :
    (a.send buf).segments.flatten = a.segments.flatten ++ buf := by
  change (a.sndBuf ++ ((a.fill buf).1 ++ a.further buf)).flatten = _
  rw [List.flatten_append, List.flatten_append, a.flatten_further hmss, a.flatten_fill,
    SendSide.segments, List.flatten_append, List.append_assoc]

theorem SendSide.length_send (a : SendSide) (buf : Bytes) :
    (a.send buf).segments.length = a.segments.length + a.needs buf := by
  change (a.sndBuf ++ ((a.fill buf).1 ++ a.further buf)).length = _
  rw [List.length_append, List.length_append, a.length_fill, SendSide.further, length_cut,
    SendSide.segments, List.length_append, Nat.add_assoc]

theorem SendSide.needs_le (a : SendSide) {n : Nat} (hn : 0 < n) (h : buf.length ≤ a.mss * n) :
    a.needs buf ≤ n := by
  rw [SendSide.needs]
  split
  · exact Nat.zero_le _
  · exact count_le hn (Nat.le_trans (a.fill_rest_le buf) h)

variable {K : KcpCrate κ} {side : κ → SendSide} {s t : KcpSocket κ} {k l : κ} {op : SocketOp}
variable {rs : Nat → Nat → Except String ReedSolomon} {config : KcpConfig} {conv : UInt32}

theorem KcpSocket.Quiet.of_phase (hsettings : t.settings = s.settings)
    (hphase : t.phase = s.phase) (hholds : (side s.kcp).Holds (side t.kcp))
    (hwaiting : K.waitingConv t.kcp = K.waitingConv s.kcp) : s.Quiet K side t where
  holds := hholds
  waiting := hwaiting
  settings := hsettings
  sentFirst := congrArg Prod.fst hphase
  closed := (congrArg Prod.snd hphase).trans

theorem KcpSocket.Op.effect (hK : K.Sends side) (hw : K.Waits) (h : s.Op K op t) :
    s.Effect K side op t := by
  cases op with
  | setConv conv =>
    cases h
    exact .quiet rfl ⟨hK.setConv s.kcp conv ▸ .refl _, hw.setConv s.kcp conv, rfl, rfl, id⟩
  | call call now =>
    cases call with
    | input buf =>
      have hmoves := KcpSocket.Step.moves h
      obtain ⟨⟨u, result⟩, hu, he⟩ := bind_eq_ok.mp h
      cases he
      exact .input (input_kcp hu) (input_phase hu) hmoves.settings
    | pollSend waker buf =>
      cases h
      exact .pollSend (s.pollSend_cases K waker buf now)
    | pollRecv waker len =>
      have hsettings := (KcpSocket.Step.moves h).settings
      cases h
      apply Effect.quiet rfl
      apply Quiet.of_phase hsettings (s.pollRecv_phase K waker len now)
      · rcases s.pollRecv_kcp K waker len now with he | he
        · rw [he]
          exact .refl _
        · rw [he, hK.recv]
          exact .refl _
      · rcases s.pollRecv_kcp K waker len now with he | he
        · rw [he]
        · rw [he, hw.recv]
    | updateAt =>
      have hsettings := (KcpSocket.Step.moves h).settings
      cases h
      have hkcp := s.updateAt_kcp K now
      apply Effect.quiet rfl
      apply Quiet.of_phase hsettings (s.updateAt_phase K now)
      · rw [hkcp]
        exact hK.update _ _
      · rw [hkcp, hw.update]
    | flush =>
      have hsettings := (KcpSocket.Step.moves h).settings
      cases h
      have hkcp := s.flush_kcp K now
      apply Effect.quiet rfl
      apply Quiet.of_phase hsettings (s.flush_phase K now)
      · rw [hkcp]
        exact hK.flush _
      · rw [hkcp, hw.flush]
    | close =>
      cases h
      exact .quiet rfl ⟨.refl _, rfl, rfl, rfl, fun _ => rfl⟩

theorem KcpSocket.Sized.keep (h : s.Sized side) (hsetup : (side t.kcp).setup = (side s.kcp).setup)
    (hsettings : t.settings = s.settings) : t.Sized side := by
  have hmss := SendSide.mss_eq hsetup
  have hfirst : t.firstSendChunkLen = s.firstSendChunkLen :=
    congrArg (fun x => x.2.2.2.1) hsettings
  have hmax : t.maxSendChunkLen = s.maxSendChunkLen :=
    congrArg (fun x => x.2.2.2.2.1) hsettings
  exact ⟨hmss ▸ h.mss, hfirst.trans (h.first.trans hmss.symm),
    hmax.trans (h.max.trans (congrArg (· * maxSendSegments) hmss.symm))⟩

/-- The limit on a chunk is one segment while the first one asks for a conversation, and 127
segments otherwise. -/
theorem KcpSocket.Sized.maxSendLen_eq (h : s.Sized side) (K : KcpCrate κ) :
    s.maxSendLen K = (side s.kcp).mss *
      if s.sentFirst = false ∧ K.waitingConv s.kcp = true then 1 else maxSendSegments := by
  rw [KcpSocket.maxSendLen, h.first, h.max]
  by_cases hfirst : s.sentFirst = false ∧ K.waitingConv s.kcp = true
  · rw [if_pos hfirst, if_pos (Bool.and_eq_true_iff.mpr ⟨Bool.not_eq_true' _ ▸ hfirst.1, hfirst.2⟩),
      Nat.mul_one]
  · have hnot : ¬(!s.sentFirst && K.waitingConv s.kcp) = true := by
      intro h
      obtain ⟨hsent, hwait⟩ := Bool.and_eq_true_iff.mp h
      exact hfirst ⟨(Bool.not_eq_true' _).mp hsent, hwait⟩
    rw [if_neg hfirst, if_neg hnot]

theorem KcpSocket.length_chunk (K : KcpCrate κ) (s : KcpSocket κ) (buf : Bytes) :
    (s.chunk K buf).length = min (s.maxSendLen K) buf.length := List.length_take

theorem KcpSocket.Sized.accepts (hK : K.Sends side) (h : s.Sized side) (buf : Bytes) :
    (side s.kcp).needs (s.chunk K buf) ≤ maxSendSegments ∧
      side (K.send s.kcp (s.chunk K buf)).1 = (side s.kcp).send (s.chunk K buf) ∧
      (K.send s.kcp (s.chunk K buf)).2 = .ok (s.chunk K buf).length := by
  have hlen : (s.chunk K buf).length ≤ (side s.kcp).mss * maxSendSegments := by
    rw [s.length_chunk, h.maxSendLen_eq]
    split
    · exact Nat.le_trans (Nat.min_le_left _ _) (Nat.mul_le_mul_left _ (by decide))
    · exact Nat.min_le_left _ _
  have hneeds := (side s.kcp).needs_le (by decide) hlen
  exact ⟨hneeds, hK.send s.kcp _ h.mss (Nat.lt_succ_of_le hneeds)⟩

theorem KcpSocket.PollsSend.sends (hK : K.Sends side) (hw : K.Waits) (hs : s.Sized side)
    (h : s.PollsSend K waker buf t result) :
    s.SendsNothing K t ∧ (∀ n, result ≠ .ready (.ok n)) ∨
      s.SendsChunk K side buf t ∧ (result = .ready (.ok (s.chunk K buf).length) ∨
        ∃ err, result = .ready (.error err)) := by
  obtain ⟨_, hside, hok⟩ := hs.accepts hK buf
  cases h with
  | closed hc => exact .inl ⟨⟨.inl hc, rfl, rfl⟩, nofun⟩
  | waits hc hb => exact .inl ⟨⟨.inr hb, rfl, rfl⟩, nofun⟩
  | refused hc hb hsend =>
    rw [KcpSocket.chunk, hsend] at hok
    cases hok
  | @taken k n l r last hc hb hsend hf hr =>
    right
    have hwait : K.waitingConv k = K.waitingConv s.kcp := by
      have hkeep := hw.send s.kcp (buf.take (s.maxSendLen K))
      rw [hsend] at hkeep
      exact hkeep
    rw [KcpSocket.chunk, hsend] at hside hok
    cases hok
    refine ⟨⟨hc, hb, ?_, ?_, Prod.ext rfl hc⟩, ?_⟩
    · have hflushed : (side k).Holds (side l) := by
        clear hsend hwait hside hr
        induction hf with
        | refl => exact .refl _
        | flush _ ih => exact ih.trans (hK.flush _)
      rw [KcpSocket.chunk, ← hside]
      exact hflushed
    · exact (hf.keeps hw.flush).trans hwait
    · rcases hr with rfl | ⟨err, rfl⟩
      · exact .inl rfl
      · exact .inr ⟨err, rfl⟩

theorem KcpCrate.Sends.takes (hK : K.Sends side) (flushAck : Bool) (k : κ) (bufs : List Bytes) :
    (side k).Acked (side (K.takes flushAck k bufs)) := by
  apply KcpCrate.takes_keeps (P := fun l => (side k).Acked (side l))
  · exact fun l buf h => h.trans (hK.input l buf)
  · exact fun l h => h.trans (hK.flushAck l).acked
  · exact (SendSide.Holds.refl _).acked

theorem KcpCrate.Waits.takes (hw : K.Waits) (flushAck : Bool) (bufs : List Bytes)
    (h : K.waitingConv k = false) : K.waitingConv (K.takes flushAck k bufs) = false := by
  apply KcpCrate.takes_keeps (P := fun l => K.waitingConv l = false)
  · exact hw.input
  · exact fun l h => (hw.flushAck l).trans h
  · exact h

theorem KcpSocket.PollsSend.settings (h : s.PollsSend K waker buf t result) :
    t.settings = s.settings := by
  cases h with
  | closed hc => rfl
  | waits hc hb => rfl
  | refused hc hb hs => rfl
  | taken hc hb hs hf hr => rfl

theorem KcpSocket.Effect.setup (hK : K.Sends side) (hw : K.Waits) (h : s.Effect K side op t)
    (hs : s.Sized side) : (side t.kcp).setup = (side s.kcp).setup ∧ t.settings = s.settings := by
  cases h with
  | pollSend h =>
    rcases h.sends hK hw hs with ⟨hnothing, _⟩ | ⟨hchunk, _⟩
    · exact ⟨hnothing.kcp ▸ rfl, h.settings⟩
    · exact ⟨hchunk.holds.setup, h.settings⟩
  | input hkcp hphase hsettings => exact ⟨hkcp ▸ (hK.takes _ _ _).setup, hsettings⟩
  | quiet hop h => exact ⟨h.holds.setup, h.settings⟩

theorem KcpSocket.Effect.sized (hK : K.Sends side) (hw : K.Waits) (h : s.Effect K side op t)
    (hs : s.Sized side) : t.Sized side := by
  obtain ⟨hsetup, hsettings⟩ := h.setup hK hw hs
  exact hs.keep hsetup hsettings

theorem KcpSocket.Effect.unsent (hK : K.Sends side) (hw : K.Waits) (h : s.Effect K side op t)
    (hs : s.Sized side) (hu : s.Unsent side) : t.Unsent side := by
  intro hsent
  cases h with
  | pollSend h =>
    rcases h.sends hK hw hs with ⟨hnothing, _⟩ | ⟨hchunk, _⟩
    · rw [hnothing.kcp]
      exact hu ((congrArg Prod.fst hnothing.phase).symm.trans hsent)
    · have hsent' := congrArg Prod.fst hchunk.phase
      exact absurd (hsent'.symm.trans hsent) (by decide)
  | input hkcp hphase hsettings =>
    have hnil := hu ((congrArg Prod.fst hphase).symm.trans hsent)
    rw [hkcp]
    apply List.sublist_nil.mp
    rw [← hnil]
    exact (hK.takes _ _ _).segments
  | quiet hop h =>
    rw [h.holds.segments]
    exact hu (h.sentFirst.symm.trans hsent)

theorem KcpSocket.Fresh.sending (hK : K.Sends side)
    (h : s.Fresh K rs config conv stream now) :
    s.Sized side ∧ s.Unsent side ∧ (side s.kcp).stream = stream := by
  obtain ⟨output, hkcp⟩ := h.kcp
  obtain ⟨k, hconfig, hkcp⟩ := bind_eq_ok.mp hkcp
  obtain ⟨mtu, hmtu, hk⟩ := KcpConfig.applyConfig_eq hconfig
  have hnew : (side (if stream then K.newStream conv output else K.new conv output)).stream =
      stream ∧
      (side (if stream then K.newStream conv output else K.new conv output)).segments = [] := by
    cases stream with
    | true => exact hK.newStream conv output
    | false => exact hK.new conv output
  -- the configuration sets the segment size, and nothing after it does
  have hconfigured : (side k).mss = mtu - kcpOverhead ∧ (side k).stream = stream ∧
      (side k).segments = [] := by
    obtain ⟨wnd, hwnd⟩ := hK.setWndsize (K.setNodelay (K.setMtu (if stream then
      K.newStream conv output else K.new conv output) mtu).1 config.nodelay.nodelay
      config.nodelay.interval config.nodelay.resend config.nodelay.nc) config.wndSize.1
      config.wndSize.2
    rw [hk, hwnd, hK.setNodelay, hK.setMtu _ _ hmtu]
    exact ⟨rfl, hnew⟩
  have hlast := Except.ok.inj hkcp
  have hfirst : K.mss k = s.firstSendChunkLen := congrArg (·.2.1) hlast
  have hholds : (side k).Holds (side s.kcp) := by
    have hkcp : (K.update (if conv = 0 then K.inputConv k else k) (.ofNat now)).1 = s.kcp :=
      congrArg Prod.fst hlast
    rw [← hkcp]
    split
    · rw [← hK.inputConv k]
      exact hK.update _ _
    · exact hK.update _ _
  have hmss := SendSide.mss_eq hholds.setup
  have hfirst' : s.firstSendChunkLen = (side s.kcp).mss := by
    rw [hmss, ← hfirst, hK.mss]
  refine ⟨⟨?_, hfirst', ?_⟩, ?_, ?_⟩
  · rw [hmss, hconfigured.1]
    exact Nat.sub_le_sub_right hmtu kcpOverhead
  · rw [h.maxSendChunkLen, hfirst']
  · intro _
    exact hholds.segments.trans hconfigured.2.2
  · exact (SendSide.stream_eq hholds.setup).trans hconfigured.2.1

theorem KcpSocket.Op.sending (hK : K.Sends side) (hw : K.Waits) (h : s.Op K op t)
    (hs : s.Sized side ∧ s.Unsent side) : t.Sized side ∧ t.Unsent side :=
  have heffect := h.effect hK hw
  ⟨heffect.sized hK hw hs.1, heffect.unsent hK hw hs.1 hs.2⟩

theorem KcpSocket.run_sending {trace : List (KcpSocket κ × SocketOp)} (hK : K.Sends side)
    (hw : K.Waits) (hnew : KcpSocket.new K rs config conv stream now = .ok (.ok s))
    (hrun : Run (KcpSocket.Op K) s trace t) :
    Always (fun s => s.Sized side ∧ s.Unsent side) trace t := by
  obtain ⟨hsized, hunsent, _⟩ := (KcpSocket.new_fresh hnew).sending hK
  apply hrun.invariant (P := fun s => s.Sized side ∧ s.Unsent side) _ ⟨hsized, hunsent⟩
  exact fun _ _ _ hs h => h.sending hK hw hs

end TokioKcp
