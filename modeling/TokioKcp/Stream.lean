import TokioKcp.Session
import TokioKcp.Lib.Loop
import TokioKcp.Lib.Runs

namespace TokioKcp
set_option autoImplicit true

open Checked Fec ErasureCode Transition

variable {κ : Type} (K : KcpCrate κ)

/-- The stream's own part; the session that it has is shared with others. -/
structure KcpStream where
  recvBuffer : Bytes
  recvBufferPos : Nat
  recvBufferCap : Nat

def KcpStream.withSession : KcpStream where
  recvBuffer := []
  recvBufferPos := 0
  recvBufferCap := 0

/-- A stream with the socket of its session, while the stream has the socket locked. -/
abbrev Locked (κ : Type) := KcpStream × KcpSocket κ

/-- The user's buffer is too small, read to the stream's. -/
def KcpStream.recvBuffered (self : KcpStream) (kcp : KcpSocket κ) (requiredSize : Nat)
    (waker : Waker) (now : Nat) : Locked κ ⊕ (Locked κ × Poll (KcpResult Bytes)) :=
  let self :=
    if self.recvBuffer.length < requiredSize then
      { self with recvBuffer := resize requiredSize 0 self.recvBuffer }
    else
      self
  match kcp.pollRecv K waker self.recvBuffer.length now with
  | (kcp, .pending) => .inr ((self, kcp), .pending)
  | (kcp, .ready (.ok [])) => .inr ((self, kcp), .ready (.ok []))
  | (kcp, .ready (.ok data)) =>
    .inl ({ self with
      recvBuffer := data ++ self.recvBuffer.drop data.length
      recvBufferPos := 0
      recvBufferCap := data.length }, kcp)
  | (kcp, .ready (.error err)) => .inr ((self, kcp), .ready (.error err))

/-- One round of the loop in `poll_recv`. `len` is the length of the caller's buffer. -/
def KcpStream.recvRound (waker : Waker) (len now : Nat) :
    Locked κ → Exec (Locked κ ⊕ (Locked κ × Poll (KcpResult Bytes)))
  | (self, kcp) =>
    -- Consumes all data in buffer
    if self.recvBufferPos < self.recvBufferCap then do
      let remaining := self.recvBufferCap - self.recvBufferPos
      let copyLength := min remaining len
      let data ← slice self.recvBuffer self.recvBufferPos (self.recvBufferPos + copyLength)
      return .inr (({ self with recvBufferPos := self.recvBufferPos + copyLength }, kcp),
        .ready (.ok data))
    else
      let peekSize := (K.peeksize kcp.kcp).toOption.getD 0
      -- User's provided buffer is larger than available buffer's size
      if peekSize > 0 ∧ peekSize ≤ len then
        match kcp.pollRecv K waker len now with
        | (kcp, .pending) => .ok (.inr ((self, kcp), .pending))
        | (kcp, .ready (.error .userBufTooSmall)) =>
          .ok (self.recvBuffered K kcp peekSize waker now)
        | (kcp, .ready result) => .ok (.inr ((self, kcp), .ready result))
      else
        .ok (self.recvBuffered K kcp peekSize waker now)

/-- Receives data into a buffer of the given length. -/
def KcpStream.pollRecv (rounds : Nat) (waker : Waker) (len now : Nat) (x : Locked κ) :
    Exec (Option (Locked κ × Poll (KcpResult Bytes))) :=
  loop (KcpStream.recvRound K waker len now) rounds x

/-- The progress of `send` on a buffer. -/
inductive Sending where
  | sending (sent : Nat)
  | done (result : KcpResult Nat)

/-- `send` begins with the whole of its buffer. -/
def Sending.start : Sending := .sending 0

/-- `send` polls the socket for the part of the buffer that is left. An empty buffer is polled
for once. -/
def KcpStream.sendPoll (buf : Bytes) (waker : Waker) (now : Nat) :
    Sending → KcpSocket κ → Sending × KcpSocket κ
  | .done result, kcp => (.done result, kcp)
  | .sending sent, kcp =>
    match kcp.pollSend K waker (buf.drop sent) now with
    | (kcp, .pending) => (.sending sent, kcp)
    | (kcp, .ready (.error err)) => (.done (.error err), kcp)
    | (kcp, .ready (.ok n)) =>
      (if sent + n < buf.length then .sending (sent + n) else .done (.ok (sent + n)), kcp)

/-- What others do to the socket of a stream's session while it is open. -/
inductive SessionCall where
  | input (buf : Bytes)
  | pollSend (waker : Waker) (buf : Bytes)
  | updateAt
  | flush

def SessionCall.toSocket : SessionCall → SocketCall
  | .input buf => .input buf
  | .pollSend waker buf => .pollSend waker buf
  | .updateAt => .updateAt
  | .flush => .flush

end TokioKcp
