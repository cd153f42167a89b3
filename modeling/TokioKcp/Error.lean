import TokioKcp.Lib.Exec

namespace TokioKcp
set_option autoImplicit true

abbrev Bytes := List UInt8

inductive ErrorKind where
  | invalidInput
  | invalidData
  | brokenPipe
  | other
  deriving DecidableEq, Repr

structure IoError where
  kind : ErrorKind
  message : String
  deriving DecidableEq, Repr

abbrev IoResult := Except IoError

/-- The errors of the `kcp` crate. -/
inductive KcpError where
  | convInconsistent (expected actual : UInt32)
  | invalidMtu (mtu : Nat)
  | invalidSegmentSize (size : Nat)
  | invalidSegmentDataSize (expected actual : Nat)
  | ioError (err : IoError)
  | needUpdate
  | recvQueueEmpty
  | expectingFragment
  | unsupportedCmd (cmd : UInt8)
  | userBufTooBig
  | userBufTooSmall
  deriving DecidableEq, Repr

abbrev KcpResult := Except KcpError

end TokioKcp
