import Mathlib.Data.Bool.Basic
import TokioKcp.Kcp
import TokioKcp.Lib.Runs

/-! Two control blocks of the `kcp` crate, with nothing but a network between them. -/

namespace TokioKcp
set_option autoImplicit true

open Transition

inductive KcpOp where
  | update (now : UInt32)
  | input (buf : Bytes)
  | send (buf : Bytes)
  | recv (len : Nat)
  | flush
  | flushAck

variable {κ : Type}

def KcpCrate.operate (K : KcpCrate κ) (k : κ) : KcpOp → κ
  | .update now => (K.update k now).1
  | .input buf => (K.input k buf).1
  | .send buf => (K.send k buf).1
  | .recv len => (K.recv k len).1
  | .flush => (K.flush k).1
  | .flushAck => (K.flushAck k).1

def KcpCrate.accepts (K : KcpCrate κ) (k : κ) : KcpOp → Bytes
  | .send buf =>
    match (K.send k buf).2 with
    | .ok _ => buf
    | .error _ => []
  | _ => []

def KcpCrate.delivers (K : KcpCrate κ) (k : κ) : KcpOp → Bytes
  | .recv len => (K.recv k len).2.toOption.getD []
  | _ => []

/-- A control block that operations lead to, with the bytes that were taken and handed over on the
way. What is input is of the given buffers. -/
inductive KcpCrate.Works (K : KcpCrate κ) (inputs : List Bytes) (k : κ) :
    Bytes → Bytes → κ → Prop where
  | refl : Works K inputs k [] [] k
  | operate (h : Works K inputs k sent received l) (op : KcpOp)
      (hinput : ∀ buf, op = .input buf → buf ∈ inputs) :
      Works K inputs k (sent ++ K.accepts l op) (received ++ K.delivers l op) (K.operate l op)

/-- A control block with the buffers that it has written, and the bytes that it has taken to send
and has handed over. -/
structure KcpEnd (κ : Type) where
  kcp : κ
  wrote : List Bytes
  sent : Bytes
  received : Bytes

abbrev KcpPair (κ : Type) := Bool → KcpEnd κ

def KcpPair.new (kcp : Bool → κ) : KcpPair κ := fun side => ⟨kcp side, [], [], []⟩

inductive PairEvent where
  | operate (side : Bool) (op : KcpOp)
  | write (side : Bool) (buf : Bytes)

/-- A control block is given what the other has written, any number of times and in any order, or
never. `writes` tells what a control block may have written in the operations that led to it. -/
inductive KcpPair.Step (K : KcpCrate κ) (writes : κ → Bytes → Prop) (s : KcpPair κ) :
    PairEvent → KcpPair κ → Prop where
  | operate (hinput : ∀ buf, op = .input buf → buf ∈ (s (!side)).wrote) :
      Step K writes s (.operate side op) (Function.update s side
        { s side with
          kcp := K.operate (s side).kcp op
          sent := (s side).sent ++ K.accepts (s side).kcp op
          received := (s side).received ++ K.delivers (s side).kcp op })
  | write (h : writes (s side).kcp buf) :
      Step K writes s (.write side buf) (Function.update s side
        { s side with wrote := (s side).wrote ++ [buf] })

/-- What KCP promises: the bytes that one side hands over are the first that the other was given,
whatever the network does. -/
def KcpCrate.Reliable (K : KcpCrate κ) (writes : κ → Bytes → Prop) (kcp : Bool → κ) : Prop :=
  ∀ trace pair, Run (KcpPair.Step K writes) (.new kcp) trace pair →
    ∀ side, (pair side).received <+: (pair (!side)).sent

variable {K : KcpCrate κ} {inputs inputs' : List Bytes} {k l m : κ}
variable {sent received : Bytes} {pair : KcpPair κ} {side : Bool}

theorem KcpCrate.Works.trans {sent' received' : Bytes} (h : K.Works inputs k sent received l)
    (h' : K.Works inputs l sent' received' m) :
    K.Works inputs k (sent ++ sent') (received ++ received') m := by
  induction h' with
  | refl =>
    rw [List.append_nil, List.append_nil]
    exact h
  | operate _ op hinput ih =>
    rw [← List.append_assoc, ← List.append_assoc]
    exact .operate ih op hinput

theorem KcpCrate.works_once (K : KcpCrate κ) (inputs : List Bytes) (k : κ) (op : KcpOp)
    (hinput : ∀ buf, op = .input buf → buf ∈ inputs) :
    K.Works inputs k (K.accepts k op) (K.delivers k op) (K.operate k op) :=
  .operate .refl op hinput

theorem KcpCrate.Works.quiet (h : K.Works inputs k sent received l) (op : KcpOp)
    (hinput : ∀ buf, op = .input buf → buf ∈ inputs) (hsent : K.accepts l op = [])
    (hreceived : K.delivers l op = []) :
    K.Works inputs k sent received (K.operate l op) := by
  have hnext := h.operate op hinput
  rw [hsent, hreceived, List.append_nil, List.append_nil] at hnext
  exact hnext

theorem KcpPair.step_update (writes : κ → Bytes → Prop) (x : KcpEnd κ)
    (hinput : ∀ buf, op = .input buf → buf ∈ (pair (!side)).wrote) :
    KcpPair.Step K writes (Function.update pair side x) (.operate side op)
      (Function.update pair side
        { x with
          kcp := K.operate x.kcp op
          sent := x.sent ++ K.accepts x.kcp op
          received := x.received ++ K.delivers x.kcp op }) := by
  have hother : Function.update pair side x (!side) = pair (!side) :=
    Function.update_of_ne (Bool.not_ne_self side) ..
  have hstep : KcpPair.Step K writes (Function.update pair side x) (.operate side op) _ :=
    .operate (hother ▸ hinput)
  rw [Function.update_self, Function.update_idem] at hstep
  exact hstep

/-- One side of a pair works, and the other is as it was. -/
theorem KcpPair.run_works (writes : κ → Bytes → Prop)
    (h : K.Works (pair (!side)).wrote (pair side).kcp sent received l) :
    ∃ trace, Run (KcpPair.Step K writes) pair trace (Function.update pair side
      { pair side with
        kcp := l
        sent := (pair side).sent ++ sent
        received := (pair side).received ++ received }) := by
  induction h with
  | refl =>
    refine ⟨[], ?_⟩
    rw [List.append_nil, List.append_nil, Function.update_eq_self]
    exact .nil
  | operate h op hinput ih =>
    obtain ⟨trace, hrun⟩ := ih
    refine ⟨trace ++ [(_, .operate side op)], hrun.append (.cons ?_ .nil)⟩
    rw [← List.append_assoc, ← List.append_assoc]
    exact KcpPair.step_update writes _ hinput

end TokioKcp
