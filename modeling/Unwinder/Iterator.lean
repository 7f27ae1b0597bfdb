import Unwinder.Backend

namespace Unwinder

/-- What the iterator uses of an architecture's unwinder. -/
structure FrameUnwinder (Regs : Type) where
  isSignalFrame : Caches → FrameAddress → Regs → Bool
  unwindFrame : Reader → FrameAddress → Regs → World → Option (Outcome Regs (Option UInt64))

def Backend.unwinder {Regs Raw : Type} (B : Backend Regs Raw) (P : Process) (modules : ModuleSet) :
    FrameUnwinder Regs where
  isSignalFrame := B.isSignalFrame modules
  unwindFrame := B.unwindFrame P modules

inductive UnwindIteratorState where
  | initial (pc : UInt64)
  | unwinding (frame : FrameAddress)
  | done
deriving DecidableEq

structure UnwindIterator (Regs : Type) where
  state : UnwindIteratorState
  regs : Regs

namespace UnwindIterator

variable {Regs : Type}

def new (pc : UInt64) (regs : Regs) : UnwindIterator Regs := ⟨.initial pc, regs⟩

/-- The frame that a return address belongs to, if it is one. -/
def frameOf (interrupted : Bool) (ra : UInt64) : Option FrameAddress :=
  if interrupted then some (.instructionPointer ra) else FrameAddress.fromReturnAddress ra

/-- The state behind a step, and the frame that is returned. -/
def advance (interrupted : Bool) (returnAddress : Option UInt64) :
    Option FrameAddress × UnwindIteratorState :=
  match returnAddress.bind (frameOf interrupted) with
  | some frame => (some frame, .unwinding frame)
  | none => (none, .done)

def next (U : FrameUnwinder Regs) (readStack : Reader) (it : UnwindIterator Regs) (w : World) :
    Option (Except Error (Option FrameAddress) × UnwindIterator Regs × World) :=
  match it.state with
  | .initial pc =>
    let frame := FrameAddress.instructionPointer pc
    some (.ok (some frame), { it with state := .unwinding frame }, w)
  | .unwinding frame =>
    match U.unwindFrame readStack frame it.regs w with
    | none => none
    | some (.error err, regs, w) => some (.error err, { it with regs := regs }, w)
    | some (.ok returnAddress, regs, w) =>
      let (result, state) := advance (U.isSignalFrame w.caches frame regs) returnAddress
      some (.ok result, ⟨state, regs⟩, w)
  | .done => some (.ok none, it, w)

end UnwindIterator

end Unwinder
