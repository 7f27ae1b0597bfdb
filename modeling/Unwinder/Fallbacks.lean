import Unwinder.Aarch64
import Unwinder.X8664

namespace Unwinder
open Lib

/-- A routine of one architecture: it may fail, reads the stack, and changes the
registers it was lent. -/
abbrev RegsM (Regs : Type) := ExceptT Error (StateM (Regs × World))

namespace RegsM

variable {Regs : Type}

def regs : RegsM Regs Regs := do
  let s ← getThe (Regs × World)
  return s.1

def change (f : Regs → Regs) : RegsM Regs Unit :=
  modifyThe (Regs × World) (fun s => (f s.1, s.2))

/-- The value, or the error that stands for its absence. -/
def okOr {α : Type} (err : Error) : Option α → RegsM Regs α
  | some a => pure a
  | none => throw err

/-- One call of the caller's reader. -/
def readStack (reader : Reader) (addr : UInt64) : RegsM Regs (Option UInt64) := do
  let s ← getThe (Regs × World)
  let (answer, w) := reader.read addr s.2
  set (s.1, w)
  return answer

/-- Result, registers and world of a routine that was run. -/
def outcome {α : Type} (x : RegsM Regs α) (regs : Regs) (w : World) : Outcome Regs α :=
  (ExceptT.run x).run (regs, w)

end RegsM

open RegsM

/-- The body of the x86_64 `fallback_unwind_frame`, statement by statement. -/
def X8664.fallbackUnwindFrameBody (currentIp : UInt64) (reader : Reader) :
    RegsM X8664.UnwindRegs (Option UInt64) := do
  let sp := (← regs).sp
  let bp := (← regs).bp
  if bp = 0 then
    return none
  let returnAddressLocation ← okOr .integerOverflow (checkedAdd64 bp 8)
  let newSp ← okOr .integerOverflow (checkedAdd64 bp 16)
  if newSp ≤ sp then
    throw .framepointerUnwindingMovedBackwards
  let newBp ← okOr (.couldNotReadStack bp) (← readStack reader bp)
  if newBp ≠ 0 ∧ newBp ≤ bp then
    throw .framepointerUnwindingMovedBackwards
  let returnAddress ← okOr (.couldNotReadStack returnAddressLocation)
    (← readStack reader returnAddressLocation)
  if returnAddress = 0 then
    return none
  if newSp = sp ∧ returnAddress = currentIp then
    throw .didNotAdvance
  change (·.clearUnrestoredCallerRegisters)
  change (·.setIp returnAddress)
  change (·.setSp newSp)
  change (·.setBp newBp)
  return some returnAddress

/-- The body of the aarch64 `fallback_unwind_frame`, statement by statement. -/
def Aarch64.fallbackUnwindFrameBody (currentIp : UInt64) (reader : Reader) :
    RegsM Aarch64.UnwindRegs (Option UInt64) := do
  let sp := (← regs).sp
  let fp := (← regs).fp
  if fp = 0 then
    return none
  let returnAddressLocation ← okOr .integerOverflow (checkedAdd64 fp 8)
  let newSp ← okOr .integerOverflow (checkedAdd64 fp 16)
  if newSp ≤ sp then
    throw .framepointerUnwindingMovedBackwards
  let newFp ← okOr (.couldNotReadStack fp) (← readStack reader fp)
  if newFp ≠ 0 ∧ newFp ≤ fp then
    throw .framepointerUnwindingMovedBackwards
  let newLr ← okOr (.couldNotReadStack returnAddressLocation)
    (← readStack reader returnAddressLocation)
  let returnAddress := (← regs).lrMask.stripPtrAuth newLr
  if returnAddress = 0 then
    return none
  if returnAddress = currentIp ∧ newSp = sp then
    throw .didNotAdvance
  change (·.setLr newLr)
  change (·.setSp newSp)
  change (·.setFp newFp)
  return some returnAddress

end Unwinder
