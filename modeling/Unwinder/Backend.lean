import Unwinder.AddressSpace

namespace Unwinder
open Lib

/-- The code address of a frame. The first frame is an instruction pointer, a
frame that was unwound to is a return address. -/
inductive FrameAddress where
  | instructionPointer (ip : UInt64)
  | returnAddress (ra : UInt64) (nonZero : ra ≠ 0)
deriving DecidableEq

namespace FrameAddress

def fromReturnAddress (ra : UInt64) : Option FrameAddress :=
  if h : ra = 0 then none else some (.returnAddress ra h)

/-- A return address is looked up inside the call in front of it. -/
def addressForLookup : FrameAddress → UInt64
  | instructionPointer ip => ip
  | returnAddress ra _ => ra - 1

def address : FrameAddress → UInt64
  | instructionPointer ip => ip
  | returnAddress ra _ => ra

def isReturnAddress : FrameAddress → Bool
  | instructionPointer _ => false
  | returnAddress _ _ => true

end FrameAddress

/-- The process that the unwinder runs in: the linked libunwind, and the local
memory around the mirrored sections. -/
structure Process where
  libunwind : Libunwind
  memory : Nat → UInt8

/-- Result, registers and world after a call. -/
abbrev Outcome (Regs α : Type) := Except Error α × Regs × World

/-- What one architecture adds to the steps that both take alike. -/
structure Backend (Regs Raw : Type) where
  /-- What is masked off code addresses. -/
  strip : Regs → UInt64 → UInt64
  sp : Regs → UInt64
  fp : Regs → UInt64
  raw : UInt64 → Regs → Raw
  accessReg : RegAccess Raw
  regIp : Int
  extraRegs : List Int
  /-- The registers behind a step of libunwind to the given address. -/
  stepped : Regs → UInt64 → Extras → Regs
  /-- The registers behind a frame-pointer step: the return address, the word it
  was read as, and the new stack and frame pointers. -/
  fallback : Regs → UInt64 → UInt64 → UInt64 → UInt64 → Regs
  /-- A step does not change what is masked off. -/
  strip_stepped : ∀ regs ip extras, strip (stepped regs ip extras) = strip regs
  strip_fallback : ∀ regs ra word sp fp, strip (fallback regs ra word sp fp) = strip regs

namespace Backend

variable {Regs Raw : Type} (B : Backend Regs Raw)

def currentIp (regs : Regs) (frame : FrameAddress) : UInt64 := B.strip regs frame.address

def lookupIp (regs : Regs) (frame : FrameAddress) : UInt64 := B.strip regs frame.addressForLookup

/-- The second half of the frame-pointer step: the return address. -/
def fallbackReturn (currentIp raLocation newSp newFp : UInt64) (regs : Regs) (readStack : Reader)
    (w : World) : Outcome Regs (Option UInt64) :=
  match readStack.read raLocation w with
  | (none, w) => (.error (.couldNotReadStack raLocation), regs, w)
  | (some word, w) =>
    let returnAddress := B.strip regs word
    if returnAddress = 0 then (.ok none, regs, w)
    else if returnAddress = currentIp ∧ newSp = B.sp regs then (.error .didNotAdvance, regs, w)
    else (.ok (some returnAddress), B.fallback regs returnAddress word newSp newFp, w)

/-- Unwinds by frame pointer where there is no unwind info. -/
def fallbackUnwindFrame (currentIp : UInt64) (regs : Regs) (readStack : Reader) (w : World) :
    Outcome Regs (Option UInt64) :=
  let fp := B.fp regs
  if fp = 0 then (.ok none, regs, w)
  else match checkedAdd64 fp 8, checkedAdd64 fp 16 with
    | some raLocation, some newSp =>
      if newSp ≤ B.sp regs then (.error .framepointerUnwindingMovedBackwards, regs, w)
      else match readStack.read fp w with
        | (none, w) => (.error (.couldNotReadStack fp), regs, w)
        | (some newFp, w) =>
          if newFp ≠ 0 ∧ newFp ≤ fp then (.error .framepointerUnwindingMovedBackwards, regs, w)
          else B.fallbackReturn currentIp raLocation newSp newFp regs readStack w
    | _, _ => (.error .integerOverflow, regs, w)

variable (P : Process) (modules : ModuleSet)

def env (lookupIp : UInt64) (readStack : Reader) : UnwindEnv :=
  ⟨modules, lookupIp, readStack, P.memory⟩

def startCtx (lookupIp : UInt64) (regs : Regs) (w : World) : UnwindCtx Raw :=
  ⟨B.raw lookupIp regs, none, none, w⟩

/-- One step of libunwind on the raw registers. -/
def nativeStep (lookupIp : UInt64) (regs : Regs) (readStack : Reader) (w : World) :
    Option (Except LibunwindError StepOutcome × UnwindCtx Raw) :=
  (initAndStep P.libunwind B.regIp B.extraRegs).run
    (accessors B.accessReg (env P modules lookupIp readStack)) (B.startCtx lookupIp regs w)

/-- The address that is reported for a recovered one: libunwind was handed the
decremented address of a return-address frame, so one is added back. -/
def compensated (frame : FrameAddress) (signalFrame : Bool) (ra : UInt64) : Option UInt64 :=
  if frame.isReturnAddress && !signalFrame && modules.containsAddress ra then checkedAdd64 ra 1
  else some ra

/-- What is made of a step that reached a frame. -/
def steppedResult (frame : FrameAddress) (signalFrame : Bool) (newIp : UInt64)
    (extras : Extras) (regs : Regs) : Except Error (Option UInt64) × Regs :=
  let returnAddress := B.strip regs newIp
  if returnAddress = 0 then (.ok none, regs)
  else match compensated modules frame signalFrame returnAddress with
    | none => (.error .integerOverflow, regs)
    | some returnAddress =>
      if returnAddress = B.currentIp regs frame ∧ extras.newSp = B.sp regs then
        (.error .didNotAdvance, regs)
      else (.ok (some returnAddress), B.stepped regs returnAddress extras)

/-- Whom a failed step is blamed on. -/
def stepError (err : LibunwindError) (ctx : UnwindCtx Raw) : Error :=
  match ctx.lastFailedReadAddr, ctx.unwindInfoError with
  | some addr, _ => .couldNotReadStack addr
  | none, some err => .unwindInfo err
  | none, none => .libunwind err

def finishStep (frame : FrameAddress) (regs : Regs) :
    Except LibunwindError StepOutcome → UnwindCtx Raw → Outcome Regs (Option UInt64)
  | .ok .endOfStack, ctx => (.ok none, regs, ctx.world)
  | .ok (.stepped newIp extras), ctx =>
    let signalFrame := modules.isSignalFrame ctx.world.caches (B.lookupIp regs frame)
    let (result, regs) := B.steppedResult modules frame signalFrame newIp extras regs
    (result, regs, ctx.world)
  | .error err, ctx => (.error (stepError err ctx), regs, ctx.world)

/-- One unwinding step. There is no outcome where a callback has panicked. -/
def unwindFrame (readStack : Reader) (frame : FrameAddress) (regs : Regs) (w : World) :
    Option (Outcome Regs (Option UInt64)) :=
  match modules.unwindInfoError (B.lookupIp regs frame) with
  | some err => some (.error (.unwindInfo err), regs, w)
  | none =>
    if modules.hasUnwindInfo (B.lookupIp regs frame) = false then
      some (B.fallbackUnwindFrame (B.currentIp regs frame) regs readStack w)
    else
      (B.nativeStep P modules (B.lookupIp regs frame) regs readStack w).map
        (fun r => B.finishStep modules frame regs r.1 r.2)

def isSignalFrame (caches : Caches) (frame : FrameAddress) (regs : Regs) : Bool :=
  modules.isSignalFrame caches (B.lookupIp regs frame)

end Backend

end Unwinder
