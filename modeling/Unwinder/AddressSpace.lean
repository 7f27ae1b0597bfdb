import Unwinder.Callbacks

namespace Unwinder
open Lib Ffi

/-- Code of libunwind: it computes from what the accessors answer. -/
abbrev NativeCall := Interaction Accessor Accessor.Answer

/-- The operations of libunwind on a cursor: a status, and the cursor that the
call leaves. -/
structure Libunwind where
  Cursor : Type
  initRemote : NativeCall (Int × Cursor)
  step : Cursor → NativeCall (Int × Cursor)
  getReg : Cursor → Int → UInt64 → NativeCall (Int × UInt64 × Cursor)

/-- `unw_get_reg` of the vendored libunwind: the instruction pointer stands in the
cursor, any other register is looked up. -/
def unwGetReg {Cursor : Type} (regIp : Int) (tdepGetIp : Cursor → UInt64)
    (tdepAccessReg : Cursor → Int → UInt64 → NativeCall (Int × UInt64)) (cursor : Cursor)
    (regnum : Int) (val : UInt64) : NativeCall (Int × UInt64 × Cursor) := do
  if regnum = regIp then return (0, tdepGetIp cursor, cursor)
  else
    let (ret, val) ← tdepAccessReg cursor regnum val
    return (ret, val, cursor)

/-- The registers that are read besides the instruction pointer, zero where one
is not available: the stack pointer, the frame pointer, and a link register. -/
abbrev Extras := Vector UInt64 4

namespace Extras

def newSp (extras : Extras) : UInt64 := extras.get 0

def newFp (extras : Extras) : UInt64 := extras.get 1

def newLr (extras : Extras) : UInt64 := extras.get 2

end Extras

inductive StepOutcome where
  | stepped (newIp : UInt64) (extras : Extras)
  | endOfStack

variable (L : Libunwind)

/-- The extra registers in turn. Only the first, the stack pointer, must be
available; the others stay zero without it. -/
def readExtras : List Int → Nat → L.Cursor → Extras →
    NativeCall (Except LibunwindError Extras)
  | [], _, _, extras => return .ok extras
  | reg :: rest, index, cursor, extras => do
    let (ret, val, cursor) ← L.getReg cursor reg 0
    if ret < 0 then
      if index = 0 then return .error (.new (.getRegister reg) ret)
      else readExtras rest (index + 1) cursor extras
    else readExtras rest (index + 1) cursor (extras.setIfInBounds index val)

/-- The registers of the frame that a successful step has reached. -/
def readStepped (regIp : Int) (extraRegs : List Int) (cursor : L.Cursor) :
    NativeCall (Except LibunwindError StepOutcome) := do
  let (ret, newIp, cursor) ← L.getReg cursor regIp 0
  if ret < 0 then return .error (.new .getInstructionPointer ret)
  else
    let extras ← readExtras L (extraRegs.take 4) 0 cursor (Vector.replicate 4 0)
    return extras.map (.stepped newIp)

def stepCursor (regIp : Int) (extraRegs : List Int) (cursor : L.Cursor) :
    NativeCall (Except LibunwindError StepOutcome) := do
  let (stepRet, cursor) ← L.step cursor
  if stepRet < 0 then return .error (.new .step stepRet)
  else if stepRet = 0 then return .ok .endOfStack
  else readStepped L regIp extraRegs cursor

/-- Initialises a remote cursor and steps it once. -/
def initAndStep (regIp : Int) (extraRegs : List Int) :
    NativeCall (Except LibunwindError StepOutcome) := do
  let (initRet, cursor) ← L.initRemote
  if initRet < 0 then return .error (.new .initRemote initRet)
  else stepCursor L regIp extraRegs cursor

end Unwinder
