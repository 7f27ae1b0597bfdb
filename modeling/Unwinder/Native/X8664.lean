import Unwinder.Native.Step
import Unwinder.X8664

namespace Unwinder.Native.X8664
open Lib Ffi Unwinder.X8664

/-- What differs from build to build: the addresses that the headers it was built
with call a vsyscall page, and the bit that is read as `signal_frame`. -/
structure Build where
  isVsyscall : UInt64 → Bool
  signalFrame : DwarfCieInfo → Bool

variable (b : Build)

def target : Target where
  numPreservedRegs := 17
  columns_fit := by decide
  sp := 7
  dwarfToUnwRegnum reg := if reg < 17 then reg else 0
  valLoc := .val
  raSignState := none
  signalFrame := b.signalFrame

abbrev Cursor := DwarfCursor 17

def RBP : Fin 17 := 6
def RSP : Fin 17 := 7
def RIP : Fin 17 := 16

def UNW_X86_64_CFA : Int := 17

/-- A read of `tdep_access_reg`. No exception-handling arguments are ever set. -/
def tdepAccessReg (c : Cursor) (reg : Int) : Code UInt64 :=
  if reg = UNW_X86_64_CFA then return c.cfa
  else if h : 0 ≤ reg ∧ reg < 17 then dwarfGet (c.loc ⟨reg.toNat, by omega⟩)
  else throw (.status (-UNW_EBADREG))

/-- `unw_get_reg` inside libunwind. -/
def getReg (c : Cursor) (reg : UInt64) : Code UInt64 :=
  if (reg.toNat : Int) = UNW_REG_IP then return c.ip else tdepAccessReg c reg.toNat

/-- The cursor before its instruction pointer and frame address are read. -/
def blankCursor : Cursor where
  cfa := 0
  ip := 0
  loc i := .reg (UInt64.ofNat i)
  usePrevInstr := false
  pi := clearedProcInfo
  sigcontext := false

def commonInit : Code (Int × Cursor) := do
  match ← attempt (dwarfGet (blankCursor.loc RIP)) with
  | .error ret => return (ret, blankCursor)
  | .ok ip =>
    match ← attempt (dwarfGet (.reg 7)) with
    | .error ret => return (ret, { blankCursor with ip := ip })
    | .ok cfa => return (0, { blankCursor with ip := ip, cfa := cfa })

/-- Whether the code looks like an entry of a procedure linkage table. -/
def isPltEntry (c : Cursor) : Code Bool := do
  match ← attempt (accessMem c.ip) with
  | .error _ => return false
  | .ok w0 =>
    match ← attempt (accessMem (c.ip + 8)) with
    | .error _ => return false
    | .ok w1 =>
      return w0 &&& 0xffff = 0x25ff ∧ (w0 >>> 48) &&& 0xff = 0x68 ∧ (w1 >>> 24) &&& 0xff = 0xe9

/-- The return address is on top of the stack. -/
def popReturn (c : Cursor) : Cursor :=
  { c with loc := Function.update c.loc RIP (.mem c.cfa), cfa := c.cfa + 8 }

/-- The end of the frame-chain step: the locations are known, and how reading the
code at the old instruction pointer went. -/
def finishChain (prev c : Cursor) (invalidPrevRip ret : Int) : Code (Int × Cursor) := do
  if c.loc RBP = .null ∧ invalidPrevRip = 0 then return (0, c)
  else if c.loc RIP ≠ .null then
    match ← attempt (dwarfGet (c.loc RIP)) with
    | .error ret => return (ret, c)
    | .ok ip =>
      if ip = prev.ip ∧ c.cfa = prev.cfa then return (-UNW_EBADFRAME, { c with ip := ip })
      else return (1, { c with ip := ip })
  else if 0 = prev.ip ∧ c.cfa = prev.cfa then return (-UNW_EBADFRAME, { c with ip := 0 })
  else return (ret, { c with ip := 0 })

/-- All registers unsaved but the frame pointer, the stack pointer and the
instruction pointer. -/
def chained (c : Cursor) (rbpLoc rspLoc ripLoc : Loc) : Cursor :=
  { c with
    loc := Function.update (Function.update (Function.update (fun _ => .null) RBP rbpLoc)
      RSP rspLoc) RIP ripLoc
    usePrevInstr := true }

/-- The status that reading a word gives. -/
def readStatus : Except Int UInt64 → Int
  | .error ret => ret
  | .ok _ => 0

/-- The guess that the frame pointer is the base of a frame not far above. -/
def guessFrame (prev c : Cursor) (rbp : UInt64) (invalidPrevRip : Int) : Code (Int × Cursor) := do
  let rbp1 ← attempt (dwarfGet (.mem rbp))
  let ret := readStatus rbp1
  let (rbpLoc, ripLoc) : Loc × Loc :=
    if ret < 0 ∨ rbp < c.cfa ∨ 0x4000 < rbp - c.cfa then (.null, .null)
    else (.mem rbp, .mem (rbp + 8))
  finishChain prev (chained { c with cfa := c.cfa + 16 } rbpLoc (.val (rbp + 16)) ripLoc)
    invalidPrevRip ret

/-- The previous instruction pointer was no code: a call through a bad pointer has
left the return address on top of the stack, if what is there is code. -/
def fixupRip (prev c : Cursor) (rbp : UInt64) (invalidPrevRip : Int) : Code (Int × Cursor) := do
  match ← attempt (dwarfGet (c.loc RSP)) with
  | .error _ => throw .undefined
  | .ok rsp =>
    match ← attempt (dwarfGet (.mem rsp)) with
    | .error _ => guessFrame prev c rbp invalidPrevRip
    | .ok newIp =>
      match ← attempt (dwarfGet (.mem newIp)) with
      | .error _ => guessFrame prev c rbp invalidPrevRip
      | .ok _ =>
        finishChain prev
          (chained { c with cfa := c.cfa + 8 } (c.loc RBP) (.val (rsp + 8)) (.mem rsp))
          invalidPrevRip 0

/-- The step along the chain of frame pointers. -/
def followRbp (c : Cursor) : Code (Int × Cursor) := do
  match ← attempt (dwarfGet (c.loc RBP)) with
  | .error ret => return (ret, c)
  | .ok rbp =>
    let invalidPrevRip := readStatus (← attempt (dwarfGet (.mem c.ip)))
    if rbp = 0 ∧ invalidPrevRip = 0 then
      finishChain c (chained c .null .null .null) invalidPrevRip 0
    else if invalidPrevRip ≠ 0 then fixupRip c c rbp invalidPrevRip
    else guessFrame c c rbp invalidPrevRip

/-- What is tried where there is no unwind info: a vsyscall page, a linkage-table
entry, the chain of frame pointers. Signal frames are given up. -/
def frameChain (c : Cursor) : Code (Int × Cursor) := do
  if b.isVsyscall c.ip then finishChain c (popReturn c) 0 1
  else if c.sigcontext then return (0, c)
  else if ← isPltEntry c then finishChain c (popReturn c) 0 0
  else if c.loc RBP = .null then finishChain c { c with loc := fun _ => .null } 0 0
  else followRbp c

def unwStep (rounds : Nat) (c : Cursor) : Code (Int × Cursor) := do
  let (ret, c) ← dwarfStep (target b) getReg rounds { c with sigcontext := false }
  if ret < 0 ∧ ret ≠ -UNW_ENOINFO then return (ret, c)
  else if 0 ≤ ret then
    -- the end of the call chain is marked by a frame pointer without a location
    if c.loc RBP = .null then return (0, { c with ip := 0 }) else return (ret, c)
  else frameChain b c

/-- Libunwind as this crate links it, for x86_64. -/
def libunwind (rounds : Nat) (otherwise : Stop → Int × Cursor) : Libunwind where
  Cursor := Cursor
  initRemote := returning otherwise commonInit
  step c := returning otherwise (unwStep b rounds c)
  getReg := unwGetReg UNW_REG_IP (fun c => c.ip)
    (fun c reg => returningReg otherwise (tdepAccessReg c reg))

end Unwinder.Native.X8664
