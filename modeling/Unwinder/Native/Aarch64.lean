import Unwinder.Aarch64
import Unwinder.Native.Step

namespace Unwinder.Native.Aarch64
open Lib Ffi Unwinder.Aarch64

abbrev Cursor := DwarfCursor 97

def X29 : Fin 97 := 29
def X30 : Fin 97 := 30
def SP : Fin 97 := 31
def PC : Fin 97 := 32
def PSTATE : Fin 97 := 33
def RA_SIGN_STATE : Fin 97 := 34
def VG : Fin 97 := 46
def V0 : Fin 97 := 64
def V31 : Fin 97 := 95

/-- There are no value locations on this target, and fetching a frame notes
nothing; the format of a signal frame is read by no step. -/
def target (signalFrame : DwarfCieInfo → Bool) : Target where
  numPreservedRegs := 97
  columns_fit := by decide
  sp := SP
  dwarfToUnwRegnum reg := if reg ≤ 95 then reg else 0
  valLoc _ := .null
  raSignState := some RA_SIGN_STATE
  signalFrame := signalFrame

theorem column_lt {reg : Int} (h : 0 ≤ reg ∧ reg < 97) : reg.toNat < 97 := by
  omega

/-- A read of `tdep_access_reg`. The vector granule is kept in a signal context as
the length of a vector in bytes. -/
def tdepAccessReg (c : Cursor) (reg : Int) : Code UInt64 :=
  if h : 0 ≤ reg ∧ reg < 97 then
    let i : Fin 97 := ⟨reg.toNat, column_lt h⟩
    if i = SP then return c.cfa
    else if i ≤ PSTATE then dwarfGet (c.loc i)
    else if i = VG then
      match c.loc i with
      | .reg num => dwarfGet (.reg num)
      | loc => do
        let (val16, _) ← dwarfReadu16 loc.word
        return val16.toUInt64 * 8 / 64
    else throw (.status (-UNW_EBADREG))
  else throw (.status (-UNW_EBADREG))

/-- `unw_get_reg` inside libunwind. -/
def getReg (c : Cursor) (reg : UInt64) : Code UInt64 :=
  if (reg.toNat : Int) = UNW_REG_IP then return c.ip else tdepAccessReg c reg.toNat

/-- The cursor before its instruction pointer and frame address are read. -/
def blankCursor : Cursor where
  cfa := 0
  ip := 0
  loc i := if i ≤ PSTATE ∨ i = VG ∨ (V0 ≤ i ∧ i ≤ V31) then .reg (UInt64.ofNat i) else .null
  usePrevInstr := false
  pi := clearedProcInfo
  sigcontext := false

def commonInit : Code (Int × Cursor) := do
  match ← attempt (dwarfGet (blankCursor.loc PC)) with
  | .error ret => return (ret, blankCursor)
  | .ok ip =>
    match ← attempt (dwarfGet (blankCursor.loc SP)) with
    | .error ret => return (ret, { blankCursor with ip := ip })
    | .ok cfa => return (0, { blankCursor with ip := ip, cfa := cfa })

/-- An instruction of a linkage-table entry: the bits that are fixed, and which. -/
structure InstructionEntry where
  pattern : UInt64
  mask : UInt64

namespace InstructionEntry

def adrp : InstructionEntry := ⟨0x90000010, 0x9f00001f⟩
def ldr : InstructionEntry := ⟨0xf9400211, 0xffc003ff⟩
def add : InstructionEntry := ⟨0x91000210, 0xff8003ff⟩
def br : InstructionEntry := ⟨0xd61f0220, 0xffffffff⟩

end InstructionEntry

/-- Whether the two halves of a word are these instructions. -/
def isPair (w : UInt64) (first second : InstructionEntry) : Bool :=
  w &&& first.mask = first.pattern ∧ (w >>> 32) &&& second.mask = second.pattern

def isPltCode (w0 w1 : UInt64) : Bool := isPair w0 .adrp .ldr && isPair w1 .add .br

/-- Reads two words of code and tells whether they make up a linkage-table entry. -/
def readsPltCode (addr0 addr1 : UInt64) : Code Bool := do
  match ← attempt (accessMem addr0) with
  | .error _ => return false
  | .ok w0 =>
    match ← attempt (accessMem addr1) with
    | .error _ => return false
    | .ok w1 => return isPltCode w0 w1

/-- Whether the code around the instruction pointer looks like an entry of a
procedure linkage table. It can stand at any of the four instructions. -/
def isPltEntry (c : Cursor) : Code Bool := do
  match ← attempt (accessMem c.ip) with
  | .error _ => return false
  | .ok w0 =>
    if isPair w0 .adrp .ldr then
      match ← attempt (accessMem (c.ip + 8)) with
      | .error _ => return false
      | .ok w1 => return isPair w1 .add .br
    else if isPair w0 .add .br then
      match ← attempt (accessMem (c.ip - 8)) with
      | .error _ => return false
      | .ok w0 => return isPair w0 .adrp .ldr
    else if isPair w0 .ldr .add then readsPltCode (c.ip - 4) (c.ip + 4)
    else if w0 &&& InstructionEntry.br.mask = InstructionEntry.br.pattern then
      readsPltCode (c.ip - 12) (c.ip - 4)
    else return false

/-- The code of a restorer stub: `movz x8, #0x8b` and `svc #0`. -/
def SIGNAL_RETURN : UInt64 := 0xd4000001d2801168

def unwIsSignalFrame (c : Cursor) : Code Bool := do
  let w0 ← accessMem c.ip
  return w0 &&& SIGNAL_RETURN = SIGNAL_RETURN

def SIGINFO_SIZE : UInt64 := 128
def UC_MCONTEXT_OFF : UInt64 := 0xb0
def SC_GPR_OFF : UInt64 := 0x08
def LINUX_SC_RESERVED_OFF : UInt64 := 0x120
def LINUX_SC_RESERVED_SIZE_OFF : UInt64 := 0x4
def LINUX_SC_RESERVED_SVE_VL_OFF : UInt64 := 0x8

/-- Looks among the records behind a signal context for the one that holds the
length of the vectors. A record of size zero is read again and again. -/
def sveSection (resAddr : UInt64) : Nat → UInt64 → Cursor → Code (Int × Cursor)
  | 0, _, _ => throw .unfinished
  | rounds + 1, sectionOff, c =>
    if sectionOff < 4096 then do
      let (magic, _) ← dwarfReadu32 (resAddr + sectionOff)
      let (size, _) ← dwarfReadu32 (resAddr + sectionOff + LINUX_SC_RESERVED_SIZE_OFF)
      if magic = 0 then return (if size ≠ 0 then -UNW_EUNSPEC else 1, c)
      else if magic = 0x53564501 then
        if size.toUInt64 < LINUX_SC_RESERVED_SVE_VL_OFF + 2 then return (-UNW_EUNSPEC, c)
        else
          let vl := resAddr + sectionOff + LINUX_SC_RESERVED_SVE_VL_OFF
          return (1, { c with loc := Function.update c.loc VG (.mem vl) })
      else sveSection resAddr rounds (sectionOff + size.toUInt64) c
    else return (1, c)

def getSveVlSignalLoc (rounds : Nat) (c : Cursor) (scAddr : UInt64) : Code (Int × Cursor) := do
  match ← attempt (sveSection (scAddr + LINUX_SC_RESERVED_OFF) rounds 0 c) with
  | .error ret => return (ret, c)
  | .ok r => return r

/-- The registers of a signal context: X0 to X30, SP, PC and PSTATE stand one
behind the other. -/
def contextLocs (scAddr : UInt64) (i : Fin 97) : Loc :=
  if i ≤ PSTATE then .mem (scAddr + SC_GPR_OFF + 8 * UInt64.ofNat i) else .null

/-- The step out of a signal frame, whose unwind info is not asked for. -/
def handleSignalFrame (rounds : Nat) (c : Cursor) : Code (Int × Cursor) := do
  match ← attempt (dwarfGet (.mem c.cfa)) with
  | .error _ => return (-UNW_EUNSPEC, c)
  | .ok _ =>
    match ← attempt (unwIsSignalFrame c) with
    | .ok true =>
      let scAddr := c.cfa + SIGINFO_SIZE + UC_MCONTEXT_OFF
      let c := { c with loc := contextLocs scAddr, sigcontext := true }
      -- neither of the two reads is checked
      let cfa ← attempt (dwarfGet (c.loc SP))
      let ip ← attempt (dwarfGet (c.loc PC))
      getSveVlSignalLoc rounds
        { c with
          cfa := cfa.toOption.getD c.cfa
          ip := ip.toOption.getD c.ip
          usePrevInstr := false }
        scAddr
    | _ => return (-UNW_EUNSPEC, c)

/-- The return address is taken from the link register. -/
def linkRegister (c : Cursor) : Code (Int × Cursor) := do
  let c := { c with loc := Function.update (Function.update c.loc PC (c.loc X30)) X30 .null }
  if c.loc PC = .null then return (0, { c with ip := 0 })
  else
    match ← attempt (dwarfGet (c.loc PC)) with
    | .error ret => return (ret, c)
    | .ok ip => return (if ip = 0 then 0 else 1, { c with ip := ip })

/-- What is tried where the DWARF step fails. Outside a linkage-table entry it goes
on with `get_proc_name`, an accessor that is null in the table of this crate. -/
def guessFrame (c : Cursor) : Code (Int × Cursor) := do
  let _ ← isPltEntry c
  if ← isPltEntry c then linkRegister c else throw .undefined

/-- The step from a frame that is no signal frame. -/
def stepFrame (signalFrame : DwarfCieInfo → Bool) (rounds : Nat) (c : Cursor) :
    Code (Int × Cursor) := do
  let (ret, c) ← dwarfStep (target signalFrame) getReg rounds { c with sigcontext := false }
  if ret = -UNW_ESTOPUNWIND then return (ret, c)
  else if ret < 0 then guessFrame c
  else if ret = 0 then return (if c.ip = 0 then 0 else 1, c)
  else
    match ← attempt (dwarfGet (c.loc X29)) with
    | .error _ => guessFrame c
    | .ok fp =>
      -- the end of the call chain is marked by a frame pointer of zero
      if fp = 0 then return (0, { c with ip := 0 })
      else return (if c.ip = 0 then 0 else 1, c)

def unwStep (signalFrame : DwarfCieInfo → Bool) (rounds : Nat) (c : Cursor) :
    Code (Int × Cursor) := do
  match ← attempt (unwIsSignalFrame c) with
  | .ok true => handleSignalFrame rounds c
  | .ok false => stepFrame signalFrame rounds c
  | .error _ =>
    -- no code can be read here, and so the caller of a bad address is tried
    match ← attempt (dwarfGet (c.loc X30)) with
    | .ok ip => stepFrame signalFrame rounds { c with ip := ip }
    | .error _ => stepFrame signalFrame rounds c

/-- Libunwind as this crate links it, for aarch64. -/
def libunwind (signalFrame : DwarfCieInfo → Bool) (rounds : Nat)
    (otherwise : Stop → Int × Cursor) : Libunwind where
  Cursor := Cursor
  initRemote := returning otherwise commonInit
  step c := returning otherwise (unwStep signalFrame rounds c)
  getReg := unwGetReg UNW_REG_IP (fun c => c.ip)
    (fun c reg => returningReg otherwise (tdepAccessReg c reg))

end Unwinder.Native.Aarch64
