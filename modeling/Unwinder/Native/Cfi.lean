import Mathlib.Logic.Function.Basic
import Unwinder.Native.Memory

namespace Unwinder.Native
open Lib Ffi

/-- `dwarf_cfa_t`; the switch over it ignores a code that is none of these. -/
inductive CfaOp where
  | advanceLoc | offset | restore
  | nop | setLoc | advanceLoc1 | advanceLoc2 | advanceLoc4
  | offsetExtended | restoreExtended | undefined | sameValue | register
  | rememberState | restoreState
  | defCfa | defCfaRegister | defCfaOffset | defCfaExpression
  | expression | offsetExtendedSf | defCfaSf | defCfaOffsetSf | valExpression
  | loUser | mipsAdvanceLoc8 | gnuWindowSave | gnuArgsSize | gnuNegativeOffsetExtended | hiUser
deriving DecidableEq

namespace CfaOp

def code : CfaOp → UInt8
  | advanceLoc => 0x40
  | offset => 0x80
  | restore => 0xc0
  | nop => 0x00
  | setLoc => 0x01
  | advanceLoc1 => 0x02
  | advanceLoc2 => 0x03
  | advanceLoc4 => 0x04
  | offsetExtended => 0x05
  | restoreExtended => 0x06
  | undefined => 0x07
  | sameValue => 0x08
  | register => 0x09
  | rememberState => 0x0a
  | restoreState => 0x0b
  | defCfa => 0x0c
  | defCfaRegister => 0x0d
  | defCfaOffset => 0x0e
  | defCfaExpression => 0x0f
  | expression => 0x10
  | offsetExtendedSf => 0x11
  | defCfaSf => 0x12
  | defCfaOffsetSf => 0x13
  | valExpression => 0x16
  | loUser => 0x1c
  | mipsAdvanceLoc8 => 0x1d
  | gnuWindowSave => 0x2d
  | gnuArgsSize => 0x2e
  | gnuNegativeOffsetExtended => 0x2f
  | hiUser => 0x3c

def all : List CfaOp :=
  [advanceLoc, offset, restore, nop, setLoc, advanceLoc1, advanceLoc2, advanceLoc4,
    offsetExtended, restoreExtended, undefined, sameValue, register, rememberState, restoreState,
    defCfa, defCfaRegister, defCfaOffset, defCfaExpression, expression, offsetExtendedSf, defCfaSf,
    defCfaOffsetSf, valExpression, loUser, mipsAdvanceLoc8, gnuWindowSave, gnuArgsSize,
    gnuNegativeOffsetExtended, hiUser]

def ofCode (code : UInt8) : Option CfaOp := all.find? (fun op => op.code = code)

theorem ofCode_code (op : CfaOp) : ofCode op.code = some op := by
  cases op <;> decide

end CfaOp

/-- An instruction byte as opcode and operand: the operand of the three primary
opcodes stands in its low six bits. -/
def splitOpcode (op : UInt8) : UInt8 × UInt64 :=
  if op &&& 0xc0 ≠ 0 then (op &&& ~~~0x3f, (op &&& 0x3f).toUInt64) else (op, 0)

/-- Where the value of a register is to be found, as `DWARF_LOC` has it. -/
inductive Loc where
  | mem (addr : UInt64)
  | reg (num : UInt64)
  | val (value : UInt64)
deriving DecidableEq

namespace Loc

/-- `DWARF_NULL_LOC` is the memory at address zero. -/
def null : Loc := mem 0

/-- `DWARF_GET_LOC`. -/
def word : Loc → UInt64
  | mem w | reg w | val w => w

end Loc

/-- `dwarf_where_t`. -/
inductive Where where
  | undef | same | cfarel | reg | expr | valExpr | cfa
deriving DecidableEq

/-- How the register of one column is saved. -/
structure SaveLoc where
  place : Where
  val : UInt64
deriving DecidableEq

/-- What the DWARF code takes from its target. -/
structure Target where
  numPreservedRegs : Nat
  columns_fit : numPreservedRegs < 2 ^ 64
  /-- `TDEP_DWARF_SP`. -/
  sp : Fin numPreservedRegs
  dwarfToUnwRegnum : UInt64 → UInt64
  /-- `DWARF_VAL_LOC`. -/
  valLoc : UInt64 → Loc
  /-- The column whose state `DW_CFA_GNU_window_save` toggles, on a target that
  gives it that meaning. -/
  raSignState : Option (Fin numPreservedRegs)
  /-- The bit that is read as `signal_frame` of a descriptor. It is not one of the
  bits that were built. -/
  signalFrame : DwarfCieInfo → Bool

/-- `dwarf_reg_state_t`; the two columns behind the registers, which describe the
canonical frame address, have names of their own. -/
structure RegState (n : Nat) where
  retAddrColumn : UInt64
  reg : Fin n → SaveLoc
  cfaReg : SaveLoc
  cfaOff : SaveLoc

/-- The state record, the location and the read position of a running CFI program,
and the states it has remembered. -/
structure CfiState (n : Nat) where
  ip : UInt64
  addr : UInt64
  argsSize : UInt64
  rsInitial : RegState n
  rsCurrent : RegState n
  rsStack : List (RegState n)

namespace CfiState

variable {n : Nat}

def setReg (s : CfiState n) (regnum : Fin n) (place : Where) (val : UInt64) : CfiState n :=
  { s with rsCurrent :=
      { s.rsCurrent with reg := Function.update s.rsCurrent.reg regnum ⟨place, val⟩ } }

def setCfaReg (s : CfiState n) (place : Where) (val : UInt64) : CfiState n :=
  { s with rsCurrent := { s.rsCurrent with cfaReg := ⟨place, val⟩ } }

def setCfaOff (s : CfiState n) (val : UInt64) : CfiState n :=
  { s with rsCurrent := { s.rsCurrent with cfaOff := ⟨.undef, val⟩ } }

def restoreReg (s : CfiState n) (regnum : Fin n) : CfiState n :=
  { s with rsCurrent :=
      { s.rsCurrent with
        reg := Function.update s.rsCurrent.reg regnum (s.rsInitial.reg regnum) } }

def advance (s : CfiState n) (delta : UInt64) : CfiState n := { s with ip := s.ip + delta }

end CfiState

/-- A register number that has a column; the status for one that has none is not
the same everywhere. -/
def regColumn (n : Nat) (status : Int) (regnum : UInt64) : Code (Fin n) :=
  if h : regnum.toNat < n then return ⟨regnum.toNat, h⟩ else throw (.status status)

def readRegnum (n : Nat) (addr : UInt64) : Code (Fin n × UInt64) := do
  let (val, addr) ← dwarfReadUleb128 addr
  let regnum ← regColumn n (-UNW_EBADREG) val
  return (regnum, addr)

/-- The two operands of the instructions that name a register and an unsigned
number. -/
def readRegnumUleb (n : Nat) (addr : UInt64) : Code (Fin n × UInt64 × UInt64) := do
  let (regnum, addr) ← readRegnum n addr
  let (val, addr) ← dwarfReadUleb128 addr
  return (regnum, val, addr)

def readRegnumSleb (n : Nat) (addr : UInt64) : Code (Fin n × UInt64 × UInt64) := do
  let (regnum, addr) ← readRegnum n addr
  let (val, addr) ← dwarfReadSleb128 addr
  return (regnum, val, addr)

/-- The address behind a block, of which only the length is read. -/
def skipBlock (addr : UInt64) : Code UInt64 := do
  let (len, addr) ← dwarfReadUleb128 addr
  return addr + len

section Program

variable (t : Target) (dci : DwarfCieInfo) (pi : UnwProcInfo)

/-- One case of the switch in `run_cfi_program`, the read position behind the
opcode. -/
def cfiInstr (op : CfaOp) (operand : UInt64) (s : CfiState t.numPreservedRegs) :
    Code (CfiState t.numPreservedRegs) :=
  match op with
  | .advanceLoc => return s.advance (operand * dci.codeAlign)
  | .advanceLoc1 => do
    let (u8, addr) ← dwarfReadu8 s.addr
    return { s with addr := addr }.advance (u8.toUInt64 * dci.codeAlign)
  | .advanceLoc2 => do
    let (u16, addr) ← dwarfReadu16 s.addr
    return { s with addr := addr }.advance (u16.toUInt64 * dci.codeAlign)
  | .advanceLoc4 => do
    let (u32, addr) ← dwarfReadu32 s.addr
    return { s with addr := addr }.advance (u32.toUInt64 * dci.codeAlign)
  | .mipsAdvanceLoc8 => throw (.status (-UNW_EINVAL))
  | .offset => do
    let regnum ← regColumn _ (-UNW_EBADREG) operand
    let (val, addr) ← dwarfReadUleb128 s.addr
    return { s with addr := addr }.setReg regnum .cfarel (val * dci.dataAlign)
  | .offsetExtended => do
    let (regnum, val, addr) ← readRegnumUleb _ s.addr
    return { s with addr := addr }.setReg regnum .cfarel (val * dci.dataAlign)
  | .offsetExtendedSf => do
    let (regnum, val, addr) ← readRegnumSleb _ s.addr
    return { s with addr := addr }.setReg regnum .cfarel (val * dci.dataAlign)
  | .restore => do
    let regnum ← regColumn _ (-UNW_EINVAL) operand
    return s.restoreReg regnum
  | .restoreExtended => do
    let (val, addr) ← dwarfReadUleb128 s.addr
    let regnum ← regColumn _ (-UNW_EINVAL) val
    return { s with addr := addr }.restoreReg regnum
  | .nop => return s
  | .setLoc => do
    let (ip, addr) ← dwarfReadEncodedPointer dci.fdeEncoding pi s.addr
    return { s with addr := addr, ip := ip }
  | .undefined => do
    let (regnum, addr) ← readRegnum _ s.addr
    return { s with addr := addr }.setReg regnum .undef 0
  | .sameValue => do
    let (regnum, addr) ← readRegnum _ s.addr
    return { s with addr := addr }.setReg regnum .same 0
  | .register => do
    let (regnum, val, addr) ← readRegnumUleb _ s.addr
    return { s with addr := addr }.setReg regnum .reg val
  | .rememberState => return { s with rsStack := s.rsCurrent :: s.rsStack }
  | .restoreState =>
    match s.rsStack with
    | [] => throw (.status (-UNW_EINVAL))
    | state :: rest => return { s with rsCurrent := state, rsStack := rest }
  | .defCfa => do
    let (regnum, val, addr) ← readRegnumUleb t.numPreservedRegs s.addr
    return ({ s with addr := addr }.setCfaReg .reg (UInt64.ofNat regnum)).setCfaOff val
  | .defCfaSf => do
    let (regnum, val, addr) ← readRegnumSleb t.numPreservedRegs s.addr
    return ({ s with addr := addr }.setCfaReg .reg (UInt64.ofNat regnum)).setCfaOff
      (val * dci.dataAlign)
  | .defCfaRegister => do
    let (regnum, addr) ← readRegnum t.numPreservedRegs s.addr
    return { s with addr := addr }.setCfaReg .reg (UInt64.ofNat regnum)
  | .defCfaOffset => do
    let (val, addr) ← dwarfReadUleb128 s.addr
    return { s with addr := addr }.setCfaOff val
  | .defCfaOffsetSf => do
    let (val, addr) ← dwarfReadSleb128 s.addr
    return { s with addr := addr }.setCfaOff (val * dci.dataAlign)
  | .defCfaExpression => do
    let addr ← skipBlock s.addr
    return { s with addr := addr }.setCfaReg .expr s.addr
  | .expression => do
    let (regnum, block) ← readRegnum _ s.addr
    let addr ← skipBlock block
    return { s with addr := addr }.setReg regnum .expr block
  | .valExpression => do
    let (regnum, block) ← readRegnum _ s.addr
    let addr ← skipBlock block
    return { s with addr := addr }.setReg regnum .valExpr block
  | .gnuArgsSize => do
    let (val, addr) ← dwarfReadUleb128 s.addr
    return { s with addr := addr, argsSize := val }
  | .gnuNegativeOffsetExtended => do
    let (regnum, val, addr) ← readRegnumUleb _ s.addr
    return { s with addr := addr }.setReg regnum .cfarel (~~~(val * dci.dataAlign) + 1)
  | .gnuWindowSave =>
    match t.raSignState with
    -- `aarch64_negate_ra_sign_state`
    | some column => return s.setReg column .same ((s.rsCurrent.reg column).val ^^^ 1)
    | none => throw (.status (-UNW_EINVAL))
  | .loUser | .hiUser => throw (.status (-UNW_EINVAL))

/-- One round of `run_cfi_program`: an instruction is read and executed. -/
def cfiRound (s : CfiState t.numPreservedRegs) : Code (CfiState t.numPreservedRegs) := do
  let (byte, addr) ← dwarfReadu8 s.addr
  let (op, operand) := splitOpcode byte
  match CfaOp.ofCode op with
  | some op => cfiInstr t dci pi op operand { s with addr := addr }
  | none => return { s with addr := addr }

/-- The rounds of `run_cfi_program`, up to a location. -/
def cfiLoop (endIp endAddr : UInt64) :
    Nat → CfiState t.numPreservedRegs → Code (CfiState t.numPreservedRegs)
  | 0, s => if s.ip ≤ endIp ∧ s.addr < endAddr then throw .unfinished else return s
  | rounds + 1, s => do
    if s.ip ≤ endIp ∧ s.addr < endAddr then
      let s ← cfiRound t dci pi s
      cfiLoop endIp endAddr rounds s
    else return s

def UNW_PI_FLAG_DEBUG_FRAME : UInt64 := 32

/-- Runs the instructions up to a location. Those of `.debug_frame` would be read
from the local address space. -/
def runCfiProgram (endIp endAddr : UInt64) (rounds : Nat) (s : CfiState t.numPreservedRegs) :
    Code (CfiState t.numPreservedRegs) :=
  if pi.flags &&& UNW_PI_FLAG_DEBUG_FRAME ≠ 0 then throw .outside
  else cfiLoop t dci pi endIp endAddr rounds s

end Program

end Unwinder.Native
