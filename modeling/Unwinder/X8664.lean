import Unwinder.Backend

namespace Unwinder.X8664
open Lib Ffi

def UNW_X86_64_RBP : Int := 6
def UNW_X86_64_RSP : Int := 7
def UNW_X86_64_RIP : Int := 16
def UNW_REG_IP : Int := UNW_X86_64_RIP
def UNW_REG_SP : Int := UNW_X86_64_RSP

inductive Reg where
  | RAX | RDX | RCX | RBX | RSI | RDI | RBP | RSP | R8 | R9 | R10 | R11 | R12 | R13 | R14 | R15
deriving DecidableEq

def Reg.index : Reg → Fin 16
  | RAX => 0
  | RDX => 1
  | RCX => 2
  | RBX => 3
  | RSI => 4
  | RDI => 5
  | RBP => 6
  | RSP => 7
  | R8 => 8
  | R9 => 9
  | R10 => 10
  | R11 => 11
  | R12 => 12
  | R13 => 13
  | R14 => 14
  | R15 => 15

/-- Sixteen registers with a bit for each that holds a value. -/
structure UnwindRegs where
  ip : UInt64
  regs : Vector UInt64 16
  validRegs : UInt16
deriving DecidableEq

def bit (index : Fin 16) : UInt16 := 1 <<< UInt16.ofNat index.val

namespace UnwindRegs

def get (r : UnwindRegs) (reg : Reg) : UInt64 := r.regs[reg.index]

def getIfSet (r : UnwindRegs) (reg : Reg) : Option UInt64 :=
  if r.validRegs &&& bit reg.index ≠ 0 then some (r.get reg) else none

def setIndex (r : UnwindRegs) (index : Fin 16) (value : UInt64) : UnwindRegs :=
  { r with regs := r.regs.set index value, validRegs := r.validRegs ||| bit index }

def set (r : UnwindRegs) (reg : Reg) (value : UInt64) : UnwindRegs := r.setIndex reg.index value

def clearUnrestoredCallerRegisters (r : UnwindRegs) : UnwindRegs :=
  { r with validRegs := bit Reg.RSP.index ||| bit Reg.RBP.index }

def setIp (r : UnwindRegs) (ip : UInt64) : UnwindRegs := { r with ip := ip }

def sp (r : UnwindRegs) : UInt64 := r.get .RSP

def setSp (r : UnwindRegs) (sp : UInt64) : UnwindRegs := r.set .RSP sp

def bp (r : UnwindRegs) : UInt64 := r.get .RBP

def setBp (r : UnwindRegs) (bp : UInt64) : UnwindRegs := r.set .RBP bp

def new (ip sp bp : UInt64) : UnwindRegs :=
  ((UnwindRegs.mk ip (Vector.replicate 16 0) 0).setSp sp).setBp bp

end UnwindRegs

/-- The registers that libunwind reads and writes have the same fields. -/
abbrev RawRegs := UnwindRegs

def RawRegs.fromPublic (ip : UInt64) (regs : UnwindRegs) : RawRegs :=
  ⟨ip, regs.regs, regs.validRegs⟩

def RawRegs.accessReg : RegAccess RawRegs := fun r reg val write =>
  if reg = UNW_X86_64_RIP then
    if write then ((UNW_ESUCCESS, val), { r with ip := val }) else ((UNW_ESUCCESS, r.ip), r)
  else if h : 0 ≤ reg ∧ reg < 16 then
    let index : Fin 16 := ⟨reg.toNat, by omega⟩
    if write then ((UNW_ESUCCESS, val), r.setIndex index val)
    else if r.validRegs &&& bit index ≠ 0 then ((UNW_ESUCCESS, r.regs[index]), r)
    else ((-UNW_EBADREG, val), r)
  else ((-UNW_EBADREG, val), r)

/-- What both kinds of step store; nothing else is known of the caller. -/
def restored (regs : UnwindRegs) (ip sp bp : UInt64) : UnwindRegs :=
  ((regs.clearUnrestoredCallerRegisters.setIp ip).setSp sp).setBp bp

def backend : Backend UnwindRegs RawRegs where
  strip _ addr := addr
  sp := UnwindRegs.sp
  fp := UnwindRegs.bp
  raw := RawRegs.fromPublic
  accessReg := RawRegs.accessReg
  regIp := UNW_REG_IP
  extraRegs := [UNW_REG_SP, UNW_X86_64_RBP]
  stepped regs ip extras := restored regs ip extras.newSp extras.newFp
  fallback regs ra _ newSp newBp := restored regs ra newSp newBp
  strip_stepped _ _ _ := rfl
  strip_fallback _ _ _ _ _ := rfl

def fallbackUnwindFrame := backend.fallbackUnwindFrame

def unwindFrame := backend.unwindFrame

def isSignalFrame := backend.isSignalFrame

end Unwinder.X8664
