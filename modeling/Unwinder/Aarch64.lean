import Unwinder.Backend

namespace Unwinder.Aarch64
open Lib Ffi

def UNW_AARCH64_X29 : Int := 29
def UNW_AARCH64_X30 : Int := 30
def UNW_AARCH64_SP : Int := 31
def UNW_AARCH64_PC : Int := 32
def UNW_REG_IP : Int := UNW_AARCH64_X30
def UNW_REG_SP : Int := UNW_AARCH64_SP

/-- The mask that strips pointer authentication bits from return addresses. -/
structure PtrAuthMask where
  mask : UInt64
deriving DecidableEq

namespace PtrAuthMask

def newNoStrip : PtrAuthMask := ⟨0xffffffffffffffff⟩

def new2440 : PtrAuthMask := ⟨(0xffffffffffffffff : UInt64) >>> 24⟩

/-- All bits up to the highest one of the address; `log2` of a non-zero word is
63 less its leading zeros. -/
def fromMaxKnownAddress (address : UInt64) : PtrAuthMask :=
  if address = 0 then newNoStrip
  else ⟨(0xffffffffffffffff : UInt64) >>> UInt64.ofNat (63 - address.toNat.log2)⟩

def stripPtrAuth (m : PtrAuthMask) (addr : UInt64) : UInt64 := addr &&& m.mask

end PtrAuthMask

structure UnwindRegs where
  lrMask : PtrAuthMask
  lr : UInt64
  sp : UInt64
  fp : UInt64
deriving DecidableEq

namespace UnwindRegs

def newWithPtrAuthMask (mask : PtrAuthMask) (lr sp fp : UInt64) : UnwindRegs :=
  ⟨mask, mask.stripPtrAuth lr, sp, fp⟩

def new (lr sp fp : UInt64) : UnwindRegs := newWithPtrAuthMask .newNoStrip lr sp fp

def setLr (r : UnwindRegs) (lr : UInt64) : UnwindRegs := { r with lr := r.lrMask.stripPtrAuth lr }

def setSp (r : UnwindRegs) (sp : UInt64) : UnwindRegs := { r with sp := sp }

def setFp (r : UnwindRegs) (fp : UInt64) : UnwindRegs := { r with fp := fp }

end UnwindRegs

structure RawRegs where
  pc : UInt64
  sp : UInt64
  fp : UInt64
  lr : UInt64

/-- Reads a register into the value, or writes the value to it. -/
def accessSlot (slot : UInt64) (update : UInt64 → RawRegs) (r : RawRegs) (val : UInt64)
    (write : Bool) : (Int × UInt64) × RawRegs :=
  if write then ((UNW_ESUCCESS, val), update val) else ((UNW_ESUCCESS, slot), r)

def accessReg : RegAccess RawRegs := fun r reg val write =>
  if reg = UNW_AARCH64_PC then accessSlot r.pc (fun v => { r with pc := v }) r val write
  else if reg = UNW_AARCH64_SP then accessSlot r.sp (fun v => { r with sp := v }) r val write
  else if reg = UNW_AARCH64_X29 then accessSlot r.fp (fun v => { r with fp := v }) r val write
  else if reg = UNW_AARCH64_X30 then accessSlot r.lr (fun v => { r with lr := v }) r val write
  else ((-UNW_EBADREG, val), r)

def backend : Backend UnwindRegs RawRegs where
  strip regs addr := regs.lrMask.stripPtrAuth addr
  sp := UnwindRegs.sp
  fp := UnwindRegs.fp
  raw lookupIp regs := ⟨lookupIp, regs.sp, regs.fp, regs.lr⟩
  accessReg := accessReg
  regIp := UNW_REG_IP
  extraRegs := [UNW_REG_SP, UNW_AARCH64_X29, UNW_AARCH64_X30]
  stepped regs _ extras := ((regs.setSp extras.newSp).setFp extras.newFp).setLr extras.newLr
  fallback regs _ newLr newSp newFp := ((regs.setLr newLr).setSp newSp).setFp newFp
  strip_stepped _ _ _ := rfl
  strip_fallback _ _ _ _ _ := rfl

def fallbackUnwindFrame := backend.fallbackUnwindFrame

def unwindFrame := backend.unwindFrame

def isSignalFrame := backend.isSignalFrame

end Unwinder.Aarch64
