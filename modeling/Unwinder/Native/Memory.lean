import Unwinder.AddressSpace
import Unwinder.Lib.Consult

namespace Unwinder.Native
open Lib Ffi

/-- Why code of libunwind comes to no value: it returns a negative status, it does
what C leaves undefined, it takes a path that only other accessor tables lead to,
or a loop takes more rounds than it is given. -/
inductive Stop where
  | status (ret : Int)
  | undefined
  | outside
  | unfinished
deriving DecidableEq

abbrev Code := ExceptT Stop NativeCall

def ask (o : Accessor) : Code o.Answer := ExceptT.lift (Interaction.ask o)

/-- A read through the accessor table, which gives a status and a value. -/
def checked (answer : Int × UInt64) : Code UInt64 :=
  if answer.1 < 0 then throw (.status answer.1) else return answer.2

def accessMem (addr : UInt64) : Code UInt64 := do
  let answer ← ask (.accessMem addr 0 false)
  checked answer

def accessReg (reg : Int) : Code UInt64 := do
  let answer ← ask (.accessReg reg 0 false)
  checked answer

/-- The byte at an address, out of the aligned word around it, and the address
behind it. -/
def dwarfReadu8 (addr : UInt64) : Code (UInt8 × UInt64) := do
  let alignedAddr := addr &&& (~~~8 + 1)
  let off := addr - alignedAddr
  let val ← accessMem alignedAddr
  return ((val >>> (8 * off)).toUInt8, addr + 1)

def dwarfReadu16 (addr : UInt64) : Code (UInt16 × UInt64) := do
  let (v0, addr) ← dwarfReadu8 addr
  let (v1, addr) ← dwarfReadu8 addr
  return (v1.toUInt16 <<< 8 ||| v0.toUInt16, addr)

def dwarfReadu32 (addr : UInt64) : Code (UInt32 × UInt64) := do
  let (v0, addr) ← dwarfReadu16 addr
  let (v1, addr) ← dwarfReadu16 addr
  return (v1.toUInt32 <<< 16 ||| v0.toUInt32, addr)

def dwarfReadu64 (addr : UInt64) : Code (UInt64 × UInt64) := do
  let (v0, addr) ← dwarfReadu32 addr
  let (v1, addr) ← dwarfReadu32 addr
  return (v1.toUInt64 <<< 32 ||| v0.toUInt64, addr)

def dwarfReads16 (addr : UInt64) : Code (Int16 × UInt64) := do
  let (uval, addr) ← dwarfReadu16 addr
  return (uval.toInt16, addr)

def dwarfReads32 (addr : UInt64) : Code (Int32 × UInt64) := do
  let (uval, addr) ← dwarfReadu32 addr
  return (uval.toInt32, addr)

def dwarfReads64 (addr : UInt64) : Code (Int64 × UInt64) := do
  let (uval, addr) ← dwarfReadu64 addr
  return (uval.toInt64, addr)

/-- An address of the target, which has eight bytes on both. -/
def dwarfReadw (addr : UInt64) : Code (UInt64 × UInt64) := dwarfReadu64 addr

/-- What a LEB128 loop has behind its last byte. -/
structure LebRead where
  byte : UInt8
  val : UInt64
  shift : UInt64
  addr : UInt64

/-- The rounds of a LEB128 loop. C defines the shift in the first ten of them; the
byte of an eleventh is still read. -/
def lebLoop : Nat → UInt64 → UInt64 → UInt64 → Code LebRead
  | 0, _, _, addr => do
    let _ ← dwarfReadu8 addr
    throw .undefined
  | rounds + 1, val, shift, addr => do
    let (byte, addr) ← dwarfReadu8 addr
    let val := val ||| ((byte.toUInt64 &&& 0x7f) <<< shift)
    let shift := shift + 7
    if byte &&& 0x80 ≠ 0 then lebLoop rounds val shift addr
    else return ⟨byte, val, shift, addr⟩

def dwarfReadUleb128 (addr : UInt64) : Code (UInt64 × UInt64) := do
  let leb ← lebLoop 10 0 0 addr
  return (leb.val, leb.addr)

def dwarfReadSleb128 (addr : UInt64) : Code (UInt64 × UInt64) := do
  let leb ← lebLoop 10 0 0 addr
  if leb.shift < 64 ∧ leb.byte &&& 0x40 ≠ 0 then
    return (leb.val ||| ((0 - 1 : UInt64) <<< leb.shift), leb.addr)
  else return (leb.val, leb.addr)

open Dwarf in
/-- The operand of an encoded pointer, in the format of its low bits. The signed
LEB128 format is read with the unsigned loop. -/
def readFormat (encoding : UInt8) (addr : UInt64) : Code (UInt64 × UInt64) :=
  let format := encoding &&& DW_EH_PE_FORMAT_MASK
  if format = DW_EH_PE_ABSPTR then dwarfReadw addr
  else if format = DW_EH_PE_ULEB128 then dwarfReadUleb128 addr
  else if format = DW_EH_PE_UDATA2 then do
    let (uval16, addr) ← dwarfReadu16 addr
    return (uval16.toUInt64, addr)
  else if format = DW_EH_PE_UDATA4 then do
    let (uval32, addr) ← dwarfReadu32 addr
    return (uval32.toUInt64, addr)
  else if format = DW_EH_PE_UDATA8 then dwarfReadu64 addr
  else if format = DW_EH_PE_SLEB128 then dwarfReadUleb128 addr
  else if format = DW_EH_PE_SDATA2 then do
    let (sval16, addr) ← dwarfReads16 addr
    return (sval16.toInt64.toUInt64, addr)
  else if format = DW_EH_PE_SDATA4 then do
    let (sval32, addr) ← dwarfReads32 addr
    return (sval32.toInt64.toUInt64, addr)
  else if format = DW_EH_PE_SDATA8 then do
    let (sval64, addr) ← dwarfReads64 addr
    return (sval64.toUInt64, addr)
  else throw (.status (-UNW_EINVAL))

open Dwarf in
/-- The base that the application bits of an encoding add. Text-relative pointers
are not supported. -/
def applyEncoding (encoding : UInt8) (pi : UnwProcInfo) (initialAddr val : UInt64) :
    Code UInt64 :=
  let appl := encoding &&& DW_EH_PE_APP_MASK
  if appl = DW_EH_PE_ABSPTR then return val
  else if appl = DW_EH_PE_PCREL then return val + initialAddr
  else if appl = DW_EH_PE_DATAREL then return val + pi.gp
  else if appl = DW_EH_PE_FUNCREL then return val + pi.startIp
  else throw (.status (-UNW_EINVAL))

open Dwarf in
def dwarfReadEncodedPointer (encoding : UInt8) (pi : UnwProcInfo) (addr : UInt64) :
    Code (UInt64 × UInt64) := do
  let initialAddr := addr
  if encoding = DW_EH_PE_OMIT then return (0, addr)
  else if encoding = DW_EH_PE_ALIGNED then dwarfReadw ((initialAddr + 8 - 1) &&& (0 - 8))
  else
    let (val, addr) ← readFormat encoding addr
    if val = 0 then return (0, addr)
    else
      let val ← applyEncoding encoding pi initialAddr val
      if encoding &&& DW_EH_PE_INDIRECT ≠ 0 then
        let (val, _) ← dwarfReadw val
        return (val, addr)
      else return (val, addr)

end Unwinder.Native
