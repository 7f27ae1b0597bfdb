import Unwinder.Error
import Unwinder.Lib.Words

namespace Unwinder
open Lib

/-- Bytes a Rust slice can hold: a slice is never longer than `isize::MAX`. -/
structure Slice where
  data : List UInt8
  bound : data.length < 2 ^ 63

namespace Slice

def len (s : Slice) : Nat := s.data.length

/-- `s.get(start..stop)`. -/
def get? (s : Slice) (start stop : Nat) : Option (List UInt8) :=
  if start ≤ stop ∧ stop ≤ s.len then some ((s.data.drop start).take (stop - start)) else none

end Slice

namespace Dwarf

def DW_EH_PE_OMIT : UInt8 := 0xff
def DW_EH_PE_ABSPTR : UInt8 := 0x00
def DW_EH_PE_FORMAT_MASK : UInt8 := 0x0f
def DW_EH_PE_APP_MASK : UInt8 := 0x70
def DW_EH_PE_INDIRECT : UInt8 := 0x80

def DW_EH_PE_ULEB128 : UInt8 := 0x01
def DW_EH_PE_UDATA2 : UInt8 := 0x02
def DW_EH_PE_UDATA4 : UInt8 := 0x03
def DW_EH_PE_UDATA8 : UInt8 := 0x04
def DW_EH_PE_SLEB128 : UInt8 := 0x09
def DW_EH_PE_SDATA2 : UInt8 := 0x0a
def DW_EH_PE_SDATA4 : UInt8 := 0x0b
def DW_EH_PE_SDATA8 : UInt8 := 0x0c

def DW_EH_PE_PCREL : UInt8 := 0x10
def DW_EH_PE_TEXTREL : UInt8 := 0x20
def DW_EH_PE_DATAREL : UInt8 := 0x30
def DW_EH_PE_FUNCREL : UInt8 := 0x40
def DW_EH_PE_ALIGNED : UInt8 := 0x50

/-- A read position in the local mirror of `.eh_frame`, with the tracee
address of its first byte. -/
structure Cursor where
  bytes : Slice
  pos : Nat
  avmaBase : UInt64

abbrev Parse (α : Type) := StateRes Cursor DwarfParseError α

def Cursor.currentAvma (c : Cursor) : UInt64 := c.avmaBase + UInt64.ofNat c.pos

def cursor : Parse Cursor := fun c => (.ok c, c)

def setPos (pos : Nat) : Parse Unit := fun c => (.ok (), { c with pos := pos })

/-- Fails at a given offset. -/
def failAt {α : Type} (offset : Nat) (kind : DwarfParseErrorKind) : Parse α :=
  StateRes.lift (.err ⟨offset, kind⟩)

/-- Fails at the current position. -/
def fail {α : Type} (kind : DwarfParseErrorKind) : Parse α := do
  let c ← cursor
  failAt c.pos kind

/-- Fails some bytes before the current position, or at the start. -/
def failBefore {α : Type} (n : Nat) (kind : DwarfParseErrorKind) : Parse α := do
  let c ← cursor
  failAt (c.pos - n) kind

def orFail {α : Type} (kind : DwarfParseErrorKind) : Option α → Parse α
  | some v => pure v
  | none => fail kind

def readU8 : Parse UInt8 := do
  let c ← cursor
  match c.bytes.data[c.pos]? with
  | none =>
    let needed ← StateRes.lift (usizeAdd c.pos 1)
    fail (.truncated needed c.bytes.len)
  | some v =>
    let pos ← StateRes.lift (usizeAdd c.pos 1)
    setPos pos
    return v

/-- The fixed-width reads differ only in their width. -/
def readFixed (width : Nat) : Parse (List UInt8) := do
  let c ← cursor
  let stop ← StateRes.lift (usizeAdd c.pos width)
  match c.bytes.get? c.pos stop with
  | none => fail (.truncated stop c.bytes.len)
  | some slice =>
    setPos stop
    return slice

def readU16 : Parse UInt16 := (fun slice => UInt16.ofNat (leValue slice)) <$> readFixed 2

def readU32 : Parse UInt32 := (fun slice => UInt32.ofNat (leValue slice)) <$> readFixed 4

def readU64 : Parse UInt64 := (fun slice => UInt64.ofNat (leValue slice)) <$> readFixed 8

/-- `v << shift` on 64 bits; shifting by the width or more panics. -/
def shl64 {ε : Type} (v : UInt64) (shift : Nat) : Res ε UInt64 :=
  if shift < 64 then .ok (v <<< UInt64.ofNat shift) else .panic

/-- Both LEB128 loops gather seven bits a byte; they differ in what they do with
the accumulator behind the last byte. The accumulator of the signed loop is the
two's-complement pattern of the source's `i64`. -/
def lebLoop {α : Type} (finish : UInt64 → UInt8 → Nat → Res DwarfParseError α)
    (result : UInt64) (shift : Nat) : Parse α := do
  let byte ← readU8
  let part ← StateRes.lift (shl64 (byte &&& 0x7f).toUInt64 shift)
  let result := result ||| part
  if byte &&& 0x80 = 0 then StateRes.lift (finish result byte (shift + 7))
  else if 64 ≤ shift + 7 then fail .leb128Overflow
  else lebLoop finish result (shift + 7)
termination_by 64 - shift
decreasing_by omega

def readUleb128 : Parse UInt64 := lebLoop (fun result _ _ => .ok result) 0 0

def signExtend (result : UInt64) (byte : UInt8) (shift : Nat) : Res DwarfParseError Int64 :=
  if shift < 64 ∧ byte &&& 0x40 ≠ 0 then do
    let sign ← shl64 (-1 : Int64).toUInt64 shift
    return (result ||| sign).toInt64
  else .ok result.toInt64

def readSleb128 : Parse Int64 := lebLoop signExtend 0 0

/-- The raw operand of an encoded pointer, widened to 64 bits by its format. -/
def readRaw (enc directEnc : UInt8) : Parse UInt64 :=
  let format := directEnc &&& DW_EH_PE_FORMAT_MASK
  if format = DW_EH_PE_ABSPTR then readU64
  else if format = DW_EH_PE_UDATA2 then UInt16.toUInt64 <$> readU16
  else if format = DW_EH_PE_UDATA4 then UInt32.toUInt64 <$> readU32
  else if format = DW_EH_PE_UDATA8 then readU64
  else if format = DW_EH_PE_SDATA2 then (fun v => v.toInt16.toInt64.toUInt64) <$> readU16
  else if format = DW_EH_PE_SDATA4 then (fun v => v.toInt32.toInt64.toUInt64) <$> readU32
  else if format = DW_EH_PE_SDATA8 then (fun v => v.toInt64.toUInt64) <$> readU64
  else if format = DW_EH_PE_ULEB128 then readUleb128
  else if format = DW_EH_PE_SLEB128 then Int64.toUInt64 <$> readSleb128
  else fail (.unsupportedPointerEncoding enc)

/-- The addresses relative encodings are resolved against. -/
structure Bases where
  text : UInt64
  data : UInt64
  func : UInt64

/-- Adds the base an encoding's application names. -/
def applyBase (enc directEnc : UInt8) (raw pcrel : UInt64) (b : Bases) : Parse UInt64 :=
  let app := directEnc &&& DW_EH_PE_APP_MASK
  if app = 0 then return raw
  else if app = DW_EH_PE_PCREL then return raw + pcrel
  else if app = DW_EH_PE_TEXTREL then return raw + b.text
  else if app = DW_EH_PE_DATAREL then return raw + b.data
  else if app = DW_EH_PE_FUNCREL then return raw + b.func
  else if app = DW_EH_PE_ALIGNED then fail (.unsupportedPointerApplication enc)
  else fail (.unsupportedPointerApplication enc)

def readEncodedImpl (enc : UInt8) (b : Bases) (allowIndirectWithoutDeref : Bool) :
    Parse UInt64 := do
  if enc = DW_EH_PE_OMIT then fail .omittedPointerEncoding
  else
    let isIndirect : Bool := enc &&& DW_EH_PE_INDIRECT ≠ 0
    if isIndirect && !allowIndirectWithoutDeref then
      fail (.indirectPointerRequiresDereference enc)
    else
      let directEnc := enc &&& ~~~DW_EH_PE_INDIRECT
      let c ← cursor
      let pcrelBase := c.currentAvma
      let raw ← readRaw enc directEnc
      if isIndirect then return 0
      -- a literal zero means "absent", so no base is applied to it
      else if raw = 0 then return 0
      else applyBase enc directEnc raw pcrelBase b

def readEncoded (enc : UInt8) (b : Bases) : Parse UInt64 := readEncodedImpl enc b false

def readEncodedPersonality (enc : UInt8) (b : Bases) : Parse UInt64 := readEncodedImpl enc b true

end Dwarf

end Unwinder
