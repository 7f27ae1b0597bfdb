import Unwinder.Dwarf.Cursor

namespace Unwinder.Dwarf
open Lib

structure ParsedCie where
  codeAlign : UInt64
  dataAlign : Int64
  retAddrColumn : UInt64
  fdeEncoding : UInt8
  lsdaEncoding : UInt8
  personality : UInt64
  hasZ : Bool
  signalFrame : Bool
  cieInstrOffsetInEhFrame : Nat
  cieInstrLen : Nat
deriving DecidableEq

structure ParsedFde where
  initialPc : UInt64
  addressRange : UInt64
  fdeInstrOffsetInEhFrame : Nat
  fdeInstrLen : Nat
  lsda : UInt64
deriving DecidableEq

structure FdeParseConfig where
  fdeEncoding : UInt8
  lsdaEncoding : UInt8
  hasZ : Bool
  textBase : UInt64
  dataBase : UInt64

/-- `checked_add` on positions. -/
def checkedAdd (a b : Nat) : Option Nat := if a + b < 2 ^ 64 then some (a + b) else none

/-- The length behind the 32-bit field. On a 64-bit target `usize::try_from` of
the extended length cannot fail. -/
def readEntryLen (len32 : UInt32) (isDwarf64 : Bool) : Parse Nat :=
  if isDwarf64 then UInt64.toNat <$> readU64 else pure len32.toNat

def entryEndFrom (entryLen : Nat) : Parse Nat := do
  let c ← cursor
  orFail .entryLengthOverflow (checkedAdd c.pos entryLen)

/-- The length field: whether it has the 64-bit form, and where the entry ends. -/
def readEntryLength : Parse (Bool × Nat) := do
  let len32 ← readU32
  let isDwarf64 : Bool := len32 = 0xffffffff
  let entryLen ← readEntryLen len32 isDwarf64
  let entryEnd ← entryEndFrom entryLen
  return (isDwarf64, entryEnd)

/-- The CIE id or CIE pointer field, as wide as the length form says. -/
def readEntryId (isDwarf64 : Bool) : Parse UInt64 :=
  if isDwarf64 then readU64 else UInt32.toUInt64 <$> readU32

/-- The NUL-terminated augmentation string, without its terminator. -/
def readAugmentation : Parse (List UInt8) := do
  let c ← cursor
  if c.bytes.len < c.pos then StateRes.lift .panic
  else match (c.bytes.data.drop c.pos).findIdx? (· = 0) with
    | none => failAt c.pos .unterminatedAugmentationString
    | some n =>
      let augEnd ← StateRes.lift (usizeAdd c.pos n)
      let pos ← StateRes.lift (usizeAdd augEnd 1)
      setPos pos
      return (c.bytes.data.drop c.pos).take n

/-- What the augmentation letters set. -/
structure Augmentation where
  fdeEncoding : UInt8
  lsdaEncoding : UInt8
  personality : UInt64
  signalFrame : Bool

def readAugmentationLetter (ch : UInt8) (a : Augmentation) : Parse Augmentation :=
  if ch = 0x52 then -- 'R'
    (fun enc => { a with fdeEncoding := enc }) <$> readU8
  else if ch = 0x4c then -- 'L'
    (fun enc => { a with lsdaEncoding := enc }) <$> readU8
  else if ch = 0x50 then do -- 'P'
    let personalityEncoding ← readU8
    let personality ← readEncodedPersonality personalityEncoding ⟨0, 0, 0⟩
    return { a with personality := personality }
  else if ch = 0x53 then pure { a with signalFrame := true } -- 'S'
  else if ch = 0x42 ∨ ch = 0x47 then pure a -- 'B' and 'G' are accepted and ignored
  else fail (.unsupportedAugmentation ch)

def readAugmentationLetters : List UInt8 → Augmentation → Parse Augmentation
  | [], a => pure a
  | ch :: rest, a => do
    let a ← readAugmentationLetter ch a
    readAugmentationLetters rest a

/-- Version 4 names the address and segment sizes, which are checked. -/
def readAddressSizes (version : UInt8) : Parse Unit :=
  if version = 4 then do
    let addressSize ← readU8
    let segmentSize ← readU8
    if addressSize ≠ 8 ∨ segmentSize ≠ 0 then
      failBefore 2 (.unsupportedCieAddressSize addressSize segmentSize)
    else return ()
  else pure ()

/-- The entry must lie in the slice, and its instructions are what follows the
fields read so far. -/
def instrRange (entryEnd : Nat) : Parse (Nat × Nat) := do
  let c ← cursor
  if c.bytes.len < entryEnd then fail (.truncated entryEnd c.bytes.len)
  else
    let len ← StateRes.lift (usizeSub entryEnd c.pos)
    return (c.pos, len)

def initialAugmentation : Augmentation := ⟨DW_EH_PE_ABSPTR, DW_EH_PE_OMIT, 0, false⟩

def cieAugmentation (augStart : Nat) : List UInt8 → Parse (Bool × Augmentation)
  | [] => pure (false, initialAugmentation)
  | ch :: letters =>
    if ch = 0x7a then do -- 'z'
      let _augDataLen ← readUleb128
      let a ← readAugmentationLetters letters initialAugmentation
      return (true, a)
    else failAt augStart .unsupportedNonZAugmentation

/-- The fields of a CIE in front of its initial instructions. -/
structure CieHeader where
  entryEnd : Nat
  codeAlign : UInt64
  dataAlign : Int64
  retAddrColumn : UInt64
  hasZ : Bool
  augmentation : Augmentation

def readReturnColumn (version : UInt8) : Parse UInt64 :=
  if version = 1 then UInt8.toUInt64 <$> readU8 else readUleb128

def readVersion : Parse UInt8 := do
  let version ← readU8
  if version ≠ 1 ∧ version ≠ 3 ∧ version ≠ 4 then
    failBefore 1 (.unsupportedCieVersion version)
  else return version

/-- The CIE id, which must be zero. -/
def readCieId (isDwarf64 : Bool) : Parse Unit := do
  let c ← cursor
  let cieId ← readEntryId isDwarf64
  if cieId ≠ 0 then failAt c.pos (.badCieId cieId) else return ()

def cieHeader : Parse CieHeader := do
  let (isDwarf64, entryEnd) ← readEntryLength
  readCieId isDwarf64
  let version ← readVersion
  let augStart ← cursor
  let aug ← readAugmentation
  readAddressSizes version
  let codeAlign ← readUleb128
  let dataAlign ← readSleb128
  let retAddrColumn ← readReturnColumn version
  let (hasZ, augmentation) ← cieAugmentation augStart.pos aug
  return { entryEnd, codeAlign, dataAlign, retAddrColumn, hasZ, augmentation }

def cieBody : Parse ParsedCie := do
  let h ← cieHeader
  let (instrOffset, instrLen) ← instrRange h.entryEnd
  return {
    codeAlign := h.codeAlign
    dataAlign := h.dataAlign
    retAddrColumn := h.retAddrColumn
    fdeEncoding := h.augmentation.fdeEncoding
    lsdaEncoding := h.augmentation.lsdaEncoding
    personality := h.augmentation.personality
    hasZ := h.hasZ
    signalFrame := h.augmentation.signalFrame
    cieInstrOffsetInEhFrame := instrOffset
    cieInstrLen := instrLen }

def parseCie (ehFrameBytes : Slice) (cieOffset : Nat) (ehFrameAvmaBase : UInt64) :
    Res DwarfParseError ParsedCie :=
  (cieBody ⟨ehFrameBytes, cieOffset, ehFrameAvmaBase⟩).1

def readLsda (config : FdeParseConfig) (initialPc : UInt64) : Parse UInt64 :=
  if config.lsdaEncoding ≠ DW_EH_PE_OMIT then
    readEncoded config.lsdaEncoding ⟨config.textBase, config.dataBase, initialPc⟩
  else pure 0

/-- The data between two positions; the position ends behind all of it. -/
def fdeAugmentationData (config : FdeParseConfig) (initialPc : UInt64) (start augDataEnd : Nat) :
    Parse UInt64 := do
  let lsda ← readLsda config initialPc
  let c ← cursor
  if augDataEnd < c.pos then failAt start (.truncated c.pos augDataEnd)
  else
    setPos augDataEnd
    return lsda

/-- The FDE's augmentation, present when the CIE's string starts with `z`. -/
def fdeAugmentation (config : FdeParseConfig) (entryEnd : Nat) (initialPc : UInt64) :
    Parse UInt64 :=
  if config.hasZ then do
    let augDataLen ← readUleb128
    let c ← cursor
    match checkedAdd c.pos augDataLen.toNat with
    | none => failAt c.pos .entryLengthOverflow
    | some augDataEnd =>
      if entryEnd < augDataEnd then failAt c.pos (.truncated augDataEnd entryEnd)
      else fdeAugmentationData config initialPc c.pos augDataEnd
  else pure 0

/-- The fields of an FDE in front of its instructions. -/
structure FdeHeader where
  entryEnd : Nat
  initialPc : UInt64
  addressRange : UInt64
  lsda : UInt64

/-- The CIE pointer, which is zero only in a CIE. -/
def readCiePointer (isDwarf64 : Bool) : Parse Unit := do
  let c ← cursor
  let ciePtr ← readEntryId isDwarf64
  if ciePtr = 0 then failAt c.pos .fdeCiePointerIsZero else return ()

def fdeFront (config : FdeParseConfig) : Parse (Nat × UInt64 × UInt64) := do
  let (isDwarf64, entryEnd) ← readEntryLength
  readCiePointer isDwarf64
  let initialPc ← readEncoded config.fdeEncoding ⟨config.textBase, config.dataBase, 0⟩
  let addressRange ← readEncoded (config.fdeEncoding &&& DW_EH_PE_FORMAT_MASK) ⟨0, 0, 0⟩
  return (entryEnd, initialPc, addressRange)

def fdeHeader (config : FdeParseConfig) : Parse FdeHeader := do
  let (entryEnd, initialPc, addressRange) ← fdeFront config
  let lsda ← fdeAugmentation config entryEnd initialPc
  return { entryEnd, initialPc, addressRange, lsda }

def fdeBody (config : FdeParseConfig) : Parse ParsedFde := do
  let h ← fdeHeader config
  let (instrOffset, instrLen) ← instrRange h.entryEnd
  return {
    initialPc := h.initialPc
    addressRange := h.addressRange
    fdeInstrOffsetInEhFrame := instrOffset
    fdeInstrLen := instrLen
    lsda := h.lsda }

def parseFde (ehFrameBytes : Slice) (fdeOffset : Nat) (ehFrameAvmaBase : UInt64)
    (config : FdeParseConfig) : Res DwarfParseError ParsedFde :=
  (fdeBody config ⟨ehFrameBytes, fdeOffset, ehFrameAvmaBase⟩).1

end Unwinder.Dwarf
