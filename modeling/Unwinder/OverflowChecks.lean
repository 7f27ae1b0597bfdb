import Unwinder.FunctionDetails

namespace Unwinder
open Lib Dwarf

/-- Whether a build checks its arithmetic: an overflow panics, or the result wraps. -/
inductive OverflowChecks where
  | on
  | off
deriving DecidableEq

/-- Subtraction of machine-word sizes in a build. -/
def OverflowChecks.sub {ε : Type} : OverflowChecks → Nat → Nat → Res ε Nat
  | on, a, b => usizeSub a b
  | off, a, b => .ok ((a + 2 ^ 64 - b) % 2 ^ 64)

namespace Dwarf

variable (checks : OverflowChecks)

/-- No addition of the parsers overflows at a position in a slice. The builds differ
where the fields of an entry have run past its end. -/
def instrRangeIn (entryEnd : Nat) : Parse (Nat × Nat) := do
  let c ← cursor
  if c.bytes.len < entryEnd then fail (.truncated entryEnd c.bytes.len)
  else
    let len ← StateRes.lift (checks.sub entryEnd c.pos)
    return (c.pos, len)

def cieBodyIn : Parse ParsedCie := do
  let h ← cieHeader
  let (instrOffset, instrLen) ← instrRangeIn checks h.entryEnd
  return {
    codeAlign := h.codeAlign
    dataAlign := h.dataAlign
    retAddrColumn := h.retAddrColumn
    fdeEncoding := h.augmentation.fdeEncoding
    lsdaEncoding := h.augmentation.lsdaEncoding
    personality := h.augmentation.personality
    hasZ := h.hasZ
    signalFrame := h.augmentation.signalFrame
    cieInstrOffsetInEhFrame := instrOffset
    cieInstrLen := instrLen }

def parseCieIn (ehFrameBytes : Slice) (cieOffset : Nat) (ehFrameAvmaBase : UInt64) :
    Res DwarfParseError ParsedCie :=
  (cieBodyIn checks ⟨ehFrameBytes, cieOffset, ehFrameAvmaBase⟩).1

def fdeBodyIn (config : FdeParseConfig) : Parse ParsedFde := do
  let h ← fdeHeader config
  let (instrOffset, instrLen) ← instrRangeIn checks h.entryEnd
  return {
    initialPc := h.initialPc
    addressRange := h.addressRange
    fdeInstrOffsetInEhFrame := instrOffset
    fdeInstrLen := instrLen
    lsda := h.lsda }

def parseFdeIn (ehFrameBytes : Slice) (fdeOffset : Nat) (ehFrameAvmaBase : UInt64)
    (config : FdeParseConfig) : Res DwarfParseError ParsedFde :=
  (fdeBodyIn checks config ⟨ehFrameBytes, fdeOffset, ehFrameAvmaBase⟩).1

end Dwarf

section
variable (checks : OverflowChecks) (m : ModuleData)

def parseEntriesIn (ehFrame : Slice) (fdeOffset : Nat) :
    Res UnwindInfoError (ParsedCie × ParsedFde) := do
  let cieOffset ← cieOffsetOf m.name ehFrame fdeOffset
  let cie ← (parseCieIn checks ehFrame cieOffset m.ehFrameAvma).mapErr (.cieParse m.name cieOffset)
  let fde ← (parseFdeIn checks ehFrame fdeOffset m.ehFrameAvma
    { fdeEncoding := cie.fdeEncoding
      lsdaEncoding := cie.lsdaEncoding
      hasZ := cie.hasZ
      textBase := m.textBase
      dataBase := m.dataBase }).mapErr (.fdeParse m.name fdeOffset)
  return (cie, fde)

def parseFdeAtIn (ehFrame : Slice) (fdeAvma : UInt64) :
    Res UnwindInfoError (ParsedCie × ParsedFde) := do
  let fdeOffset ← fdeOffsetOf m ehFrame fdeAvma
  parseEntriesIn checks m ehFrame fdeOffset

/-- The parser of function details in a build. -/
def parseFunctionDetailsIn (ip : UInt64) : Res UnwindInfoError FunctionDetails :=
  match m.ehFrameLocal, m.ehFrameHdrLocal with
  | some ehFrame, some hdr => do
    let hit ← m.table.lookup hdr.bytes ip
    let (_, fdeAvma) ← Res.ofOption (.ehFrameHeaderLookupMiss m.name ip) hit
    let (cie, fde) ← parseFdeAtIn checks m ehFrame.bytes fdeAvma
    coveringDetails m ip cie fde
  | _, _ => .err (.missingLocalUnwindSections m.name ip)

end

/-- With checks, these are the parsers as they are. -/
theorem parseFunctionDetailsIn_on : parseFunctionDetailsIn .on = parseFunctionDetails := rfl

end Unwinder
