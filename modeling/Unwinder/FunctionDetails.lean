import Unwinder.Dwarf.Entries
import Unwinder.ModuleSet

namespace Unwinder
open Lib Dwarf

def buildDwarfCieInfo (cie : ParsedCie) (fde : ParsedFde) (ehFrameAvmaBase : UInt64) :
    DwarfCieInfo :=
  let cieInstrStart := ehFrameAvmaBase + UInt64.ofNat cie.cieInstrOffsetInEhFrame
  let fdeInstrStart := ehFrameAvmaBase + UInt64.ofNat fde.fdeInstrOffsetInEhFrame
  { cieInstrStart := cieInstrStart
    cieInstrEnd := cieInstrStart + UInt64.ofNat cie.cieInstrLen
    fdeInstrStart := fdeInstrStart
    fdeInstrEnd := fdeInstrStart + UInt64.ofNat fde.fdeInstrLen
    codeAlign := cie.codeAlign
    dataAlign := cie.dataAlign.toUInt64
    retAddrColumn := cie.retAddrColumn
    handler := cie.personality
    abi := 0
    tag := 0
    fdeEncoding := cie.fdeEncoding
    lsdaEncoding := cie.lsdaEncoding
    flags := (if cie.hasZ then DwarfCieInfo.FLAG_SIZED_AUGMENTATION else 0) |||
      (if cie.signalFrame then DwarfCieInfo.FLAG_SIGNAL_FRAME else 0) }

/-- Where the CIE pointer of an FDE stands, and how wide it is. -/
def ciePtrPlace (fdeOffset : Nat) (len32 : UInt32) : Res UnwindInfoError (Nat × Nat) :=
  if len32 = 0xffffffff then (usizeAdd fdeOffset 12).bind (fun pos => .ok (pos, 8))
  else (usizeAdd fdeOffset 4).bind (fun pos => .ok (pos, 4))

/-- The offset of the CIE that the FDE at an offset refers back to. On a 64-bit
target `usize::try_from` of the pointer cannot fail. -/
def cieOffsetOf (name : String) (ehFrame : Slice) (fdeOffset : Nat) : Res UnwindInfoError Nat := do
  let prefixEnd ← usizeAdd fdeOffset 4
  let lenPrefix ← Res.ofOption (.fdeLengthPrefixTruncated name fdeOffset ehFrame.len)
    (ehFrame.get? fdeOffset prefixEnd)
  let (ciePtrPos, ciePtrLen) ← ciePtrPlace fdeOffset (UInt32.ofNat (leValue lenPrefix))
  let ciePtrEnd ← usizeAdd ciePtrPos ciePtrLen
  let ciePtrBytes ← Res.ofOption (.ciePointerTruncated name ciePtrPos ehFrame.len)
    (ehFrame.get? ciePtrPos ciePtrEnd)
  let ciePtr := leValue ciePtrBytes
  if ciePtr ≤ ciePtrPos then .ok (ciePtrPos - ciePtr)
  else .err (.ciePointerUnderflow name ciePtrPos (UInt64.ofNat ciePtr))

/-- The FDE at an offset together with its CIE. -/
def parseEntries (m : ModuleData) (ehFrame : Slice) (fdeOffset : Nat) :
    Res UnwindInfoError (ParsedCie × ParsedFde) := do
  let cieOffset ← cieOffsetOf m.name ehFrame fdeOffset
  let cie ← (parseCie ehFrame cieOffset m.ehFrameAvma).mapErr (.cieParse m.name cieOffset)
  let fde ← (parseFde ehFrame fdeOffset m.ehFrameAvma
    { fdeEncoding := cie.fdeEncoding
      lsdaEncoding := cie.lsdaEncoding
      hasZ := cie.hasZ
      textBase := m.textBase
      dataBase := m.dataBase }).mapErr (.fdeParse m.name fdeOffset)
  return (cie, fde)

def fdeOffsetOf (m : ModuleData) (ehFrame : Slice) (fdeAvma : UInt64) : Res UnwindInfoError Nat :=
  match checkedSub64 fdeAvma m.ehFrameAvma with
  | none => .err (.fdeOffsetBeforeEhFrame m.name fdeAvma m.ehFrameAvma)
  | some off =>
    if ehFrame.len ≤ off.toNat then .err (.fdeOffsetOutOfRange m.name off.toNat ehFrame.len)
    else .ok off.toNat

def parseFdeAt (m : ModuleData) (ehFrame : Slice) (fdeAvma : UInt64) :
    Res UnwindInfoError (ParsedCie × ParsedFde) := do
  let fdeOffset ← fdeOffsetOf m ehFrame fdeAvma
  parseEntries m ehFrame fdeOffset

def functionDetails (m : ModuleData) (cie : ParsedCie) (fde : ParsedFde) (endIp : UInt64) :
    FunctionDetails where
  startIp := fde.initialPc
  endIp := endIp
  cieInfo := buildDwarfCieInfo cie fde m.ehFrameAvma
  lsda := fde.lsda
  handler := cie.personality
  signalFrame := cie.signalFrame

/-- The details of a parsed FDE, if its range contains the address. -/
def coveringDetails (m : ModuleData) (ip : UInt64) (cie : ParsedCie) (fde : ParsedFde) :
    Res UnwindInfoError FunctionDetails :=
  match checkedAdd64 fde.initialPc fde.addressRange with
  | none => .err (.ehFrameHeaderLookupMiss m.name ip)
  | some endIp =>
    if ip < fde.initialPc ∨ endIp ≤ ip then .err (.ehFrameHeaderLookupMiss m.name ip)
    else .ok (functionDetails m cie fde endIp)

def parseFunctionDetails (m : ModuleData) (ip : UInt64) : Res UnwindInfoError FunctionDetails :=
  match m.ehFrameLocal, m.ehFrameHdrLocal with
  | some ehFrame, some hdr => do
    let hit ← m.table.lookup hdr.bytes ip
    let (_, fdeAvma) ← Res.ofOption (.ehFrameHeaderLookupMiss m.name ip) hit
    let (cie, fde) ← parseFdeAt m ehFrame.bytes fdeAvma
    coveringDetails m ip cie fde
  | _, _ => .err (.missingLocalUnwindSections m.name ip)

/-- The cached function whose range contains an address. -/
def cachedDetails (entries : OrderedMap UInt64 FunctionDetails) (ip : UInt64) :
    Option FunctionDetails :=
  match entries.lastLE ip with
  | some (_, details) => if ip < details.endIp then some details else none
  | none => none

/-- One call on its own: the cache is checked, and a miss is parsed and cached. -/
def getOrParseFunctionDetails (m : ModuleData) (ip : UInt64) (cache : FunctionCache) :
    Res UnwindInfoError FunctionDetails × FunctionCache :=
  if cache.poisoned then (.err (.functionCachePoisoned m.name), cache)
  else match cachedDetails cache.entries ip with
    | some details => (.ok details, cache)
    | none =>
      match parseFunctionDetails m ip with
      | .ok details =>
        (.ok details, { cache with entries := cache.entries.insert details.startIp details })
      | .err err => (.err err, cache)
      | .panic => (.panic, cache)

end Unwinder
