import Unwinder.EhFrameTable
import Unwinder.Lib.OrderedMap

namespace Unwinder
open Lib Dwarf

structure AddrRange where
  start : UInt64
  stop : UInt64
deriving DecidableEq

/-- Section bytes in local memory: where they are stored, and what they are. A
pointer to a section is its buffer. -/
structure Buffer where
  ptr : Nat
  bytes : Slice

/-- A section whose bytes are mirrored locally. -/
structure LocalSection where
  avmaStart : UInt64
  avmaEnd : UInt64
  localPtr : Buffer

/-- The pre-parsed CIE that libunwind is handed. -/
structure DwarfCieInfo where
  cieInstrStart : UInt64
  cieInstrEnd : UInt64
  fdeInstrStart : UInt64
  fdeInstrEnd : UInt64
  codeAlign : UInt64
  dataAlign : UInt64
  retAddrColumn : UInt64
  handler : UInt64
  abi : UInt16
  tag : UInt16
  fdeEncoding : UInt8
  lsdaEncoding : UInt8
  flags : UInt32
deriving DecidableEq

def DwarfCieInfo.FLAG_SIZED_AUGMENTATION : UInt32 := 0x1

def DwarfCieInfo.FLAG_SIGNAL_FRAME : UInt32 := 0x4

structure FunctionDetails where
  startIp : UInt64
  endIp : UInt64
  cieInfo : DwarfCieInfo
  lsda : UInt64
  handler : UInt64
  signalFrame : Bool
deriving DecidableEq

/-- What the mutex of a module guards. -/
structure FunctionCache where
  entries : OrderedMap UInt64 FunctionDetails
  poisoned : Bool

def FunctionCache.new : FunctionCache := ⟨.empty, false⟩

/-- The shared data of a module. Everything but the function cache is fixed when
it is built; `functionCache` names the cache in the state of the process. -/
structure ModuleData where
  name : String
  avmaRange : AddrRange
  baseAvma : UInt64
  localSections : List LocalSection
  table : EhFrameTable
  ehFrameHdrLocal : Option Buffer
  ehFrameLocal : Option Buffer
  ehFrameAvma : UInt64
  ehFrameHdrError : Option EhFrameHdrError
  functionCache : Nat
  textBase : UInt64
  dataBase : UInt64

structure ModuleParts where
  name : String
  avmaRange : AddrRange
  baseAvma : UInt64
  baseSvma : UInt64
  textSvma : Option AddrRange
  ehFrameSvma : Option AddrRange
  ehFrame : Option Buffer
  ehFrameHdrSvma : Option AddrRange
  ehFrameHdr : Option Buffer

namespace ModuleParts

def slide (p : ModuleParts) : UInt64 := p.baseAvma - p.baseSvma

end ModuleParts

/-- The mirror of a section loaded at an address. -/
def LocalSection.ofBytes (avma : UInt64) (b : Buffer) : LocalSection :=
  ⟨avma, saturatingAdd avma (UInt64.ofNat b.bytes.len), b⟩

/-- A section that has both its bytes and an address, with that address slid. -/
def loadedSection (slide : UInt64) : Option Buffer → Option AddrRange → Option (UInt64 × Buffer)
  | some b, some svma => some (svma.start + slide, b)
  | _, _ => none

def hdrTable : Option (UInt64 × Buffer) → EhFrameTable × Option EhFrameHdrError
  | some (avma, b) =>
    match EhFrameTable.parse b.bytes avma with
    | .ok table => (table, none)
    | .error err => (EhFrameTable.empty avma, some err)
  | none => (EhFrameTable.empty 0, none)

/-- Builds the module data; its cache starts out empty under the given name. -/
def ModuleData.fromParts (p : ModuleParts) (functionCache : Nat) : ModuleData :=
  let hdr := loadedSection p.slide p.ehFrameHdr p.ehFrameHdrSvma
  let frame := loadedSection p.slide p.ehFrame p.ehFrameSvma
  let mirror (s : UInt64 × Buffer) := LocalSection.ofBytes s.1 s.2
  { name := p.name
    avmaRange := p.avmaRange
    baseAvma := p.baseAvma
    localSections := (hdr.map mirror).toList ++ (frame.map mirror).toList
    table := (hdrTable hdr).1
    ehFrameHdrLocal := hdr.map Prod.snd
    ehFrameLocal := frame.map Prod.snd
    ehFrameAvma := (frame.map Prod.fst).getD 0
    ehFrameHdrError := (hdrTable hdr).2
    functionCache := functionCache
    textBase := match p.textSvma with
      | some svma => svma.start + p.slide
      | none => p.avmaRange.start
    dataBase := (hdr.map Prod.fst).getD 0 }

inductive ModuleError where
  | emptyAvmaRange
  | missingEhFrame
  | missingEhFrameSvma
  | missingEhFrameHdr
  | missingEhFrameHdrSvma
  | invalidEhFrameHdr (err : EhFrameHdrError)
deriving DecidableEq

def validateModuleParts (p : ModuleParts) : Except ModuleError Unit :=
  if p.avmaRange.stop ≤ p.avmaRange.start then .error .emptyAvmaRange
  else match p.ehFrameSvma, p.ehFrame, p.ehFrameHdrSvma, p.ehFrameHdr with
    | none, _, _, _ => .error .missingEhFrameSvma
    | _, none, _, _ => .error .missingEhFrame
    | _, _, none, _ => .error .missingEhFrameHdrSvma
    | _, _, _, none => .error .missingEhFrameHdr
    | some _, some _, some svma, some hdr =>
      match EhFrameTable.parse hdr.bytes (svma.start + p.slide) with
      | .ok _ => .ok ()
      | .error err => .error (.invalidEhFrameHdr err)

def ModuleData.fallbackOnly (name : String) (avmaRange : AddrRange) (baseAvma : UInt64)
    (functionCache : Nat) : ModuleData :=
  .fromParts ⟨name, avmaRange, baseAvma, baseAvma, none, none, none, none, none⟩ functionCache

end Unwinder
