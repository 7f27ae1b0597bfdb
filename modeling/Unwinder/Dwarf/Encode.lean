import Unwinder.Dwarf.Layout
import Unwinder.Module

namespace Unwinder.Dwarf
open Lib

/-- What a direct encoding adds to its operand. -/
inductive Application where
  | absolute | pcrel | textrel | datarel | funcrel
deriving DecidableEq

namespace Application

def code : Application → UInt8
  | absolute => 0
  | pcrel => DW_EH_PE_PCREL
  | textrel => DW_EH_PE_TEXTREL
  | datarel => DW_EH_PE_DATAREL
  | funcrel => DW_EH_PE_FUNCREL

def base (b : Bases) (place : UInt64) : Application → UInt64
  | absolute => 0
  | pcrel => place
  | textrel => b.text
  | datarel => b.data
  | funcrel => b.func

end Application

/-- A direct encoding that the pointer reader supports. -/
structure Encoding where
  format : Format
  application : Application
deriving DecidableEq

namespace Encoding

def byte (e : Encoding) : UInt8 := e.format.code ||| e.application.code

/-- The address a raw operand stands for; a raw zero stands for none. -/
def pointer (e : Encoding) (b : Bases) (place raw : UInt64) : UInt64 :=
  if raw = 0 then 0 else raw + e.application.base b place

end Encoding

/-- The personality pointers a CIE can hold: absolute or relative to their own
place, or indirect with any application. -/
inductive Personality where
  | direct (format : Format) (pcrel : Bool) (raw : UInt64) (fits : format.Fits raw)
  | indirect (format : Format) (application : Fin 8) (raw : UInt64) (fits : format.Fits raw)

namespace Personality

def encoding (format : Format) (pcrel : Bool) : Encoding :=
  ⟨format, if pcrel then .pcrel else .absolute⟩

def byte : Personality → UInt8
  | direct format pcrel _ _ => (encoding format pcrel).byte
  | indirect format app _ _ =>
    format.code ||| UInt8.ofNat (16 * app.val) ||| DW_EH_PE_INDIRECT

def operand : Personality → List UInt8
  | direct format _ raw _ | indirect format _ raw _ => format.encode raw

/-- What is reported of it: an indirect pointer is not followed. -/
def pointer (place : UInt64) : Personality → UInt64
  | direct format pcrel raw _ => (encoding format pcrel).pointer ⟨0, 0, 0⟩ place raw
  | indirect _ _ _ _ => 0

end Personality

/-- One letter behind the `z`, with its value. -/
inductive AugLetter where
  | fdeEncoding (enc : Encoding)
  | lsdaEncoding (enc : Option Encoding)
  | personality (p : Personality)
  | signalFrame
  | ignoredB
  | ignoredG

namespace AugLetter

def lsdaByte : Option Encoding → UInt8
  | none => DW_EH_PE_OMIT
  | some enc => enc.byte

def item : AugLetter → AugItem
  | fdeEncoding enc => .fdeEncoding enc.byte
  | lsdaEncoding enc => .lsdaEncoding (lsdaByte enc)
  | personality p => .personality p.byte p.operand
  | signalFrame => .signalFrame
  | ignoredB => .ignoredB
  | ignoredG => .ignoredG

def letter (l : AugLetter) : UInt8 := l.item.letter

def bytes (l : AugLetter) : List UInt8 := l.item.bytes

def fdeEncoding? : AugLetter → Option Encoding
  | fdeEncoding enc => some enc
  | _ => none

def lsdaEncoding? : AugLetter → Option (Option Encoding)
  | lsdaEncoding enc => some enc
  | _ => none

/-- The personality the letters report, their data starting at the given address. -/
def personalityFrom : UInt64 → List AugLetter → UInt64
  | _, [] => 0
  | place, personality p :: _ => p.pointer (place + 1)
  | place, l :: rest => personalityFrom (place + UInt64.ofNat l.bytes.length) rest

end AugLetter

inductive CieVersion where
  | v1 | v3 | v4
deriving DecidableEq

def CieVersion.code : CieVersion → UInt8
  | v1 => 1
  | v3 => 3
  | v4 => 4

/-- A CIE as a value. -/
structure CieData where
  wide : Bool
  version : CieVersion
  codeAlign : UInt64
  dataAlign : Int64
  retAddrColumn : UInt64
  augmentation : Option (List AugLetter)
  instrs : List UInt8
  column_fits : version = .v1 → retAddrColumn.toNat < 256
  distinct : ∀ letters ∈ augmentation, (letters.map AugLetter.letter).Nodup

namespace CieData

def letters (d : CieData) : List AugLetter := d.augmentation.getD []

def fdeEncoding (d : CieData) : Encoding :=
  (d.letters.findSome? AugLetter.fdeEncoding?).getD ⟨.absptr, .absolute⟩

/-- The encoding of LSDA pointers, if the entries have any. -/
def lsdaEncoding (d : CieData) : Option Encoding :=
  (d.letters.findSome? AugLetter.lsdaEncoding?).getD none

def signalFrame (d : CieData) : Bool := d.letters.any (fun l => l.letter = 0x53)

def column (d : CieData) : List UInt8 :=
  match d.version with
  | .v1 => [d.retAddrColumn.toUInt8]
  | _ => ulebEncode d.retAddrColumn.toNat

def augString (d : CieData) : List UInt8 :=
  match d.augmentation with
  | none => []
  | some letters => 0x7a :: letters.map AugLetter.letter

def addressSizes (d : CieData) : List UInt8 :=
  match d.version with
  | .v4 => [8, 0]
  | _ => []

/-- The fields between the length and the augmentation data. -/
def fields (d : CieData) : List UInt8 :=
  idField d.wide 0 ++ ([d.version.code] ++ ((d.augString ++ [0]) ++ (d.addressSizes ++
    (ulebEncode d.codeAlign.toNat ++ (slebEncode d.dataAlign.toInt ++ d.column)))))

def augSize (letters : List AugLetter) : List UInt8 :=
  ulebEncode (letters.flatMap AugLetter.bytes).length

def augData (d : CieData) : List UInt8 :=
  match d.augmentation with
  | none => []
  | some letters => augSize letters ++ letters.flatMap AugLetter.bytes

def body (d : CieData) : List UInt8 := d.fields ++ (d.augData ++ d.instrs)

def bytes (d : CieData) : List UInt8 := lengthField d.wide d.body.length ++ d.body

/-- The reported personality of an entry at the given address. -/
def personality (d : CieData) (avma : UInt64) : UInt64 :=
  match d.augmentation with
  | none => 0
  | some letters =>
    AugLetter.personalityFrom (avma + UInt64.ofNat ((lengthField d.wide d.body.length).length +
      d.fields.length + (augSize letters).length)) letters

/-- What is to be read of the entry at an offset of a section. -/
def parsed (d : CieData) (avma : UInt64) (off : Nat) : ParsedCie where
  codeAlign := d.codeAlign
  dataAlign := d.dataAlign
  retAddrColumn := d.retAddrColumn
  fdeEncoding := d.fdeEncoding.byte
  lsdaEncoding := AugLetter.lsdaByte d.lsdaEncoding
  personality := d.personality (avma + UInt64.ofNat off)
  hasZ := d.augmentation.isSome
  signalFrame := d.signalFrame
  cieInstrOffsetInEhFrame := off + d.bytes.length - d.instrs.length
  cieInstrLen := d.instrs.length

end CieData

/-- An FDE as a value; the LSDA is its raw operand, which is zero when there is
none. -/
structure FdeData where
  wide : Bool
  initialPc : UInt64
  addressRange : UInt64
  lsda : UInt64
  padding : List UInt8
  instrs : List UInt8

/-- A CIE, an FDE that refers back to it, and the bytes around the two. -/
structure EntryPair where
  before : List UInt8
  cie : CieData
  between : List UInt8
  fde : FdeData
  after : List UInt8

namespace EntryPair

variable (p : EntryPair) (m : ModuleData)

def cieOffset : Nat := p.before.length

def fdeOffset : Nat := p.before.length + p.cie.bytes.length + p.between.length

def lengthWidth (wide : Bool) : Nat := if wide then 12 else 4

/-- The distance from the CIE pointer back to the CIE. -/
def ciePtr : Nat := p.cie.bytes.length + p.between.length + lengthWidth p.fde.wide

def pcOffset : Nat := p.fdeOffset + lengthWidth p.fde.wide + idWidth p.fde.wide

/-- The operand of the initial location: its distance from the base that the
encoding names. -/
def rawPc : UInt64 :=
  p.fde.initialPc - p.cie.fdeEncoding.application.base ⟨m.textBase, m.dataBase, 0⟩
    (m.ehFrameAvma + UInt64.ofNat p.pcOffset)

def pcBytes : List UInt8 := p.cie.fdeEncoding.format.encode (p.rawPc m)

def rangeBytes : List UInt8 := p.cie.fdeEncoding.format.encode p.fde.addressRange

def lsdaBytes : List UInt8 :=
  match p.cie.lsdaEncoding with
  | none => []
  | some enc => enc.format.encode p.fde.lsda

def augSize : List UInt8 := ulebEncode (p.lsdaBytes ++ p.fde.padding).length

def augData : List UInt8 :=
  match p.cie.augmentation with
  | none => []
  | some _ => p.augSize ++ (p.lsdaBytes ++ p.fde.padding)

def fdeFields : List UInt8 := idField p.fde.wide p.ciePtr ++ (p.pcBytes m ++ p.rangeBytes)

def fdeBody : List UInt8 := p.fdeFields m ++ (p.augData ++ p.fde.instrs)

def fdeBytes : List UInt8 := lengthField p.fde.wide (p.fdeBody m).length ++ p.fdeBody m

def bytes : List UInt8 :=
  p.before ++ (p.cie.bytes ++ (p.between ++ (p.fdeBytes m ++ p.after)))

/-- The address of the LSDA operand. -/
def lsdaPlace : UInt64 :=
  m.ehFrameAvma + UInt64.ofNat (p.pcOffset + (p.pcBytes m).length + p.rangeBytes.length +
    p.augSize.length)

def lsda : UInt64 :=
  match p.cie.lsdaEncoding with
  | none => 0
  | some enc => enc.pointer ⟨m.textBase, m.dataBase, p.fde.initialPc⟩ (p.lsdaPlace m) p.fde.lsda

/-- The configuration that the parsed CIE gives for its FDEs. -/
def config : FdeParseConfig where
  fdeEncoding := p.cie.fdeEncoding.byte
  lsdaEncoding := AugLetter.lsdaByte p.cie.lsdaEncoding
  hasZ := p.cie.augmentation.isSome
  textBase := m.textBase
  dataBase := m.dataBase

def parsedCie : ParsedCie := p.cie.parsed m.ehFrameAvma p.cieOffset

def parsedFde : ParsedFde where
  initialPc := p.fde.initialPc
  addressRange := p.fde.addressRange
  fdeInstrOffsetInEhFrame := p.fdeOffset + (p.fdeBytes m).length - p.fde.instrs.length
  fdeInstrLen := p.fde.instrs.length
  lsda := p.lsda m

/-- The fields can hold their values, and the section is one a slice can hold. -/
structure Representable : Prop where
  cieLength : LengthFits p.cie.wide p.cie.body.length
  fdeLength : LengthFits p.fde.wide (p.fdeBody m).length
  ciePtr : p.ciePtr < 256 ^ idWidth p.fde.wide
  pc : p.cie.fdeEncoding.format.Fits (p.rawPc m)
  pc_ne : p.rawPc m ≠ 0
  range : p.cie.fdeEncoding.format.Fits p.fde.addressRange
  lsda : ∀ enc ∈ p.cie.lsdaEncoding, enc.format.Fits p.fde.lsda
  size : (p.bytes m).length < 2 ^ 63

variable {p m}

/-- The section with the pair in it. -/
def ehFrame (h : p.Representable m) : Slice := ⟨p.bytes m, h.size⟩

end EntryPair

end Unwinder.Dwarf
