import Unwinder.Dwarf.Entries
import Unwinder.Lib.Leb128

namespace Unwinder.Dwarf
open Lib

/-- The operand formats of an encoded pointer. -/
inductive Format where
  | absptr | uleb128 | udata2 | udata4 | udata8 | sleb128 | sdata2 | sdata4 | sdata8
deriving DecidableEq

namespace Format

def code : Format → UInt8
  | absptr => DW_EH_PE_ABSPTR
  | uleb128 => DW_EH_PE_ULEB128
  | udata2 => DW_EH_PE_UDATA2
  | udata4 => DW_EH_PE_UDATA4
  | udata8 => DW_EH_PE_UDATA8
  | sleb128 => DW_EH_PE_SLEB128
  | sdata2 => DW_EH_PE_SDATA2
  | sdata4 => DW_EH_PE_SDATA4
  | sdata8 => DW_EH_PE_SDATA8

def all : List Format :=
  [absptr, uleb128, udata2, udata4, udata8, sleb128, sdata2, sdata4, sdata8]

def ofEnc (enc : UInt8) : Option Format :=
  all.find? (fun f => f.code = enc &&& DW_EH_PE_FORMAT_MASK)

/-- The byte strings an operand of the format can be. -/
def Shape : Format → List UInt8 → Prop
  | absptr, bs | udata8, bs | sdata8, bs => bs.length = 8
  | udata2, bs | sdata2, bs => bs.length = 2
  | udata4, bs | sdata4, bs => bs.length = 4
  | uleb128, bs | sleb128, bs => IsLeb bs ∧ bs.length ≤ 10

instance : (f : Format) → (bs : List UInt8) → Decidable (f.Shape bs)
  | absptr, bs => inferInstanceAs (Decidable (bs.length = 8))
  | udata8, bs => inferInstanceAs (Decidable (bs.length = 8))
  | sdata8, bs => inferInstanceAs (Decidable (bs.length = 8))
  | udata2, bs => inferInstanceAs (Decidable (bs.length = 2))
  | sdata2, bs => inferInstanceAs (Decidable (bs.length = 2))
  | udata4, bs => inferInstanceAs (Decidable (bs.length = 4))
  | sdata4, bs => inferInstanceAs (Decidable (bs.length = 4))
  | uleb128, bs => inferInstanceAs (Decidable (IsLeb bs ∧ bs.length ≤ 10))
  | sleb128, bs => inferInstanceAs (Decidable (IsLeb bs ∧ bs.length ≤ 10))

/-- The operand widened to 64 bits. -/
def raw : Format → List UInt8 → UInt64
  | absptr, bs | udata8, bs | sdata8, bs | udata2, bs | udata4, bs => UInt64.ofNat (leValue bs)
  | sdata2, bs => (UInt16.ofNat (leValue bs)).toInt16.toInt64.toUInt64
  | sdata4, bs => (UInt32.ofNat (leValue bs)).toInt32.toInt64.toUInt64
  | uleb128, bs => UInt64.ofNat (ulebValue bs)
  | sleb128, bs => (Int64.ofInt (slebValue bs)).toUInt64

/-- The shortest spelling of an operand. -/
def encode : Format → UInt64 → List UInt8
  | absptr, v | udata8, v | sdata8, v => leBytes 8 v.toNat
  | udata2, v | sdata2, v => leBytes 2 v.toNat
  | udata4, v | sdata4, v => leBytes 4 v.toNat
  | uleb128, v => ulebEncode v.toNat
  | sleb128, v => slebEncode v.toInt64.toInt

/-- The values the format can hold: zero- or sign-extension gives them back. -/
def Fits : Format → UInt64 → Prop
  | udata2, v => v.toNat < 2 ^ 16
  | udata4, v => v.toNat < 2 ^ 32
  | sdata2, v => -2 ^ 15 ≤ v.toInt64.toInt ∧ v.toInt64.toInt < 2 ^ 15
  | sdata4, v => -2 ^ 31 ≤ v.toInt64.toInt ∧ v.toInt64.toInt < 2 ^ 31
  | _, _ => True

instance : (f : Format) → (v : UInt64) → Decidable (f.Fits v)
  | udata2, v => inferInstanceAs (Decidable (v.toNat < 2 ^ 16))
  | udata4, v => inferInstanceAs (Decidable (v.toNat < 2 ^ 32))
  | sdata2, v =>
    inferInstanceAs (Decidable (-2 ^ 15 ≤ v.toInt64.toInt ∧ v.toInt64.toInt < 2 ^ 15))
  | sdata4, v =>
    inferInstanceAs (Decidable (-2 ^ 31 ≤ v.toInt64.toInt ∧ v.toInt64.toInt < 2 ^ 31))
  | absptr, _ | uleb128, _ | udata8, _ | sleb128, _ | sdata8, _ =>
    inferInstanceAs (Decidable True)

end Format

/-- What the application bits of an encoding make of a raw operand. -/
def applied (enc : UInt8) (raw pcrel : UInt64) (b : Bases) : Option UInt64 :=
  let app := enc &&& DW_EH_PE_APP_MASK
  if app = 0 then some raw
  else if app = DW_EH_PE_PCREL then some (raw + pcrel)
  else if app = DW_EH_PE_TEXTREL then some (raw + b.text)
  else if app = DW_EH_PE_DATAREL then some (raw + b.data)
  else if app = DW_EH_PE_FUNCREL then some (raw + b.func)
  else none

/-- The address an operand stands for in its encoding, if the encoding is
supported and the bytes are an operand of it. -/
def pointerValue (enc : UInt8) (indirectOk : Bool) (b : Bases) (pcrel : UInt64)
    (bs : List UInt8) : Option UInt64 :=
  if enc = DW_EH_PE_OMIT then none
  else if enc &&& DW_EH_PE_INDIRECT ≠ 0 ∧ indirectOk = false then none
  else match Format.ofEnc enc with
    | none => none
    | some f =>
      if ¬ f.Shape bs then none
      else if enc &&& DW_EH_PE_INDIRECT ≠ 0 then some 0
      else if f.raw bs = 0 then some 0
      else applied enc (f.raw bs) pcrel b

/-- One augmentation letter with its data. -/
inductive AugItem where
  | fdeEncoding (enc : UInt8)
  | lsdaEncoding (enc : UInt8)
  | personality (enc : UInt8) (operand : List UInt8)
  | signalFrame
  | ignoredB
  | ignoredG

namespace AugItem

def letter : AugItem → UInt8
  | fdeEncoding _ => 0x52
  | lsdaEncoding _ => 0x4c
  | personality _ _ => 0x50
  | signalFrame => 0x53
  | ignoredB => 0x42
  | ignoredG => 0x47

def bytes : AugItem → List UInt8
  | fdeEncoding enc | lsdaEncoding enc => [enc]
  | personality enc operand => enc :: operand
  | _ => []

/-- What one item sets, its data starting at the given address. -/
def apply (avma : UInt64) (a : Augmentation) : AugItem → Option Augmentation
  | fdeEncoding enc => some { a with fdeEncoding := enc }
  | lsdaEncoding enc => some { a with lsdaEncoding := enc }
  | personality enc operand =>
    (pointerValue enc true ⟨0, 0, 0⟩ (avma + 1) operand).map
      (fun v => { a with personality := v })
  | signalFrame => some { a with signalFrame := true }
  | ignoredB | ignoredG => some a

def applyAll : UInt64 → List AugItem → Augmentation → Option Augmentation
  | _, [], a => some a
  | avma, item :: rest, a =>
    (item.apply avma a).bind (applyAll (avma + UInt64.ofNat item.bytes.length) rest)

end AugItem

/-- The length field of an entry, in its 32-bit or 64-bit form. -/
def lengthField (wide : Bool) (len : Nat) : List UInt8 :=
  if wide then leBytes 4 0xffffffff ++ leBytes 8 len else leBytes 4 len

def idWidth (wide : Bool) : Nat := if wide then 8 else 4

def idField (wide : Bool) (id : Nat) : List UInt8 := leBytes (idWidth wide) id

def LengthFits (wide : Bool) (len : Nat) : Prop :=
  if wide then len < 2 ^ 64 else len < 0xffffffff

instance (wide : Bool) (len : Nat) : Decidable (LengthFits wide len) :=
  inferInstanceAs (Decidable (if wide then len < 2 ^ 64 else len < 0xffffffff))

/-- The return-address column: one byte in version 1, ULEB128 later. -/
def ColumnShape (version : UInt8) (bs : List UInt8) : Prop :=
  if version = 1 then bs.length = 1 else IsLeb bs ∧ bs.length ≤ 10

def columnOf (version : UInt8) (bs : List UInt8) : UInt64 :=
  if version = 1 then (bs.headD 0).toUInt64 else UInt64.ofNat (ulebValue bs)

/-- A CIE's augmentation: behind a `z`, the length bytes and the letters with
their data. -/
abbrev AugSpelling := Option (List UInt8 × List AugItem)

namespace AugSpelling

def string : AugSpelling → List UInt8
  | none => []
  | some (_, items) => 0x7a :: items.map AugItem.letter

def data : AugSpelling → List UInt8
  | none => []
  | some (augLen, items) => augLen ++ items.flatMap AugItem.bytes

/-- What the letters set, the data starting at the given address. -/
def settings (avma : UInt64) : AugSpelling → Option Augmentation
  | none => some initialAugmentation
  | some (augLen, items) =>
    AugItem.applyAll (avma + UInt64.ofNat augLen.length) items initialAugmentation

end AugSpelling

/-- The bytes of a CIE in front of its initial instructions, field by field. -/
structure CieLayout where
  wide : Bool
  len : Nat
  version : UInt8
  codeAlign : List UInt8
  dataAlign : List UInt8
  retAddrColumn : List UInt8
  augmentation : AugSpelling

namespace CieLayout

def augString (l : CieLayout) : List UInt8 := AugSpelling.string l.augmentation

def augData (l : CieLayout) : List UInt8 := AugSpelling.data l.augmentation

def addressSizes (l : CieLayout) : List UInt8 := if l.version = 4 then [8, 0] else []

def front (l : CieLayout) : List UInt8 :=
  lengthField l.wide l.len ++ (idField l.wide 0 ++ ([l.version] ++ ((l.augString ++ [0]) ++
    (l.addressSizes ++ (l.codeAlign ++ (l.dataAlign ++ l.retAddrColumn))))))

def bytes (l : CieLayout) : List UInt8 := l.front ++ l.augData

/-- Where the entry ends when its length field is at the given offset. -/
def entryEnd (l : CieLayout) (off : Nat) : Nat := off + (lengthField l.wide l.len).length + l.len

/-- The fields in front of the augmentation data are ones the format allows. -/
structure WellFormed (l : CieLayout) : Prop where
  length : LengthFits l.wide l.len
  version : l.version = 1 ∨ l.version = 3 ∨ l.version = 4
  codeAlign : IsLeb l.codeAlign ∧ l.codeAlign.length ≤ 10
  dataAlign : IsLeb l.dataAlign ∧ l.dataAlign.length ≤ 10
  column : ColumnShape l.version l.retAddrColumn
  augLen : ∀ p ∈ l.augmentation, IsLeb p.1 ∧ p.1.length ≤ 10

/-- What the letters set when the entry starts at the given tracee address. -/
def settings (l : CieLayout) (avma : UInt64) : Option Augmentation :=
  AugSpelling.settings (avma + UInt64.ofNat l.front.length) l.augmentation

/-- What the header of the entry at an offset reads as. -/
def header (l : CieLayout) (off : Nat) (a : Augmentation) : CieHeader where
  entryEnd := l.entryEnd off
  codeAlign := UInt64.ofNat (ulebValue l.codeAlign)
  dataAlign := Int64.ofInt (slebValue l.dataAlign)
  retAddrColumn := columnOf l.version l.retAddrColumn
  hasZ := l.augmentation.isSome
  augmentation := a

end CieLayout

/-- The bytes of an FDE in front of its instructions, field by field. -/
structure FdeLayout where
  wide : Bool
  len : Nat
  ciePtr : Nat
  initialPc : List UInt8
  addressRange : List UInt8

namespace FdeLayout

def bytes (l : FdeLayout) : List UInt8 :=
  lengthField l.wide l.len ++ (idField l.wide l.ciePtr ++ (l.initialPc ++ l.addressRange))

def entryEnd (l : FdeLayout) (off : Nat) : Nat := off + (lengthField l.wide l.len).length + l.len

/-- The address of the initial-location field of an entry at the given address. -/
def pcAvma (l : FdeLayout) (avma : UInt64) : UInt64 :=
  avma + UInt64.ofNat ((lengthField l.wide l.len).length + (idField l.wide l.ciePtr).length)

structure WellFormed (l : FdeLayout) : Prop where
  length : LengthFits l.wide l.len
  ciePtr : 0 < l.ciePtr ∧ l.ciePtr < 256 ^ idWidth l.wide

/-- The initial location, for an entry at the given tracee address. -/
def pcValue (config : FdeParseConfig) (avma : UInt64) (l : FdeLayout) : Option UInt64 :=
  pointerValue config.fdeEncoding false ⟨config.textBase, config.dataBase, 0⟩ (l.pcAvma avma)
    l.initialPc

/-- The address range: the same format, and no base. -/
def rangeValue (config : FdeParseConfig) (l : FdeLayout) : Option UInt64 :=
  pointerValue (config.fdeEncoding &&& DW_EH_PE_FORMAT_MASK) false ⟨0, 0, 0⟩ 0 l.addressRange

end FdeLayout

end Unwinder.Dwarf
