import Unwinder.Lib.StructLayout
import Unwinder.Module

namespace Unwinder
open Lib StructLayout

namespace DwarfCieInfo

/-- The members of the `repr(C)` struct, in declaration order. -/
def members : List Member :=
  [8, 8, 8, 8, 8, 8, 8, 8, 2, 2, 1, 1, 4].map .int

def values (info : DwarfCieInfo) : List Nat :=
  [info.cieInstrStart.toNat, info.cieInstrEnd.toNat, info.fdeInstrStart.toNat,
    info.fdeInstrEnd.toNat, info.codeAlign.toNat, info.dataAlign.toNat, info.retAddrColumn.toNat,
    info.handler.toNat, info.abi.toNat, info.tag.toNat, info.fdeEncoding.toNat,
    info.lsdaEncoding.toNat, info.flags.toNat]

/-- The struct in memory; its padding keeps the bytes that were there. -/
def image (info : DwarfCieInfo) (mem : Mem) : Mem :=
  storeAll ((layout 0 members).zip info.values) mem

end DwarfCieInfo

/-- The members of libunwind's `struct dwarf_cie_info`. -/
inductive CieField where
  | cieInstrStart
  | cieInstrEnd
  | fdeInstrStart
  | fdeInstrEnd
  | codeAlign
  | dataAlign
  | retAddrColumn
  | handler
  | abi
  | tag
  | fdeEncoding
  | lsdaEncoding
  | sizedAugmentation
  | haveAbiMarker
  | signalFrame
deriving DecidableEq

namespace CieField

/-- The declaration in `dwarf.h`; `unw_word_t` has eight bytes on both targets. -/
def declaration : List (CieField × Member) :=
  [(cieInstrStart, .int 8), (cieInstrEnd, .int 8), (fdeInstrStart, .int 8), (fdeInstrEnd, .int 8),
    (codeAlign, .int 8), (dataAlign, .int 8), (retAddrColumn, .int 8), (handler, .int 8),
    (abi, .int 2), (tag, .int 2), (fdeEncoding, .int 1), (lsdaEncoding, .int 1),
    (sizedAugmentation, .bits 4 1), (haveAbiMarker, .bits 4 1), (signalFrame, .bits 4 1)]

/-- Where the C compiler puts a member. -/
def place (f : CieField) : Option Place :=
  ((declaration.map Prod.fst).zip (layout 0 (declaration.map Prod.snd))).lookup f

/-- What libunwind reads for a member of the struct that it is pointed to. -/
def read (f : CieField) (mem : Mem) : Option Nat := f.place.map (·.load mem)

/-- The value that the struct was built with. -/
def built (info : DwarfCieInfo) : CieField → Nat
  | cieInstrStart => info.cieInstrStart.toNat
  | cieInstrEnd => info.cieInstrEnd.toNat
  | fdeInstrStart => info.fdeInstrStart.toNat
  | fdeInstrEnd => info.fdeInstrEnd.toNat
  | codeAlign => info.codeAlign.toNat
  | dataAlign => info.dataAlign.toNat
  | retAddrColumn => info.retAddrColumn.toNat
  | handler => info.handler.toNat
  | abi => info.abi.toNat
  | tag => info.tag.toNat
  | fdeEncoding => info.fdeEncoding.toNat
  | lsdaEncoding => info.lsdaEncoding.toNat
  | sizedAugmentation => info.flags.toNat % 2
  | haveAbiMarker => info.flags.toNat / 2 % 2
  | signalFrame => info.flags.toNat / 4 % 2

/-- The members that are bits of `flags` on the Rust side. -/
def IsFlag (f : CieField) : Prop := f = sizedAugmentation ∨ f = haveAbiMarker ∨ f = signalFrame

end CieField

end Unwinder
