import Unwinder.Dwarf.Cursor

namespace Unwinder
open Lib Dwarf

/-- A parsed `.eh_frame_hdr`: where its search table starts, how many entries
it has, and the tracee address that the entries are relative to. -/
structure EhFrameTable where
  tableDataOffset : UInt64
  entryCount : UInt64
  ehFrameHdrAvma : UInt64
deriving DecidableEq

def encSize (enc : UInt8) : Option Nat :=
  if enc = DW_EH_PE_OMIT then none
  else
    let format := enc &&& 0x0f
    if format = DW_EH_PE_UDATA4 ∨ format = DW_EH_PE_SDATA4 then some 4
    else if format = 0x04 ∨ format = 0x0c then some 8
    else if format = 0x02 ∨ format = 0x0a then some 2
    else none

def signExtend32 (bytes : List UInt8) : UInt64 :=
  (UInt32.ofNat (leValue bytes)).toInt32.toInt64.toUInt64

/-- The count of the header; the 64-bit signed format has no case here. -/
def readUnsigned (bytes : List UInt8) (enc : UInt8) : Option (UInt64 × Nat) :=
  if enc = DW_EH_PE_OMIT then none
  else
    let format := enc &&& 0x0f
    if format = DW_EH_PE_UDATA4 then
      if bytes.length < 4 then none
      else some ((UInt32.ofNat (leValue (bytes.take 4))).toUInt64, 4)
    else if format = DW_EH_PE_SDATA4 then
      if bytes.length < 4 then none
      else some (signExtend32 (bytes.take 4), 4)
    else if format = 0x04 then
      if bytes.length < 8 then none
      else some (UInt64.ofNat (leValue (bytes.take 8)), 8)
    else none

namespace EhFrameTable

def empty (ehFrameHdrAvma : UInt64) : EhFrameTable := ⟨0, 0, ehFrameHdrAvma⟩

/-- The table behind the count at a position: only `datarel | sdata4` entries
are accepted, and all of them must be in the section. -/
def parseTable (hdr : Slice) (tableEnc : UInt8) (cursor : Nat) (fdeCount ehFrameHdrAvma : UInt64) :
    Except EhFrameHdrError EhFrameTable :=
  if tableEnc ≠ DW_EH_PE_DATAREL ||| DW_EH_PE_SDATA4 then
    .error (.unsupportedTableEncoding tableEnc)
  else
    let need := min (8 * fdeCount.toNat) (2 ^ 64 - 1)
    if hdr.len < min (cursor + need) (2 ^ 64 - 1) then
      .error (.tableTruncated cursor fdeCount hdr.len)
    else .ok ⟨UInt64.ofNat cursor, fdeCount, ehFrameHdrAvma⟩

def parseCount (hdr : Slice) (fdeCountEnc tableEnc : UInt8) (cursor : Nat)
    (ehFrameHdrAvma : UInt64) : Except EhFrameHdrError EhFrameTable :=
  match readUnsigned (hdr.data.drop cursor) fdeCountEnc with
  | some (fdeCount, size) => parseTable hdr tableEnc (cursor + size) fdeCount ehFrameHdrAvma
  | none =>
    match encSize fdeCountEnc with
    | some size => .error (.fdeCountTruncated cursor size hdr.len)
    | none => .error (.unsupportedFdeCountEncoding fdeCountEnc)

/-- The header parser. The other addresses the source passes in are unused. -/
def parse (hdr : Slice) (ehFrameHdrAvma : UInt64) : Except EhFrameHdrError EhFrameTable :=
  match hdr.data with
  | version :: ehFramePtrEnc :: fdeCountEnc :: tableEnc :: _ =>
    if version ≠ 1 then .error (.unsupportedVersion version)
    else match encSize ehFramePtrEnc with
      | none => .error (.unsupportedEhFramePtrEncoding ehFramePtrEnc)
      | some size =>
        if hdr.len < 4 + size then .error (.ehFramePtrTruncated 4 size hdr.len)
        else parseCount hdr fdeCountEnc tableEnc (4 + size) ehFrameHdrAvma
  | _ => .error (.fixedHeaderTruncated hdr.len)

/-- The address in one half of a table entry; indexing past the table panics. -/
def entryWord {ε : Type} (entries : List UInt8) (segbase : UInt64) (off : Nat) : Res ε UInt64 :=
  if off + 4 ≤ entries.length then .ok (segbase + signExtend32 ((entries.drop off).take 4))
  else .panic

def entryPc {ε : Type} (entries : List UInt8) (segbase : UInt64) (i : Nat) : Res ε UInt64 :=
  entryWord entries segbase (i * 8)

def entryFde {ε : Type} (entries : List UInt8) (segbase : UInt64) (i : Nat) : Res ε UInt64 :=
  entryWord entries segbase (i * 8 + 4)

/-- The search loop: halves `[lo, hi)` towards the last entry not above `ip`. -/
def searchLoop {ε : Type} (entries : List UInt8) (segbase ip : UInt64) (lo hi : Nat) : Res ε Nat :=
  if _h : lo + 1 < hi then
    let mid := lo + (hi - lo) / 2
    (entryPc entries segbase mid).bind (fun pc =>
      if pc ≤ ip then searchLoop entries segbase ip mid hi
      else searchLoop entries segbase ip lo mid)
  else .ok lo
termination_by hi - lo
decreasing_by all_goals omega

/-- The nearest table entry not above `ip`: its start and the address of its FDE. -/
def lookup {ε : Type} (t : EhFrameTable) (hdr : Slice) (ip : UInt64) :
    Res ε (Option (UInt64 × UInt64)) :=
  if t.entryCount = 0 then .ok none
  else do
    let tableOff := t.tableDataOffset.toNat
    let size ← usizeMul t.entryCount.toNat 8
    let stop ← usizeAdd tableOff size
    match hdr.get? tableOff stop with
    | none => .ok none
    | some entries =>
      let segbase := t.ehFrameHdrAvma
      let lo ← searchLoop entries segbase ip 0 t.entryCount.toNat
      let pc ← entryPc entries segbase lo
      if ip < pc then .ok none
      else do
        let fde ← entryFde entries segbase lo
        return some (pc, fde)

end EhFrameTable

end Unwinder
