import Unwinder.Module

namespace Unwinder
open Lib

/-- What a loader hands out of an object file, by section name. Asking may change
its state: bytes may be moved out. -/
structure ModuleSectionInfo (σ : Type) where
  baseSvma : σ → UInt64
  sectionSvmaRange : String → StateM σ (Option AddrRange)
  sectionData : String → StateM σ (Option Buffer)

section
variable {σ : Type} (info : ModuleSectionInfo σ)

def sectionRange (primary alternate : String) : StateM σ (Option AddrRange) := do
  match ← info.sectionSvmaRange primary with
  | some range => return some range
  | none => info.sectionSvmaRange alternate

def sectionData (primary alternate : String) : StateM σ (Option Buffer) := do
  match ← info.sectionData primary with
  | some bytes => return some bytes
  | none => info.sectionData alternate

def modulePartsFromSectionInfo (name : String) (avmaRange : AddrRange) (baseAvma : UInt64) :
    StateM σ ModuleParts := do
  let baseSvma := info.baseSvma (← get)
  let textSvma ← sectionRange info ".text" "__text"
  let ehFrameSvma ← sectionRange info ".eh_frame" "__eh_frame"
  let ehFrame ← sectionData info ".eh_frame" "__eh_frame"
  let ehFrameHdrSvma ← sectionRange info ".eh_frame_hdr" "__eh_frame_hdr"
  let ehFrameHdr ← sectionData info ".eh_frame_hdr" "__eh_frame_hdr"
  return ⟨name, avmaRange, baseAvma, baseSvma, textSvma, ehFrameSvma, ehFrame, ehFrameHdrSvma,
    ehFrameHdr⟩

/-- The lenient constructor: whatever the loader has. -/
def ModuleData.new (name : String) (avmaRange : AddrRange) (baseAvma : UInt64) (sections : σ)
    (functionCache : Nat) : ModuleData :=
  .fromParts ((modulePartsFromSectionInfo info name avmaRange baseAvma).run sections).1 functionCache

/-- The strict constructor on whatever the loader has. -/
def ModuleData.tryFromSectionInfo (name : String) (avmaRange : AddrRange) (baseAvma : UInt64)
    (sections : σ) (functionCache : Nat) : Except ModuleError ModuleData := do
  let parts := ((modulePartsFromSectionInfo info name avmaRange baseAvma).run sections).1
  validateModuleParts parts
  return .fromParts parts functionCache

end

/-- Sections that were collected beforehand. -/
structure DwarfModuleSections where
  baseSvma : UInt64
  textSvma : Option AddrRange
  text : Option Buffer
  ehFrameSvma : Option AddrRange
  ehFrame : Option Buffer
  ehFrameHdrSvma : Option AddrRange
  ehFrameHdr : Option Buffer

/-- Each of the bytes is taken once, under either of its names. -/
def DwarfModuleSections.info : ModuleSectionInfo DwarfModuleSections where
  baseSvma s := s.baseSvma
  sectionSvmaRange name := do
    let s ← get
    match name with
    | "__text" | ".text" => return s.textSvma
    | "__eh_frame" | ".eh_frame" => return s.ehFrameSvma
    | "__eh_frame_hdr" | ".eh_frame_hdr" => return s.ehFrameHdrSvma
    | _ => return none
  sectionData name := do
    let s ← get
    match name with
    | "__text" | ".text" =>
      set { s with text := none }
      return s.text
    | "__eh_frame" | ".eh_frame" =>
      set { s with ehFrame := none }
      return s.ehFrame
    | "__eh_frame_hdr" | ".eh_frame_hdr" =>
      set { s with ehFrameHdr := none }
      return s.ehFrameHdr
    | _ => return none

/-- The parts of a module, each from the field for it. -/
def DwarfModuleSections.parts (sections : DwarfModuleSections) (name : String)
    (avmaRange : AddrRange) (baseAvma : UInt64) : ModuleParts where
  name := name
  avmaRange := avmaRange
  baseAvma := baseAvma
  baseSvma := sections.baseSvma
  textSvma := sections.textSvma
  ehFrameSvma := sections.ehFrameSvma
  ehFrame := sections.ehFrame
  ehFrameHdrSvma := sections.ehFrameHdrSvma
  ehFrameHdr := sections.ehFrameHdr

/-- The strict constructor: a module with complete unwind sections. -/
def ModuleData.fromDwarfSections (name : String) (avmaRange : AddrRange) (baseAvma : UInt64)
    (sections : DwarfModuleSections) (functionCache : Nat) : Except ModuleError ModuleData := do
  let parts := sections.parts name avmaRange baseAvma
  validateModuleParts parts
  return .fromParts parts functionCache

/-- What the object parser reports of a section. -/
structure ObjectSection where
  address : UInt64
  size : UInt64
  fileRange : Option (UInt64 × UInt64)

structure ObjectFile where
  relativeAddressBase : UInt64
  sectionByNameBytes : String → Option ObjectSection

/-- A part of a mapped file. -/
def MmapBytes.new (mmap : Buffer) (start stop : Nat) : Option Buffer :=
  if start ≤ stop ∧ stop ≤ mmap.bytes.len then
    some ⟨mmap.ptr + start, (mmap.bytes.data.drop start).take (stop - start), by
      rw [List.length_take, List.length_drop]
      have := mmap.bytes.bound
      omega⟩
  else none

def MmapBytes.fromFileRange (mmap : Buffer) (offset size : UInt64) : Option Buffer := do
  let stop ← checkedAdd64 offset size
  MmapBytes.new mmap offset.toNat stop.toNat

structure MmapObjectSections where
  file : ObjectFile
  mmap : Buffer

def MmapObjectSections.info : ModuleSectionInfo MmapObjectSections where
  baseSvma s := s.file.relativeAddressBase
  sectionSvmaRange name := do
    let s ← get
    return (s.file.sectionByNameBytes name).map (fun sec =>
      ⟨sec.address, saturatingAdd sec.address sec.size⟩)
  sectionData name := do
    let s ← get
    return do
      let sec ← s.file.sectionByNameBytes name
      let (offset, size) ← sec.fileRange
      MmapBytes.fromFileRange s.mmap offset size

/-- The operating system and the object parser, with their files and errors. -/
structure ObjectLoader where
  File : Type
  SystemError : Type
  ParseError : Type
  openFile : String → Except SystemError File
  map : File → Except SystemError Buffer
  parse : Slice → Except ParseError ObjectFile

namespace ObjectLoader

variable (L : ObjectLoader)

inductive MmapModuleError where
  | openFile (path : String) (source : L.SystemError)
  | map (path : String) (source : L.SystemError)
  | parse (path : String) (source : L.ParseError)
  | module (err : ModuleError)

def mmapFile (path : String) : Except L.MmapModuleError Buffer := do
  let file ← (L.openFile path).mapError (.openFile path)
  (L.map file).mapError (.map path)

/-- The lenient constructor on a file that is mapped. -/
def fromMmapFile (path : String) (avmaRange : AddrRange) (baseAvma : UInt64) (functionCache : Nat) :
    Except L.MmapModuleError ModuleData := do
  let mmap ← L.mmapFile path
  let file ← (L.parse mmap.bytes).mapError (.parse path)
  return .new MmapObjectSections.info path avmaRange baseAvma ⟨file, mmap⟩ functionCache

end ObjectLoader

end Unwinder
