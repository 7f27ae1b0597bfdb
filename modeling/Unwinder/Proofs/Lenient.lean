import Unwinder.Proofs.FramePointer
import Unwinder.Proofs.Lookup
import Unwinder.Sections

namespace Unwinder
open Lib Dwarf

/-- A header whose version or one of whose encodings the parser does not know;
an omitted field is one of these. -/
inductive UnsupportedShape (hdr : Slice) : Prop where
  | version {version : UInt8} (h : hdr.data[0]? = some version) (hv : version ≠ 1)
  | ehFramePtr {enc : UInt8} (h : hdr.data[1]? = some enc) (he : encSize enc = none)
  | fdeCount {enc : UInt8} (h : hdr.data[2]? = some enc) (he : countSize enc = none)
  | table {enc : UInt8} (h : hdr.data[3]? = some enc) (he : enc ≠ DW_EH_PE_DATAREL ||| DW_EH_PE_SDATA4)

theorem UnsupportedShape.not_complete {hdr : Slice} {off : Nat} {fdeCount : UInt64}
    (h : UnsupportedShape hdr) : ¬ EhFrameTable.Complete hdr off fdeCount := by
  intro hc
  obtain ⟨fixed, pointer, count, -⟩ := hc
  cases h with
  | version h hv =>
    rw [fixed] at h
    exact hv (Option.some.inj h).symm
  | ehFramePtr h he =>
    rw [fixed] at h
    obtain rfl := Option.some.inj h
    rw [he] at pointer
    cases pointer
  | fdeCount h he =>
    rw [fixed] at h
    obtain rfl := Option.some.inj h
    have hsize := (readUnsigned_size count).1
    rw [he] at hsize
    cases hsize
  | table h he =>
    rw [fixed] at h
    exact he (Option.some.inj h).symm

namespace ModuleParts

/-- Sections that a module falls back for. -/
inductive Lenient (p : ModuleParts) : Prop where
  | noEhFrame (h : p.ehFrame = none ∨ p.ehFrameSvma = none)
  | noEhFrameHdr (h : p.ehFrameHdr = none ∨ p.ehFrameHdrSvma = none)
  | unsupported {hdr : Buffer} (h : p.ehFrameHdr = some hdr) (hs : UnsupportedShape hdr.bytes)

/-- A header that is loaded is complete. -/
def SoundHdr (p : ModuleParts) : Prop :=
  ∀ hdr svma, p.ehFrameHdr = some hdr → p.ehFrameHdrSvma = some svma →
    ∃ off fdeCount, EhFrameTable.Complete hdr.bytes off fdeCount

end ModuleParts

/-- The lenient constructors, with the parts that they find for the module. -/
inductive BuiltFrom : ModuleParts → ModuleData → Prop where
  | new {σ : Type} (info : ModuleSectionInfo σ) (sections : σ) (name : String)
    (avmaRange : AddrRange) (baseAvma : UInt64) (functionCache : Nat) :
    BuiltFrom ((modulePartsFromSectionInfo info name avmaRange baseAvma).run sections).1
      (.new info name avmaRange baseAvma sections functionCache)
  | fromMmapFile {L : ObjectLoader} {path : String} {avmaRange : AddrRange} {baseAvma : UInt64}
    {functionCache : Nat} {mmap : Buffer} {file : ObjectFile} {m : ModuleData}
    (hmap : L.mmapFile path = .ok mmap) (hfile : L.parse mmap.bytes = .ok file)
    (h : L.fromMmapFile path avmaRange baseAvma functionCache = .ok m) :
    BuiltFrom ((modulePartsFromSectionInfo MmapObjectSections.info path avmaRange baseAvma).run
      ⟨file, mmap⟩).1 m

theorem BuiltFrom.fromParts {p : ModuleParts} {m : ModuleData} (h : BuiltFrom p m) :
    ∃ functionCache, m = .fromParts p functionCache := by
  cases h with
  | new => exact ⟨_, rfl⟩
  | fromMmapFile hmap hfile h =>
    simp only [ObjectLoader.fromMmapFile, hmap, hfile, Except.mapError, bind, Except.bind, pure,
      Except.pure] at h
    exact ⟨_, (Except.ok.inj h).symm⟩

theorem loadedSection_eq_none {slide : UInt64} {b : Option Buffer} {svma : Option AddrRange}
    (h : b = none ∨ svma = none) : loadedSection slide b svma = none := by
  obtain rfl | rfl := h
  · rfl
  · cases b <;> rfl

section
variable {p : ModuleParts} {functionCache : Nat}

/-- Only a header that is loaded and not complete leaves an error behind. -/
theorem fromParts_ehFrameHdrError :
    (ModuleData.fromParts p functionCache).ehFrameHdrError = none ↔ p.SoundHdr := by
  simp only [ModuleData.fromParts]
  constructor
  · intro h hdr svma hhdr hsvma
    rw [hhdr, hsvma, loadedSection, hdrTable] at h
    split at h
    · next table hparse =>
      obtain ⟨off, hc, -⟩ := EhFrameTable.parse_complete hparse
      exact ⟨off, _, hc⟩
    · cases h
  · intro h
    unfold loadedSection
    split
    · next hdr svma hhdr hsvma =>
      obtain ⟨off, fdeCount, hc⟩ := h hdr svma hhdr hsvma
      rw [hdrTable, hc.parse]
    · rfl

/-- One of the two sections is not loaded. -/
theorem ModuleParts.Lenient.missing (hl : p.Lenient) (hs : p.SoundHdr) :
    loadedSection p.slide p.ehFrameHdr p.ehFrameHdrSvma = none ∨
    loadedSection p.slide p.ehFrame p.ehFrameSvma = none := by
  cases hl with
  | noEhFrame h => exact Or.inr (loadedSection_eq_none h)
  | noEhFrameHdr h => exact Or.inl (loadedSection_eq_none h)
  | unsupported hhdr hshape =>
    rcases hsvma : p.ehFrameHdrSvma with _ | svma
    · exact Or.inl (loadedSection_eq_none (Or.inr rfl))
    · obtain ⟨off, fdeCount, hc⟩ := hs _ svma hhdr hsvma
      exact absurd hc hshape.not_complete

end

namespace ModuleSet

variable {m : ModuleData} {addr : UInt64}

theorem get?_alone {start : UInt64} {m' : ModuleData}
    (h : (new.add m).modules.get? start = some m') : start = m.avmaRange.start ∧ m' = m := by
  rw [add, OrderedMap.get?_insert] at h
  split at h
  · next hstart => exact ⟨hstart, (Option.some.inj h).symm⟩
  · cases h

theorem findModule_alone (h : m.avmaRange.start ≤ addr ∧ addr < m.avmaRange.stop) :
    (new.add m).findModule addr = some m := by
  refine findModule_eq_some.mpr ⟨⟨m.avmaRange.start, ?_⟩, h⟩
  refine OrderedMap.lastLE_eq_some.mpr ⟨OrderedMap.get?_insert_self _ _ _, h.1, ?_⟩
  intro i hi _
  obtain ⟨m', hm'⟩ := Option.isSome_iff_exists.mp hi
  rw [(get?_alone hm').1]

end ModuleSet

theorem NoUnwindInfo.new : NoUnwindInfo .new := by
  intro start m hm
  cases hm

theorem NoUnwindInfo.alone {p : ModuleParts} {functionCache : Nat} (hl : p.Lenient)
    (hs : p.SoundHdr) : NoUnwindInfo (ModuleSet.new.add (.fromParts p functionCache)) := by
  intro start m hm
  obtain ⟨-, rfl⟩ := ModuleSet.get?_alone hm
  refine ⟨fromParts_ehFrameHdrError.mpr hs, ?_⟩
  simp only [ModuleData.fromParts]
  obtain h | h := hl.missing hs
  · simp [h]
  · simp [h]

namespace Backend

variable {Regs Raw : Type} {B : Backend Regs Raw} {P : Process} {readStack : Reader}
  {frame : FrameAddress} {regs : Regs} {w : World}

theorem fallbackUnwindFrame_ne_unwindInfo (currentIp : UInt64) (err : UnwindInfoError) :
    (B.fallbackUnwindFrame currentIp regs readStack w).1 ≠ .error (.unwindInfo err) := by
  have hrun := fallbackUnwindFrame_run (B := B) currentIp regs readStack w
  generalize B.fallbackUnwindFrame currentIp regs readStack w = out at hrun
  intro h
  cases hrun with
  | refused err hfp herr =>
    cases h
    simp at herr
  | _ => cases h

/-- The module, registered on its own, unwinds a frame as if it were not there. -/
def FallsBack (B : Backend Regs Raw) (P : Process) (m : ModuleData) (readStack : Reader)
    (frame : FrameAddress) (regs : Regs) (w : World) : Prop :=
  (B.unwindFrame P (ModuleSet.new.add m) readStack frame regs w).map (fun out => (out.1, out.2.1)) =
    (B.unwindFrame P .new readStack frame regs w).map (fun out => (out.1, out.2.1))

/-- Modules that lack a section or have an unsupported header unwind by frame
pointer unless the header is loaded and not complete: then each of their frames
fails instead. -/
theorem lenient_fallsBack_iff {p : ModuleParts} {m : ModuleData} (hm : BuiltFrom p m)
    (hl : p.Lenient)
    (hin : m.avmaRange.start ≤ B.lookupIp regs frame ∧ B.lookupIp regs frame < m.avmaRange.stop) :
    B.FallsBack P m readStack frame regs w ↔ p.SoundHdr := by
  obtain ⟨functionCache, rfl⟩ := hm.fromParts
  unfold FallsBack
  rw [unwindFrame_noUnwindInfo NoUnwindInfo.new]
  constructor
  · intro h
    by_contra hs
    obtain ⟨err, herr⟩ := Option.ne_none_iff_exists'.mp (mt fromParts_ehFrameHdrError.mp hs)
    have hbroken : (ModuleSet.new.add (.fromParts p functionCache)).unwindInfoError
        (B.lookupIp regs frame) = some (.invalidEhFrameHdr p.name err) := by
      rw [ModuleSet.unwindInfoError, ModuleSet.findModule_alone hin]
      exact congrArg (Option.map _) herr
    rw [unwindFrame_broken hbroken] at h
    have hresult := congrArg Prod.fst (Option.some.inj h)
    exact fallbackUnwindFrame_ne_unwindInfo _ _ hresult.symm
  · intro hs
    rw [unwindFrame_noUnwindInfo (NoUnwindInfo.alone hl hs)]

end Backend

/-- The sections of a small object with a table of one entry, under the given version
of the header and with the given bytes of `.eh_frame`. -/
def smallSections (version : UInt8) (ehFrame : Option Buffer) : DwarfModuleSections where
  baseSvma := 0
  textSvma := some ⟨0x100, 0x200⟩
  text := none
  ehFrameSvma := some ⟨0x400, 0x404⟩
  ehFrame := ehFrame
  ehFrameHdrSvma := some ⟨0x300, 0x314⟩
  ehFrameHdr := some ⟨0, [version, 0x1b, 0x03, 0x3b, 0xfc, 0, 0, 0, 1, 0, 0, 0, 0, 0xfe, 0xff, 0xff,
    0, 1, 0, 0], by simp⟩

/-- An `.eh_frame` without entries. -/
def endMark : Buffer := ⟨64, [0, 0, 0, 0], by simp⟩

def smallParts (version : UInt8) (ehFrame : Option Buffer) : ModuleParts :=
  ((modulePartsFromSectionInfo DwarfModuleSections.info "small" ⟨0x1000, 0x2000⟩ 0x1000).run
    (smallSections version ehFrame)).1

def smallModule (version : UInt8) (ehFrame : Option Buffer) : ModuleData :=
  .new DwarfModuleSections.info "small" ⟨0x1000, 0x2000⟩ 0x1000 (smallSections version ehFrame) 0

/-- Without `.eh_frame` the module falls back. -/
theorem missingEhFrame_fallsBack :
    (smallParts 1 none).Lenient ∧ (smallParts 1 none).SoundHdr ∧
    X8664.backend.FallsBack topOfStackX8664 (smallModule 1 none) (steady chainStack)
      (.instructionPointer 0x1004) (.new 0x1004 0x8000 0x9000) freshWorld := by
  have hl : (smallParts 1 none).Lenient := .noEhFrame (Or.inl rfl)
  have hs : (smallParts 1 none).SoundHdr := by
    intro hdr svma hhdr hsvma
    obtain rfl := Option.some.inj hhdr
    exact ⟨4 + 4 + 4, 1, .mk rfl rfl rfl (by decide)⟩
  exact ⟨hl, hs, (Backend.lenient_fallsBack_iff (.new _ _ _ _ _ _) hl (by decide)).mpr hs⟩

/-- A header of version 2 is an error for every frame, where the frame pointer
alone would have found the caller. -/
theorem unsupportedVersion_fails :
    BuiltFrom (smallParts 2 (some endMark)) (smallModule 2 (some endMark)) ∧
    (smallParts 2 (some endMark)).Lenient ∧
    (smallModule 2 (some endMark)).avmaRange = ⟨0x1000, 0x2000⟩ ∧
    X8664.backend.unwindFrame topOfStackX8664 (ModuleSet.new.add (smallModule 2 (some endMark)))
      (steady chainStack) (.instructionPointer 0x1004) (.new 0x1004 0x8000 0x9000) freshWorld =
        some (.error (.unwindInfo (.invalidEhFrameHdr "small" (.unsupportedVersion 2))),
          .new 0x1004 0x8000 0x9000, freshWorld) ∧
    ¬ X8664.backend.FallsBack topOfStackX8664 (smallModule 2 (some endMark)) (steady chainStack)
      (.instructionPointer 0x1004) (.new 0x1004 0x8000 0x9000) freshWorld := by
  refine ⟨.new _ _ _ _ _ _, .unsupported rfl (.version rfl (by decide)), rfl, rfl, ?_⟩
  unfold Backend.FallsBack
  decide +kernel

end Unwinder
