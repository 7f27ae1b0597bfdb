import Unwinder.Sections

namespace Unwinder
open Lib

/-- All that strict construction misses in the parts of a module, in the order in
which it looks; the header is missed last, with its error. -/
def ModuleParts.missing (p : ModuleParts) (hdrError : Option EhFrameHdrError) :
    List ModuleError :=
  (if p.avmaRange.start < p.avmaRange.stop then [] else [.emptyAvmaRange]) ++
  (if p.ehFrameSvma.isSome then [] else [.missingEhFrameSvma]) ++
  (if p.ehFrame.isSome then [] else [.missingEhFrame]) ++
  (if p.ehFrameHdrSvma.isSome then [] else [.missingEhFrameHdrSvma]) ++
  (if p.ehFrameHdr.isSome then [] else [.missingEhFrameHdr]) ++
  (hdrError.map .invalidEhFrameHdr).toList

/-- Both unwind sections have their bytes and an address. -/
structure DwarfModuleSections.Complete (s : DwarfModuleSections) : Prop where
  ehFrameSvma : s.ehFrameSvma.isSome
  ehFrame : s.ehFrame.isSome
  ehFrameHdrSvma : s.ehFrameHdrSvma.isSome
  ehFrameHdr : s.ehFrameHdr.isSome

/-- The strict constructors build from sections what the lenient one builds from
them, or report the first piece that is missing. -/
structure StrictAgrees (name : String) (avmaRange : AddrRange) (baseAvma : UInt64)
    (s : DwarfModuleSections) (functionCache : Nat) : Prop where
  same : ModuleData.fromDwarfSections name avmaRange baseAvma s functionCache =
    ModuleData.tryFromSectionInfo DwarfModuleSections.info name avmaRange baseAvma s functionCache
  accepts : (∃ m, ModuleData.fromDwarfSections name avmaRange baseAvma s functionCache = .ok m) ↔
    avmaRange.start < avmaRange.stop ∧ s.Complete ∧
    (ModuleData.new DwarfModuleSections.info name avmaRange baseAvma s
      functionCache).ehFrameHdrError = none
  builds : ∀ m, ModuleData.fromDwarfSections name avmaRange baseAvma s functionCache = .ok m →
    m = .new DwarfModuleSections.info name avmaRange baseAvma s functionCache
  reports : ∀ err,
    ModuleData.fromDwarfSections name avmaRange baseAvma s functionCache = .error err →
    ((s.parts name avmaRange baseAvma).missing (ModuleData.new DwarfModuleSections.info name
      avmaRange baseAvma s functionCache).ehFrameHdrError).head? = some err

/-- Validation finds the first missing piece, the error of the header being the
one that construction would store. -/
theorem validateModuleParts_eq (p : ModuleParts) (functionCache : Nat) :
    validateModuleParts p =
      match (p.missing (ModuleData.fromParts p functionCache).ehFrameHdrError).head? with
      | none => .ok ()
      | some err => .error err := by
  unfold validateModuleParts ModuleParts.missing
  by_cases hr : p.avmaRange.stop ≤ p.avmaRange.start
  · rw [if_pos hr, if_neg (not_lt.mpr hr)]
    rfl
  rw [if_neg hr, if_pos (not_le.mp hr)]
  cases hfs : p.ehFrameSvma with
  | none => rfl
  | some frameSvma =>
    cases hf : p.ehFrame with
    | none => rfl
    | some frame =>
      cases hhs : p.ehFrameHdrSvma with
      | none => rfl
      | some hdrSvma =>
        cases hh : p.ehFrameHdr with
        | none => rfl
        | some hdr =>
          have herror : (ModuleData.fromParts p functionCache).ehFrameHdrError =
              (hdrTable (some (hdrSvma.start + p.slide, hdr))).2 := by
            simp only [ModuleData.fromParts, hhs, hh, loadedSection]
          rw [herror, hdrTable]
          dsimp only
          cases EhFrameTable.parse hdr.bytes (hdrSvma.start + p.slide) with
          | ok table => rfl
          | error err => rfl

section Parts

variable {σ : Type} {name : String} {avmaRange : AddrRange} {baseAvma : UInt64}
  {functionCache : Nat}

/-- Strict construction from any parts, beside lenient construction from them. -/
theorem strict_eq (p : ModuleParts) (functionCache : Nat) :
    (do
      validateModuleParts p
      return ModuleData.fromParts p functionCache : Except ModuleError ModuleData) =
      match (p.missing (ModuleData.fromParts p functionCache).ehFrameHdrError).head? with
      | none => .ok (.fromParts p functionCache)
      | some err => .error err := by
  rw [validateModuleParts_eq p functionCache]
  cases (p.missing (ModuleData.fromParts p functionCache).ehFrameHdrError).head? with
  | none => rfl
  | some err => rfl

/-- What strict construction builds, lenient construction builds too. -/
theorem tryFromSectionInfo_ok {info : ModuleSectionInfo σ} {s : σ} {m : ModuleData}
    (h : ModuleData.tryFromSectionInfo info name avmaRange baseAvma s functionCache = .ok m) :
    m = .new info name avmaRange baseAvma s functionCache := by
  rw [ModuleData.tryFromSectionInfo, strict_eq] at h
  split at h
  · exact (Except.ok.inj h).symm
  · cases h

theorem missing_eq_nil {p : ModuleParts} {hdrError : Option EhFrameHdrError} :
    p.missing hdrError = [] ↔ p.avmaRange.start < p.avmaRange.stop ∧ p.ehFrameSvma.isSome ∧
      p.ehFrame.isSome ∧ p.ehFrameHdrSvma.isSome ∧ p.ehFrameHdr.isSome ∧ hdrError = none := by
  unfold ModuleParts.missing
  simp [Option.isSome_iff_ne_none]

variable (info : ModuleSectionInfo σ) (primary alternate : String) {s s' : σ}

theorem stateM_bind {τ α β : Type} {x : StateM τ α} {f : α → StateM τ β} {t t' : τ} {a : α}
    (h : x.run t = (a, t')) : (x >>= f).run t = (f a).run t' := by
  rw [StateT.run_bind, h]
  rfl

/-- A range that both names have is found. -/
theorem sectionRange_of_both {range : Option AddrRange}
    (hp : (info.sectionSvmaRange primary).run s = (range, s))
    (ha : (info.sectionSvmaRange alternate).run s = (range, s)) :
    (sectionRange info primary alternate).run s = (range, s) := by
  unfold sectionRange
  rw [stateM_bind hp]
  cases range with
  | none => exact ha
  | some range => rfl

/-- Bytes that the first name moves out are found, and are not there for the second. -/
theorem sectionData_of_moved {data : Option Buffer}
    (hp : (info.sectionData primary).run s = (data, s'))
    (ha : (info.sectionData alternate).run s' = (none, s')) :
    (sectionData info primary alternate).run s = (data, s') := by
  unfold sectionData
  rw [stateM_bind hp]
  cases data with
  | none => exact ha
  | some data => rfl

/-- Asked one after the other, the sections give what their fields hold. -/
theorem modulePartsFromSectionInfo_dwarf (s : DwarfModuleSections) :
    ((modulePartsFromSectionInfo DwarfModuleSections.info name avmaRange baseAvma).run s).1 =
      s.parts name avmaRange baseAvma := by
  have htext := sectionRange_of_both DwarfModuleSections.info ".text" "__text" (s := s) rfl rfl
  have hframeSvma := sectionRange_of_both DwarfModuleSections.info ".eh_frame" "__eh_frame" (s := s) rfl rfl
  have hframe := sectionData_of_moved DwarfModuleSections.info ".eh_frame" "__eh_frame" (s := s) rfl rfl
  have hhdrSvma := sectionRange_of_both DwarfModuleSections.info ".eh_frame_hdr" "__eh_frame_hdr"
    (s := { s with ehFrame := none }) rfl rfl
  have hhdr := sectionData_of_moved DwarfModuleSections.info ".eh_frame_hdr" "__eh_frame_hdr"
    (s := { s with ehFrame := none }) rfl rfl
  unfold modulePartsFromSectionInfo
  rw [stateM_bind (show (get : StateM _ _).run s = (s, s) from rfl), stateM_bind htext,
    stateM_bind hframeSvma, stateM_bind hframe, stateM_bind hhdrSvma, stateM_bind hhdr]
  rfl

theorem new_dwarf (s : DwarfModuleSections) :
    ModuleData.new DwarfModuleSections.info name avmaRange baseAvma s functionCache =
      .fromParts (s.parts name avmaRange baseAvma) functionCache := by
  rw [ModuleData.new, modulePartsFromSectionInfo_dwarf]

theorem strictAgrees (name : String) (avmaRange : AddrRange) (baseAvma : UInt64)
    (s : DwarfModuleSections) (functionCache : Nat) :
    StrictAgrees name avmaRange baseAvma s functionCache := by
  have hsame : ModuleData.fromDwarfSections name avmaRange baseAvma s functionCache =
      ModuleData.tryFromSectionInfo DwarfModuleSections.info name avmaRange baseAvma s
        functionCache := by
    rw [ModuleData.tryFromSectionInfo, modulePartsFromSectionInfo_dwarf]
    rfl
  have hstrict : ModuleData.fromDwarfSections name avmaRange baseAvma s functionCache = _ :=
    strict_eq (s.parts name avmaRange baseAvma) functionCache
  refine ⟨hsame, ?_, ?_, ?_⟩
  · rw [hstrict, new_dwarf]
    constructor
    · intro h
      obtain ⟨m, h⟩ := h
      cases hmissing : (s.parts name avmaRange baseAvma).missing (ModuleData.fromParts
          (s.parts name avmaRange baseAvma) functionCache).ehFrameHdrError with
      | nil =>
        obtain ⟨hrange, hframeSvma, hframe, hhdrSvma, hhdr, herror⟩ := missing_eq_nil.mp hmissing
        exact ⟨hrange, ⟨hframeSvma, hframe, hhdrSvma, hhdr⟩, herror⟩
      | cons err errs =>
        rw [hmissing] at h
        cases h
    · intro h
      obtain ⟨hrange, hc, herror⟩ := h
      rw [missing_eq_nil.mpr ⟨hrange, hc.ehFrameSvma, hc.ehFrame, hc.ehFrameHdrSvma,
        hc.ehFrameHdr, herror⟩]
      exact ⟨_, rfl⟩
  · intro m h
    rw [hsame] at h
    exact tryFromSectionInfo_ok h
  · intro err h
    rw [hstrict] at h
    rw [new_dwarf]
    split at h
    · cases h
    · next hfirst =>
      cases h
      exact hfirst

end Parts

section Recorded

variable {σ α β : Type}

/-- An implementor that keeps a record of the names under which its data is asked for. -/
def ModuleSectionInfo.recorded (info : ModuleSectionInfo σ) :
    ModuleSectionInfo (σ × List String) where
  baseSvma t := info.baseSvma t.1
  sectionSvmaRange name := do
    let (s, asked) ← get
    let (range, s) := (info.sectionSvmaRange name).run s
    set (s, asked)
    return range
  sectionData name := do
    let (s, asked) ← get
    let (data, s) := (info.sectionData name).run s
    set (s, asked ++ [name])
    return data

/-- The second routine does what the first does, and records some of these names. -/
def Records (x : StateM σ α) (y : StateM (σ × List String) α) (allowed : List String) : Prop :=
  ∀ s asked, ∃ names, names.Sublist allowed ∧
    y.run (s, asked) = ((x.run s).1, (x.run s).2, asked ++ names)

theorem Records.bind {x : StateM σ α} {y : StateM (σ × List String) α} {f : α → StateM σ β}
    {g : α → StateM (σ × List String) β} {allowed allowed' : List String}
    (hx : Records x y allowed) (hf : ∀ a, Records (f a) (g a) allowed') :
    Records (x >>= f) (y >>= g) (allowed ++ allowed') := by
  intro s asked
  obtain ⟨names, hsub, hy⟩ := hx s asked
  obtain ⟨names', hsub', hg⟩ := hf (x.run s).1 (x.run s).2 (asked ++ names)
  have hrun : (x >>= f).run s = (f (x.run s).1).run (x.run s).2 := stateM_bind rfl
  refine ⟨names ++ names', hsub.append hsub', ?_⟩
  rw [stateM_bind hy, hg, hrun, List.append_assoc]

theorem records_pure (a : α) (allowed : List String) :
    Records (pure a : StateM σ α) (pure a) allowed := by
  intro s asked
  exact ⟨[], List.nil_sublist _, by rw [List.append_nil]; rfl⟩

variable (info : ModuleSectionInfo σ)

theorem records_baseSvma {f : UInt64 → StateM σ β} {g : UInt64 → StateM (σ × List String) β}
    {allowed : List String} (h : ∀ baseSvma, Records (f baseSvma) (g baseSvma) allowed) :
    Records (get >>= fun s => f (info.baseSvma s))
      (get >>= fun t => g (info.recorded.baseSvma t)) allowed :=
  fun s asked => h (info.baseSvma s) s asked

theorem records_sectionRange (primary alternate : String) :
    Records (sectionRange info primary alternate) (sectionRange info.recorded primary alternate)
      [] := by
  have hask : ∀ name, Records (info.sectionSvmaRange name) (info.recorded.sectionSvmaRange name)
      [] := by
    intro name s asked
    exact ⟨[], List.nil_sublist _, by rw [List.append_nil]; rfl⟩
  have hnext : ∀ range, Records (match range with
      | some range => return some range
      | none => info.sectionSvmaRange alternate) (match range with
      | some range => return some range
      | none => info.recorded.sectionSvmaRange alternate) [] := by
    intro range
    cases range with
    | none => exact hask alternate
    | some range => exact records_pure _ _
  exact (hask primary).bind hnext

/-- Each of the two names is asked at most once. -/
theorem records_sectionData (primary alternate : String) :
    Records (sectionData info primary alternate) (sectionData info.recorded primary alternate)
      [primary, alternate] := by
  have hask : ∀ name, Records (info.sectionData name) (info.recorded.sectionData name) [name] :=
    fun name s asked => ⟨[name], List.Sublist.refl _, rfl⟩
  have hnext : ∀ data, Records (match data with
      | some data => return some data
      | none => info.sectionData alternate) (match data with
      | some data => return some data
      | none => info.recorded.sectionData alternate) [alternate] := by
    intro data
    cases data with
    | none => exact hask alternate
    | some data => exact records_pure _ _
  exact (hask primary).bind hnext

/-- The names under which section data is looked for. -/
def dataNames : List String := [".eh_frame", "__eh_frame", ".eh_frame_hdr", "__eh_frame_hdr"]

theorem records_modulePartsFromSectionInfo (name : String) (avmaRange : AddrRange)
    (baseAvma : UInt64) :
    Records (modulePartsFromSectionInfo info name avmaRange baseAvma)
      (modulePartsFromSectionInfo info.recorded name avmaRange baseAvma) dataNames :=
  records_baseSvma info (fun _ =>
    (records_sectionRange info ".text" "__text").bind (fun _ =>
    (records_sectionRange info ".eh_frame" "__eh_frame").bind (fun _ =>
    (records_sectionData info ".eh_frame" "__eh_frame").bind (fun _ =>
    (records_sectionRange info ".eh_frame_hdr" "__eh_frame_hdr").bind (fun _ =>
    (records_sectionData info ".eh_frame_hdr" "__eh_frame_hdr").bind (fun _ =>
    records_pure _ []))))))

/-- The lenient constructor, with the state it leaves the implementor in. -/
def ModuleData.newRun (name : String) (avmaRange : AddrRange) (baseAvma : UInt64)
    (functionCache : Nat) : StateM σ ModuleData := do
  let parts ← modulePartsFromSectionInfo info name avmaRange baseAvma
  return .fromParts parts functionCache

/-- The strict constructor, with the state it leaves the implementor in. -/
def ModuleData.tryFromSectionInfoRun (name : String) (avmaRange : AddrRange) (baseAvma : UInt64)
    (functionCache : Nat) : StateM σ (Except ModuleError ModuleData) := do
  let parts ← modulePartsFromSectionInfo info name avmaRange baseAvma
  return do
    validateModuleParts parts
    return .fromParts parts functionCache

variable {info}

theorem records_newRun {name : String} {avmaRange : AddrRange} {baseAvma : UInt64}
    {functionCache : Nat} :
    Records (ModuleData.newRun info name avmaRange baseAvma functionCache)
      (ModuleData.newRun info.recorded name avmaRange baseAvma functionCache) dataNames :=
  (records_modulePartsFromSectionInfo info name avmaRange baseAvma).bind
    (fun _ => records_pure _ [])

theorem records_tryFromSectionInfoRun {name : String} {avmaRange : AddrRange}
    {baseAvma : UInt64} {functionCache : Nat} :
    Records (ModuleData.tryFromSectionInfoRun info name avmaRange baseAvma functionCache)
      (ModuleData.tryFromSectionInfoRun info.recorded name avmaRange baseAvma functionCache)
      dataNames :=
  (records_modulePartsFromSectionInfo info name avmaRange baseAvma).bind
    (fun _ => records_pure _ [])

/-- Run on an implementor with a record, a constructor builds this, and no name is
on the record twice. -/
structure AsksOnce (build : StateM (σ × List String) α) (s : σ) (result : α) : Prop where
  builds : (build.run (s, [])).1 = result
  once : (build.run (s, [])).2.2.Nodup

theorem Records.asksOnce {x : StateM σ α} {y : StateM (σ × List String) α}
    (h : Records x y dataNames) (s : σ) : AsksOnce y s (x.run s).1 := by
  obtain ⟨names, hsub, hrun⟩ := h s []
  have hnodup : names.Nodup := hsub.nodup (by decide)
  refine ⟨?_, ?_⟩
  · rw [hrun]
  · rw [hrun]
    exact hnodup

end Recorded

/-- Strict and lenient construction agree on collected sections, and neither asks an
implementor for the data of a section twice under one name. -/
theorem construction_agrees :
    (∀ name avmaRange baseAvma s functionCache,
      StrictAgrees name avmaRange baseAvma s functionCache) ∧
    ∀ (σ : Type) (info : ModuleSectionInfo σ) name avmaRange baseAvma s functionCache,
      AsksOnce (ModuleData.newRun info.recorded name avmaRange baseAvma functionCache) s
        (ModuleData.new info name avmaRange baseAvma s functionCache) ∧
      AsksOnce (ModuleData.tryFromSectionInfoRun info.recorded name avmaRange baseAvma
        functionCache) s
        (ModuleData.tryFromSectionInfo info name avmaRange baseAvma s functionCache) := by
  refine ⟨strictAgrees, ?_⟩
  intro σ info name avmaRange baseAvma s functionCache
  exact ⟨records_newRun.asksOnce s, records_tryFromSectionInfoRun.asksOnce s⟩

end Unwinder
