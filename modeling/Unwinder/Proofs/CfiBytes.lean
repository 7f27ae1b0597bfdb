import Unwinder.Proofs.Confinement
import Unwinder.Proofs.Lookup
import Unwinder.Proofs.Memory
import Unwinder.Proofs.Registry

namespace Unwinder
open Lib Dwarf Ffi

namespace Dwarf

variable {α : Type}

/-- The instructions of an accepted entry start behind its header, in the slice. -/
theorem entryBody_instrs {η : Type} {header : Parse η} {entryEnd : η → Nat}
    {build : η → Nat × Nat → α} {c : Cursor} {p : α}
    (h : (entryBody header entryEnd build c).1 = .ok p) :
    ∃ hd c' n, header c = (.ok hd, c') ∧ p = build hd (c'.pos, n) ∧ c'.pos + n ≤ c'.bytes.len := by
  rcases hr : header c with ⟨r, c'⟩
  cases r with
  | ok hd =>
    rw [entryBody_run hr] at h
    split at h
    · cases h
    · split at h
      · next hlen hpos => exact ⟨hd, c', _, rfl, (Res.ok.inj h).symm, by omega⟩
      · cases h
  | err e =>
    unfold entryBody at h
    rw [StateRes.bind_of_err hr] at h
    cases h
  | panic =>
    unfold entryBody at h
    rw [StateRes.bind_of_panic hr] at h
    cases h

theorem lengthField_length_le (wide : Bool) (len : Nat) : 4 ≤ (lengthField wide len).length := by
  cases wide <;> simp [lengthField]

theorem idField_length_le (wide : Bool) (id : Nat) : 4 ≤ (idField wide id).length := by
  cases wide <;> simp [idField, idWidth]

theorem parseCie_instrs {s : Slice} {off : Nat} {avma : UInt64} {cie : ParsedCie}
    (hoff : off ≤ s.len) (h : parseCie s off avma = .ok cie) :
    8 ≤ cie.cieInstrOffsetInEhFrame ∧ cie.cieInstrOffsetInEhFrame + cie.cieInstrLen ≤ s.len := by
  unfold parseCie at h
  rw [cieBody_eq] at h
  obtain ⟨hd, c', n, hh, rfl, hin⟩ := entryBody_instrs h
  have hv : Cursor.Valid ⟨s, off, avma⟩ := hoff
  obtain ⟨l, -, -, -, rfl, -⟩ := cieHeader_layout hv hh
  refine ⟨?_, hin⟩
  have hlen := lengthField_length_le l.wide l.len
  have hid := idField_length_le l.wide 0
  simp only [Cursor.advance_pos, CieLayout.bytes, CieLayout.front, List.length_append]
  omega

theorem fdeAugmentation_forward {config : FdeParseConfig} {e : Nat} {pc v : UInt64} {c c' : Cursor}
    (hv : c.Valid) (h : fdeAugmentation config e pc c = (.ok v, c')) :
    c.pos ≤ c'.pos ∧ c'.bytes = c.bytes := by
  unfold fdeAugmentation at h
  split at h
  · obtain ⟨len, c₁, hl, h⟩ := StateRes.bind_eq_ok.mp h
    obtain ⟨bs, -, rfl, hval⟩ := safe_readUleb128.reads hv hl
    rw [StateRes.bind_of_ok (cursor_apply _)] at h
    cases hstop : checkedAdd (c.advance bs.length).pos len.toNat with
    | none =>
      rw [hstop] at h
      cases h
    | some stop =>
      simp only [hstop] at h
      by_cases hlt : e < stop
      · rw [if_pos hlt] at h
        cases h
      · rw [if_neg hlt] at h
        obtain ⟨lsda, c₂, hl, h⟩ := StateRes.bind_eq_ok.mp h
        obtain ⟨cs, -, rfl, -⟩ := (safe_readLsda config pc).reads hval hl
        rw [StateRes.bind_of_ok (cursor_apply _)] at h
        by_cases hback : stop < ((c.advance bs.length).advance cs.length).pos
        · rw [if_pos hback] at h
          cases h
        · rw [if_neg hback] at h
          cases h
          refine ⟨?_, rfl⟩
          simp only [Cursor.advance_pos] at hback ⊢
          omega
  · cases h
    exact ⟨Nat.le_refl _, rfl⟩

theorem parseFde_instrs {s : Slice} {off : Nat} {avma : UInt64} {config : FdeParseConfig}
    {fde : ParsedFde} (hoff : off ≤ s.len) (h : parseFde s off avma config = .ok fde) :
    8 ≤ fde.fdeInstrOffsetInEhFrame ∧ fde.fdeInstrOffsetInEhFrame + fde.fdeInstrLen ≤ s.len := by
  unfold parseFde at h
  rw [fdeBody_eq] at h
  obtain ⟨hd, c', n, hh, rfl, hin⟩ := entryBody_instrs h
  have hv : Cursor.Valid ⟨s, off, avma⟩ := hoff
  obtain ⟨c₁, hf, hval, hb, ha⟩ := fdeHeader_cases hv hh
  obtain ⟨hle, hbytes⟩ := fdeAugmentation_forward hval ha
  obtain ⟨l, -, -, -, rfl, -⟩ := fdeFront_layout hv hf
  have hslice : c'.bytes = s := hbytes.trans hb
  rw [hslice] at hin
  refine ⟨?_, hin⟩
  have hlen := lengthField_length_le l.wide l.len
  have hid := idField_length_le l.wide l.ciePtr
  simp only [Cursor.advance_pos, FdeLayout.bytes, List.length_append] at hle
  dsimp only
  omega

end Dwarf

/-- The byte is one of the instructions that libunwind is handed. -/
def DwarfCieInfo.HoldsInstr (info : DwarfCieInfo) (a : UInt64) : Prop :=
  (info.cieInstrStart ≤ a ∧ a < info.cieInstrEnd) ∨ (info.fdeInstrStart ≤ a ∧ a < info.fdeInstrEnd)

/-- A range of instructions in the bytes of `.eh_frame`, behind at least the length
and the id of an entry. -/
def InstrsIn (m : ModuleData) (ehFrame : Buffer) (start stop : UInt64) : Prop :=
  ∃ off n, 8 ≤ off ∧ off + n ≤ ehFrame.bytes.len ∧ start = m.ehFrameAvma + UInt64.ofNat off ∧
    stop = start + UInt64.ofNat n

theorem InstrsIn.bounds {m : ModuleData} {ehFrame : Buffer} {start stop a : UInt64}
    (h : InstrsIn m ehFrame start stop) (hwrap : m.ehFrameAvma.toNat + ehFrame.bytes.len < 2 ^ 64)
    (ha : start ≤ a ∧ a < stop) :
    m.ehFrameAvma.toNat + 8 ≤ a.toNat ∧ a.toNat < m.ehFrameAvma.toNat + ehFrame.bytes.len := by
  obtain ⟨off, n, hoff, hin, hstart, hstop⟩ := h
  have hs : start.toNat = m.ehFrameAvma.toNat + off := by
    rw [hstart, UInt64.toNat_add, UInt64.toNat_ofNat']
    omega
  have he : stop.toNat = m.ehFrameAvma.toNat + off + n := by
    rw [hstop, UInt64.toNat_add, UInt64.toNat_ofNat', hs]
    omega
  have hle := UInt64.le_iff_toNat_le.mp ha.1
  have hlt := UInt64.lt_iff_toNat_lt.mp ha.2
  omega

section Module

variable {m : ModuleData} {ip : UInt64} {d : FunctionDetails}

theorem fdeOffsetOf_lt {s : Slice} {fdeAvma : UInt64} {off : Nat}
    (h : fdeOffsetOf m s fdeAvma = .ok off) : off < s.len := by
  unfold fdeOffsetOf at h
  split at h
  · cases h
  · split at h
    · cases h
    · next hlt =>
      obtain rfl := Res.ok.inj h
      omega

theorem coveringDetails_built {cie : ParsedCie} {fde : ParsedFde}
    (h : coveringDetails m ip cie fde = .ok d) : ∃ endIp, d = functionDetails m cie fde endIp := by
  unfold coveringDetails at h
  split at h
  · cases h
  · split at h
    · cases h
    · exact ⟨_, (Res.ok.inj h).symm⟩

/-- The instructions of an FDE that was found, and of its CIE, are in `.eh_frame`. -/
theorem FdeFound.instrs {bytes : Slice} {off : Nat} {cie : ParsedCie} {fde : ParsedFde}
    (h : FdeFound m ip bytes off cie fde) (ptr : Nat) (endIp : UInt64) :
    InstrsIn m ⟨ptr, bytes⟩ (functionDetails m cie fde endIp).cieInfo.cieInstrStart
        (functionDetails m cie fde endIp).cieInfo.cieInstrEnd ∧
      InstrsIn m ⟨ptr, bytes⟩ (functionDetails m cie fde endIp).cieInfo.fdeInstrStart
        (functionDetails m cie fde endIp).cieInfo.fdeInstrEnd := by
  obtain ⟨-, ⟨hdr, pc, fdeAvma, -, -, hoff⟩, hparsed⟩ := h
  obtain ⟨cieOffset, hcieOff, hcie, hfde⟩ := parseEntries_cases hparsed
  have hc := parseCie_instrs (cieOffsetOf_le hcieOff) hcie
  have hf := parseFde_instrs (Nat.le_of_lt (fdeOffsetOf_lt hoff)) hfde
  exact ⟨⟨_, _, hc.1, hc.2, rfl, rfl⟩, ⟨_, _, hf.1, hf.2, rfl, rfl⟩⟩

/-- What was parsed came out of both sections, and its instructions are in one. -/
theorem parse_instrs (h : parseFunctionDetails m ip = .ok d) :
    ∃ hdr ehFrame, m.ehFrameHdrLocal = some hdr ∧ m.ehFrameLocal = some ehFrame ∧
      m.table.entryCount ≠ 0 ∧
      InstrsIn m ehFrame d.cieInfo.cieInstrStart d.cieInfo.cieInstrEnd ∧
      InstrsIn m ehFrame d.cieInfo.fdeInstrStart d.cieInfo.fdeInstrEnd := by
  obtain ⟨bytes, fdeOffset, cie, fde, hfound, h⟩ := parseFunctionDetails_found h
  obtain ⟨endIp, rfl⟩ := coveringDetails_built h
  obtain ⟨ptr, hframe⟩ := hfound.frame
  obtain ⟨hdr, pc, fdeAvma, hhdr, hlook, -⟩ := hfound.hit
  have hcount : m.table.entryCount ≠ 0 := by
    intro hz
    unfold EhFrameTable.lookup at hlook
    rw [if_pos hz] at hlook
    cases hlook
  exact ⟨hdr, ⟨ptr, bytes⟩, hhdr, hframe, hcount, hfound.instrs ptr endIp⟩

end Module

namespace ModuleSet

/-- Of the mirrored sections of a module, the one that starts last at or below an
address; of two at one start, the one that was stored last. -/
structure NearestSection (m : ModuleData) (addr : UInt64) (sec : LocalSection) : Prop where
  stored : lastSection m.localSections sec.avmaStart = some sec
  below : sec.avmaStart ≤ addr
  last : ∀ other ∈ m.localSections, other.avmaStart ≤ addr → other.avmaStart ≤ sec.avmaStart

/-- Eight bytes fit in the section they start in, or that section reaches the last
address, where its end saturates. -/
def WordMirrored (m : ModuleData) (word : UInt64) : Prop :=
  ∃ sec, NearestSection m word sec ∧
    (word.toNat + 8 ≤ sec.byteEnd ∨ 2 ^ 64 - 1 ≤ sec.byteEnd)

variable {parts : ModuleParts} {name : Nat} {addr key : UInt64} {e : RedirectEntry}

theorem redirect_alone :
    (after [.add parts name]).redirects.get? key = some e ↔
      lastSection (ModuleData.fromParts parts name).localSections key = some e.mirror ∧
        e.owner = ModuleData.fromParts parts name := by
  change (addRedirects (ModuleData.fromParts parts name) OrderedMap.empty).get? key = some e ↔ _
  rw [get?_addRedirects, OrderedMap.get?_empty, Option.or_none, Option.map_eq_some_iff]
  constructor
  · intro h
    obtain ⟨sec, hsec, rfl⟩ := h
    exact ⟨hsec, rfl⟩
  · intro h
    exact ⟨e.mirror, h.1, by rw [← h.2]⟩

theorem nearest_alone (h : (after [.add parts name]).redirects.lastLE addr = some (key, e)) :
    NearestSection (ModuleData.fromParts parts name) addr e.mirror ∧ e.mirror.Mirrors := by
  obtain ⟨hg, hle, hmax⟩ := OrderedMap.lastLE_eq_some.mp h
  have hstored := (redirect_alone.mp hg).1
  obtain ⟨hin, rfl⟩ := mem_of_lastSection hstored
  refine ⟨⟨hstored, hle, ?_⟩, ModuleData.fromParts_mirrors parts name _ hin⟩
  intro other hother hbelow
  refine hmax other.avmaStart ?_ hbelow
  cases hl : lastSection (ModuleData.fromParts parts name).localSections other.avmaStart with
  | none => exact absurd (List.mem_map_of_mem hother) (lastSection_eq_none.mp hl)
  | some sec =>
    rw [(redirect_alone (e := ⟨sec, ModuleData.fromParts parts name⟩)).mpr ⟨hl, rfl⟩]
    rfl

theorem NearestSection.unique {m : ModuleData} {sec sec' : LocalSection}
    (h : NearestSection m addr sec) (h' : NearestSection m addr sec') : sec = sec' := by
  have hin := (mem_of_lastSection h.stored).1
  have hin' := (mem_of_lastSection h'.stored).1
  have hstart : sec.avmaStart = sec'.avmaStart :=
    le_antisymm (h'.last sec hin h.below) (h.last sec' hin' h'.below)
  have hstored := h.stored
  rw [hstart, h'.stored] at hstored
  exact (Option.some.inj hstored).symm

theorem NearestSection.found {sec : LocalSection}
    (h : NearestSection (ModuleData.fromParts parts name) addr sec) :
    (after [.add parts name]).redirects.lastLE addr =
      some (sec.avmaStart, ⟨sec, ModuleData.fromParts parts name⟩) := by
  cases hl : (after [.add parts name]).redirects.lastLE addr with
  | none =>
    have hlt := OrderedMap.lastLE_eq_none.mp hl sec.avmaStart (by
      rw [(redirect_alone (e := ⟨sec, ModuleData.fromParts parts name⟩)).mpr ⟨h.stored, rfl⟩]
      rfl)
    exact absurd h.below (not_le.mpr hlt)
  | some p =>
    obtain ⟨key, e⟩ := p
    obtain ⟨hg, -⟩ := OrderedMap.lastLE_eq_some.mp hl
    obtain ⟨hstored, howner⟩ := redirect_alone.mp hg
    obtain rfl := h.unique (nearest_alone hl).1
    rw [(mem_of_lastSection hstored).2, ← howner]

/-- A module on its own answers for the words that its sections hold. -/
theorem lookupLocal_alone {b : Buffer} {off : Nat} :
    (after [.add parts name]).lookupLocal addr = some (b, off) ↔
      ∃ sec, NearestSection (ModuleData.fromParts parts name) addr sec ∧
        (addr.toNat + 8 ≤ sec.byteEnd ∨ 2 ^ 64 - 1 ≤ sec.byteEnd) ∧
        b = sec.localPtr ∧ off = (addr - sec.avmaStart).toNat := by
  constructor
  · intro h
    unfold lookupLocal at h
    split at h
    · next key e hl =>
      obtain ⟨hn, hm⟩ := nearest_alone hl
      dsimp only at h
      split at h
      · next hin =>
        obtain ⟨rfl, rfl⟩ := Prod.mk.inj (Option.some.inj h)
        exact ⟨e.mirror, hn, (fits_iff hm addr).mp hin.2, rfl, rfl⟩
      · cases h
    · cases h
  · intro h
    obtain ⟨sec, hn, hfits, rfl, rfl⟩ := h
    have hm := ModuleData.fromParts_mirrors parts name sec (mem_of_lastSection hn.stored).1
    unfold lookupLocal
    rw [hn.found]
    exact if_pos ⟨hn.below, (fits_iff hm addr).mpr hfits⟩

/-- The sections share no address and end below the last one. -/
structure SectionsApart (m : ModuleData) : Prop where
  disjoint : m.localSections.Pairwise (fun a b => ∀ addr, ¬ (Covers a addr ∧ Covers b addr))
  low : ∀ sec ∈ m.localSections, sec.byteEnd < 2 ^ 64 - 1

theorem hdrTable_nonempty {hdr : UInt64 × Buffer} (h : (hdrTable (some hdr)).1.entryCount ≠ 0) :
    0 < hdr.2.bytes.len := by
  obtain ⟨avma, ptr, data, bound⟩ := hdr
  cases data with
  | nil => exact absurd rfl h
  | cons byte rest => exact Nat.succ_pos _

/-- The two sections of a module that has both. -/
theorem fromParts_sections {hdr ehFrame : Buffer}
    (hh : (ModuleData.fromParts parts name).ehFrameHdrLocal = some hdr)
    (hf : (ModuleData.fromParts parts name).ehFrameLocal = some ehFrame) :
    ∃ avma, (ModuleData.fromParts parts name).localSections = [LocalSection.ofBytes avma hdr,
        LocalSection.ofBytes (ModuleData.fromParts parts name).ehFrameAvma ehFrame] ∧
      ((ModuleData.fromParts parts name).table.entryCount ≠ 0 → 0 < hdr.bytes.len) := by
  simp only [ModuleData.fromParts] at hh hf ⊢
  obtain ⟨⟨avma, b⟩, hload, rfl⟩ := Option.map_eq_some_iff.mp hh
  obtain ⟨⟨avma', b'⟩, hload', rfl⟩ := Option.map_eq_some_iff.mp hf
  rw [hload, hload']
  exact ⟨avma, rfl, hdrTable_nonempty⟩

theorem covers_start {sec : LocalSection} (hm : sec.Mirrors) (hlen : 0 < sec.localPtr.bytes.len)
    (hlow : sec.byteEnd < 2 ^ 64 - 1) : Covers sec sec.avmaStart := by
  have hend := hm.avmaEnd
  refine ⟨le_refl _, ?_⟩
  rw [UInt64.lt_iff_toNat_lt]
  unfold LocalSection.byteEnd at hend hlow
  omega

/-- Of sections that are apart, the one around an address is the nearest. -/
theorem SectionsApart.nearest {m : ModuleData} {first second : LocalSection}
    (h : SectionsApart m) (hm : ∀ sec ∈ m.localSections, sec.Mirrors)
    (hsecs : m.localSections = [first, second]) (hfirst : 0 < first.localPtr.bytes.len)
    (hle : second.avmaStart ≤ addr) (hlt : addr.toNat < second.byteEnd) :
    NearestSection m addr second := by
  obtain ⟨hdis, hlow⟩ := h
  rw [hsecs] at hdis hlow hm
  have hapart := (List.pairwise_cons.mp hdis).1 second (by simp)
  have hstored : lastSection [first, second] second.avmaStart = some second := by
    unfold lastSection
    by_cases hs : first.avmaStart = second.avmaStart
    · simp [hs]
    · simp [hs]
  refine ⟨by rw [hsecs, hstored], hle, ?_⟩
  rw [hsecs]
  intro other hother hbelow
  rcases List.mem_pair.mp hother with rfl | rfl
  · by_contra hgt
    have hend := (hm second (by simp)).avmaEnd
    have hlow' := hlow second (by simp)
    refine hapart other.avmaStart ⟨covers_start (hm other (by simp)) hfirst (hlow other (by simp)),
      le_of_lt (not_le.mp hgt), ?_⟩
    rw [UInt64.le_iff_toNat_le] at hbelow
    rw [UInt64.lt_iff_toNat_lt]
    omega
  · exact le_refl _

end ModuleSet

/-- The word that libunwind reads for a byte of instructions. -/
def alignedAddr (addr : UInt64) : UInt64 := addr &&& (~~~8 + 1)

theorem alignedAddr_toNat (a : UInt64) : (alignedAddr a).toNat = a.toNat / 8 * 8 := by
  have hmask : (~~~8 + 1 : UInt64).toNat = (2 ^ 61 - 1) <<< 3 := rfl
  have ha := a.toNat_lt
  have hround : a.toNat / 8 * 8 = (a.toNat >>> 3) <<< 3 := by
    rw [Nat.shiftRight_eq_div_pow, Nat.shiftLeft_eq]
  rw [alignedAddr, UInt64.toNat_and, hmask, hround]
  apply Nat.eq_of_testBit_eq
  intro i
  rw [Nat.testBit_and, Nat.testBit_shiftLeft, Nat.testBit_shiftLeft, Nat.testBit_two_pow_sub_one,
    Nat.testBit_shiftRight]
  by_cases hi : 3 ≤ i
  · have hback : 3 + (i - 3) = i := by omega
    rw [hback]
    by_cases htop : i - 3 < 61
    · simp [hi, htop]
    · have hhigh : a.toNat.testBit i = false :=
        Nat.testBit_lt_two_pow (Nat.lt_of_lt_of_le ha (Nat.pow_le_pow_right (by decide) (by omega)))
      simp [hhigh]
  · simp [hi]

section Answers

variable {Raw : Type} {parts : ModuleParts} {name : Nat} {env : UnwindEnv} {word val : UInt64}
  {ctx : UnwindCtx Raw}

/-- The access is answered from a mirrored section of the module, and the reader
is not called. -/
def AnsweredLocally (m : ModuleData) (env : UnwindEnv) (word val : UInt64) (ctx : UnwindCtx Raw) :
    Prop :=
  ∃ sec ∈ m.localSections, ∃ off,
    accessMem env word val false ctx = ((UNW_ESUCCESS, localWord env.memory sec.localPtr off), ctx)

theorem answeredLocally_iff (henv : env.modules = ModuleSet.after [.add parts name]) :
    AnsweredLocally (ModuleData.fromParts parts name) env word val ctx ↔
      ModuleSet.WordMirrored (ModuleData.fromParts parts name) word := by
  cases hl : env.modules.lookupLocal word with
  | some p =>
    obtain ⟨b, off⟩ := p
    have hm := hl
    rw [henv] at hm
    obtain ⟨sec, hn, hfits, rfl, rfl⟩ := ModuleSet.lookupLocal_alone.mp hm
    refine ⟨fun _ => ⟨sec, hn, hfits⟩, fun _ => ?_⟩
    refine ⟨sec, (ModuleSet.mem_of_lastSection hn.stored).1, (word - sec.avmaStart).toNat, ?_⟩
    unfold accessMem
    rw [hl]
    rfl
  | none =>
    constructor
    · intro h
      obtain ⟨sec, -, off, h⟩ := h
      have hreads := congrArg (fun r => r.2.world.reads.length) h
      unfold accessMem at hreads
      rw [hl] at hreads
      simp only [Bool.false_eq_true, if_false, Reader.read] at hreads
      cases hr : env.readFn ctx.world.reads word with
      | some v => simp [hr] at hreads
      | none => simp [hr] at hreads
    · intro h
      obtain ⟨sec, hn, hfits⟩ := h
      rw [henv, ModuleSet.lookupLocal_alone.mpr ⟨sec, hn, hfits, rfl, rfl⟩] at hl
      cases hl

/-- The word around a byte of instructions starts in `.eh_frame`. -/
theorem instr_nearest {ip a : UInt64} {d : FunctionDetails} {ehFrame : Buffer}
    (hparse : parseFunctionDetails (ModuleData.fromParts parts name) ip = .ok d)
    (ha : d.cieInfo.HoldsInstr a)
    (hapart : ModuleSet.SectionsApart (ModuleData.fromParts parts name))
    (hframe : (ModuleData.fromParts parts name).ehFrameLocal = some ehFrame) :
    (ModuleData.fromParts parts name).ehFrameAvma.toNat + ehFrame.bytes.len < 2 ^ 64 - 1 ∧
    ModuleSet.NearestSection (ModuleData.fromParts parts name) (alignedAddr a)
      (LocalSection.ofBytes (ModuleData.fromParts parts name).ehFrameAvma ehFrame) := by
  have hmirrors := ModuleData.fromParts_mirrors parts name
  obtain ⟨hdr, ehFrame', hhdr, hframe', hcount, hcie, hfde⟩ := parse_instrs hparse
  obtain rfl := Option.some.inj (hframe'.symm.trans hframe)
  obtain ⟨avma, hsecs, hpos⟩ := ModuleSet.fromParts_sections hhdr hframe'
  generalize ModuleData.fromParts parts name = m at *
  have hend : (LocalSection.ofBytes m.ehFrameAvma ehFrame').byteEnd =
      m.ehFrameAvma.toNat + ehFrame'.bytes.len := rfl
  have hlow : m.ehFrameAvma.toNat + ehFrame'.bytes.len < 2 ^ 64 - 1 := by
    rw [← hend]
    exact hapart.low _ (by rw [hsecs]; simp)
  have hbounds : m.ehFrameAvma.toNat + 8 ≤ a.toNat ∧
      a.toNat < m.ehFrameAvma.toNat + ehFrame'.bytes.len := by
    rcases ha with hin | hin
    · exact hcie.bounds (by omega) hin
    · exact hfde.bounds (by omega) hin
  have hword := alignedAddr_toNat a
  refine ⟨hlow, hapart.nearest hmirrors hsecs (hpos hcount) ?_ (by omega)⟩
  change m.ehFrameAvma ≤ alignedAddr a
  rw [UInt64.le_iff_toNat_le]
  omega

/-- A byte of instructions is answered for exactly if the word around it fits in
the section it starts in. Where the sections are apart, all that can go wrong is
that the byte stands behind the last whole word of `.eh_frame`. -/
theorem cfiByte_local_iff (parts : ModuleParts) (name : Nat) (cache : FunctionCache)
    (hc : CacheHistory (ModuleData.fromParts parts name) cache) (ip : UInt64) (d : FunctionDetails)
    (hd : (getOrParseFunctionDetails (ModuleData.fromParts parts name) ip cache).1 = .ok d)
    (a : UInt64) (ha : d.cieInfo.HoldsInstr a) (env : UnwindEnv)
    (henv : env.modules = ModuleSet.after [.add parts name]) (val : UInt64) (ctx : UnwindCtx Raw) :
    (AnsweredLocally (ModuleData.fromParts parts name) env (alignedAddr a) val ctx ↔
      ModuleSet.WordMirrored (ModuleData.fromParts parts name) (alignedAddr a)) ∧
    (ModuleSet.SectionsApart (ModuleData.fromParts parts name) →
      ∀ ehFrame, (ModuleData.fromParts parts name).ehFrameLocal = some ehFrame →
      (AnsweredLocally (ModuleData.fromParts parts name) env (alignedAddr a) val ctx ↔
        (alignedAddr a).toNat + 8 ≤
          (ModuleData.fromParts parts name).ehFrameAvma.toNat + ehFrame.bytes.len)) := by
  refine ⟨answeredLocally_iff henv, ?_⟩
  intro hapart ehFrame hframe
  rw [answeredLocally_iff henv]
  obtain ⟨jp, hparse⟩ := hc.returned hd
  obtain ⟨hlow, hnear⟩ := instr_nearest hparse ha hapart hframe
  have hend : (LocalSection.ofBytes (ModuleData.fromParts parts name).ehFrameAvma ehFrame).byteEnd =
      (ModuleData.fromParts parts name).ehFrameAvma.toNat + ehFrame.bytes.len := rfl
  constructor
  · intro h
    obtain ⟨sec, hn, hfits⟩ := h
    obtain rfl := hn.unique hnear
    omega
  · intro h
    exact ⟨_, hnear, Or.inl (by omega)⟩

end Answers

section OddFrame

/-- A module whose `.eh_frame` ends two bytes into a word, with the last
instructions of its only function. -/
def oddFrameParts : ModuleParts where
  name := "odd-frame"
  avmaRange := ⟨0x1000, 0x2000⟩
  baseAvma := 0
  baseSvma := 0
  textSvma := none
  ehFrameSvma := some ⟨0x3000, 0x302a⟩
  ehFrame := some ⟨0x7000, ⟨[9, 0, 0, 0, 0, 0, 0, 0, 1, 0, 1, 0x78, 16,
    25, 0, 0, 0, 17, 0, 0, 0, 0, 0x10, 0, 0, 0, 0, 0, 0, 0x10, 0, 0, 0, 0, 0, 0, 0,
    0, 0, 0, 0, 0], by decide⟩⟩
  ehFrameHdrSvma := some ⟨0x4000, 0x4014⟩
  ehFrameHdr := some ⟨0x8000, ⟨[1, 0x03, 0x03, 0x3b, 0, 0x30, 0, 0, 1, 0, 0, 0,
    0x00, 0xd0, 0xff, 0xff, 0x0d, 0xf0, 0xff, 0xff], by decide⟩⟩

def oddFrameDetails : FunctionDetails where
  startIp := 0x1000
  endIp := 0x1010
  cieInfo := ⟨0x300d, 0x300d, 0x3025, 0x302a, 1, 0xfffffffffffffff8, 16, 0, 0, 0, 0, 0xff, 0⟩
  lsda := 0
  handler := 0
  signalFrame := false

def oddFrameEnv : UnwindEnv :=
  ⟨ModuleSet.after [.add oddFrameParts 0], 0x1004, fun _ _ => none, fun _ => 0⟩

theorem oddFrame_returned : (getOrParseFunctionDetails (ModuleData.fromParts oddFrameParts 0) 0x1004
    .new).1 = .ok oddFrameDetails := by
  decide +kernel

theorem oddFrame_apart : ModuleSet.SectionsApart (ModuleData.fromParts oddFrameParts 0) := by
  refine ⟨List.pairwise_pair.mpr ?_, ?_⟩
  · intro addr h
    obtain ⟨⟨h1, -⟩, -, h2⟩ := h
    have hlt : (0x4000 : UInt64) < 0x302a := lt_of_le_of_lt h1 h2
    exact absurd hlt (by decide)
  · intro sec hsec
    rcases List.mem_pair.mp hsec with rfl | rfl
    · decide
    · decide

theorem oddFrame_byte_answered :
    AnsweredLocally (ModuleData.fromParts oddFrameParts 0) oddFrameEnv (alignedAddr 0x3027) 0
      countedCtx :=
  ((cfiByte_local_iff oddFrameParts 0 .new .fresh 0x1004 oddFrameDetails oddFrame_returned 0x3027
    (Or.inr ⟨by decide, by decide⟩) oddFrameEnv rfl 0 countedCtx).2 oddFrame_apart _ rfl).mpr
    (by decide)

/-- The last instructions are asked for from the reader. -/
theorem oddFrame_last_byte_read :
    ¬ ∀ parts name cache ip d a env val, ∀ ctx : UnwindCtx Unit,
      CacheHistory (ModuleData.fromParts parts name) cache →
      (getOrParseFunctionDetails (ModuleData.fromParts parts name) ip cache).1 = .ok d →
      d.cieInfo.HoldsInstr a → env.modules = ModuleSet.after [.add parts name] →
      AnsweredLocally (ModuleData.fromParts parts name) env (alignedAddr a) val ctx := by
  intro h
  obtain ⟨sec, -, off, hanswer⟩ := h oddFrameParts 0 .new 0x1004 oddFrameDetails 0x3028 oddFrameEnv 0
    countedCtx .fresh oddFrame_returned (Or.inr ⟨by decide, by decide⟩) rfl
  have hreads : (accessMem oddFrameEnv (alignedAddr 0x3028) 0 false countedCtx).2.world.reads = [] := by
    rw [hanswer]
    rfl
  exact absurd hreads (by decide +kernel)

end OddFrame

end Unwinder
