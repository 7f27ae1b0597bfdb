import Unwinder.OverflowChecks
import Unwinder.Proofs.AugLength
import Unwinder.Proofs.Lenient
import Unwinder.Proofs.RoundTrip

namespace Unwinder
open Lib Dwarf

/-- Both sections are there, and the search in the header for an address yields the
entry at this offset of `.eh_frame`. -/
structure SearchYields (m : ModuleData) (ip : UInt64) (s : Slice) (off : Nat) : Prop where
  frame : ∃ ptr, m.ehFrameLocal = some ⟨ptr, s⟩
  hit : ∃ hdr pc fdeAvma, m.ehFrameHdrLocal = some hdr ∧
    (m.table.lookup hdr.bytes ip : Res UnwindInfoError _) = .ok (some (pc, fdeAvma)) ∧
    fdeAvma.toNat = m.ehFrameAvma.toNat + off
  inside : off < s.len

/-- A length field and a whole CIE pointer stand at an offset, and the pointer is zero. -/
structure ZeroCiePointer (s : Slice) (off : Nat) (wide : Bool) (len : Nat) : Prop where
  length : LengthFits wide len
  bytes : (s.data.drop off).take (lengthField wide len ++ idField wide 0).length =
    lengthField wide len ++ idField wide 0

/-- The entry is reported not to be an FDE. -/
def DiagnosedAsCie (r : Res UnwindInfoError FunctionDetails) : Prop :=
  ∃ name offset source, r = .err (.fdeParse name offset source) ∧
    source.kind = .fdeCiePointerIsZero

section
variable {m : ModuleData} {ip : UInt64} {s : Slice} {off len : Nat} {wide : Bool}
  {checks : OverflowChecks}

theorem SearchYields.fdeOffset {fdeAvma : UInt64} (hin : off < s.len)
    (h : fdeAvma.toNat = m.ehFrameAvma.toNat + off) : fdeOffsetOf m s fdeAvma = .ok off := by
  have hle : m.ehFrameAvma ≤ fdeAvma := UInt64.le_iff_toNat_le.mpr (by omega)
  have hsub : (fdeAvma - m.ehFrameAvma).toNat = off := by
    rw [UInt64.toNat_sub_of_le _ _ hle]
    omega
  rw [fdeOffsetOf, checkedSub64, if_pos hle]
  dsimp only
  rw [hsub, if_neg (by omega)]

/-- The entries at the offset are parsed and decide the outcome. -/
theorem SearchYields.parseFunctionDetailsIn_eq (h : SearchYields m ip s off) :
    parseFunctionDetailsIn checks m ip = (do
      let (cie, fde) ← parseEntriesIn checks m s off
      coveringDetails m ip cie fde) := by
  obtain ⟨ptr, hframe⟩ := h.frame
  obtain ⟨hdr, pc, fdeAvma, hhdr, hlookup, havma⟩ := h.hit
  unfold parseFunctionDetailsIn
  rw [hframe, hhdr]
  dsimp only
  rw [hlookup, Res.ok_bind, Res.ofOption_some, Res.ok_bind]
  dsimp only
  rw [parseFdeAtIn, SearchYields.fdeOffset h.inside havma, Res.ok_bind]

/-- Without checks, the length of the instructions is what is left modulo the word. -/
theorem instrRangeIn_off {c : Cursor} {entryEnd : Nat} (h : entryEnd ≤ c.bytes.len) :
    instrRangeIn .off entryEnd c =
      (.ok (c.pos, (entryEnd + 2 ^ 64 - c.pos) % 2 ^ 64), c) := by
  rw [instrRangeIn, StateRes.bind_of_ok (cursor_apply c), if_neg (by omega)]
  rfl

/-- A length field that is not read is an error of its own. -/
theorem errors_readEntryLength :
    Errors (fun _ e => e.kind ≠ .fdeCiePointerIsZero) readEntryLength := by
  have hend : ∀ o : Option Nat, Errors (fun _ e => e.kind ≠ .fdeCiePointerIsZero)
      (orFail .entryLengthOverflow o) := by
    intro o
    cases o with
    | none => exact errors_fail (fun _ _ => by simp)
    | some e => exact Errors.pure e
  refine (errors_readU32 (by simp)).bind safe_readU32 (fun len32 => ?_)
  refine Errors.bind (safe_readEntryLen _ _) (Errors.ite ?_ (Errors.pure _)) (fun n => ?_)
  · exact (errors_readU64 (by simp)).map _ safe_readU64
  · exact (errors_cursor.bind safe_cursor (fun c => hend _)).bind (safe_entryEndFrom n)
      (fun e => Errors.pure _)

namespace ZeroCiePointer

/-- Where the CIE pointer stands. -/
def place (off len : Nat) (wide : Bool) : Nat := off + (lengthField wide len).length

variable (avma : UInt64)

theorem ahead (h : ZeroCiePointer s off wide len) :
    Cursor.Ahead ⟨s, off, avma⟩ (lengthField wide len ++ idField wide 0) := h.bytes

theorem drop (h : ZeroCiePointer s off wide len) :
    ∃ tl, s.data.drop off = lengthField wide len ++ (idField wide 0 ++ tl) := by
  have hrest := (h.ahead 0).rest
  rw [List.append_assoc] at hrest
  exact ⟨_, hrest⟩

/-- The caller takes the pointer's own place for the CIE's. -/
theorem cieOffsetOf_eq (h : ZeroCiePointer s off wide len) (hin : off < s.len) (name : String) :
    cieOffsetOf name s off = .ok (place off len wide) := by
  obtain ⟨tl, hdrop⟩ := h.drop
  rw [EntryPair.cieOffsetOf_fields (by omega) h.length (Nat.pow_pos (by omega)) hdrop,
    if_pos (Nat.zero_le _), Nat.sub_zero, place, EntryPair.lengthField_length]

theorem valid (h : ZeroCiePointer s off wide len) (hin : off < s.len) :
    Cursor.Valid ⟨s, place off len wide, avma⟩ ∧
      Cursor.Ahead ⟨s, place off len wide, avma⟩ (idField wide 0) := by
  have hv : Cursor.Valid ⟨s, off, avma⟩ := Nat.le_of_lt hin
  obtain ⟨hlen, hid⟩ := Cursor.ahead_append.mp (h.ahead avma)
  exact ⟨hlen.valid hv, hid⟩

/-- Read as a length, the zero pointer declares an empty entry. -/
theorem declaredEnd_place (h : ZeroCiePointer s off wide len) (hin : off < s.len) :
    declaredEnd s (place off len wide) = place off len wide + 4 ∧
      place off len wide + 4 ≤ s.len := by
  obtain ⟨hv, ha⟩ := h.valid 0 hin
  obtain ⟨tl, hfour⟩ : ∃ tl, idField wide 0 = leBytes 4 0 ++ tl := by
    cases wide
    · exact ⟨[], rfl⟩
    · exact ⟨leBytes 4 0, rfl⟩
  rw [hfour] at ha
  have hzero : Cursor.Ahead _ (lengthField false 0) := (Cursor.ahead_append.mp ha).1
  exact ⟨declaredEnd_eq hzero (by decide), hzero.valid hv⟩

/-- Whatever CIE is read there has run past the end of that empty entry. -/
theorem standsAt_overruns (h : ZeroCiePointer s off wide len) (hin : off < s.len)
    {l : CieLayout} (hl : l.StandsAt s (place off len wide) avma) :
    l.entryEnd (place off len wide) ≤ s.len ∧
      l.entryEnd (place off len wide) < place off len wide + l.bytes.length := by
  obtain ⟨hend, hle⟩ := h.declaredEnd_place hin
  have ha : Cursor.Ahead ⟨s, place off len wide, avma⟩ l.bytes := hl.bytes
  rw [CieLayout.bytes, CieLayout.front, List.append_assoc] at ha
  have hlength := declaredEnd_eq (Cursor.ahead_append.mp ha).1 hl.wellFormed.length
  have hentry : l.entryEnd (place off len wide) = place off len wide + 4 := hlength.symm.trans hend
  have hfour : 4 < l.bytes.length := by
    rw [CieLayout.bytes, CieLayout.front]
    simp only [List.length_append, List.length_singleton, EntryPair.lengthField_length]
    have hwidth : 4 ≤ EntryPair.lengthWidth l.wide := by cases l.wide <;> decide
    omega
  omega

/-- The misparse at the pointer's place: an error of the CIE, or fields that end
behind their entry, where only a build without checks goes on. -/
theorem parseCieIn_cases (h : ZeroCiePointer s off wide len) (hin : off < s.len) :
    ((¬ ∃ l : CieLayout, l.StandsAt s (place off len wide) avma) ∧
      ∃ e, ∀ checks, parseCieIn checks s (place off len wide) avma = .err e) ∨
    ((∃ l : CieLayout, l.StandsAt s (place off len wide) avma) ∧
      parseCieIn .on s (place off len wide) avma = .panic ∧
      ∃ cie, parseCieIn .off s (place off len wide) avma = .ok cie) := by
  obtain ⟨hv, -⟩ := h.valid avma hin
  obtain ⟨r, n, hrun, -, hpanic⟩ := safe_cieHeader _ hv
  cases r with
  | panic => exact absurd rfl hpanic
  | err e =>
    refine Or.inl ⟨?_, e, fun checks => ?_⟩
    · intro hl
      obtain ⟨l, hl⟩ := hl
      obtain ⟨a, hset⟩ := Option.isSome_iff_exists.mp hl.settings
      cases hrun.symm.trans (CieLayout.reads_header hv hl.wellFormed hl.bytes hl.entryEnd hset).2
    · rw [parseCieIn, cieBodyIn, StateRes.bind_of_err hrun]
  | ok hd =>
    obtain ⟨l, hw, ha, he, hadv, a, hset, rfl⟩ := cieHeader_layout hv hrun
    have hl : l.StandsAt s (place off len wide) avma :=
      ⟨hw, Option.isSome_iff_exists.mpr ⟨a, hset⟩, ha, he⟩
    obtain ⟨hle, hlt⟩ := h.standsAt_overruns avma hin hl
    refine Or.inr ⟨⟨l, hl⟩, ?_, ?_⟩
    · obtain ⟨cie, -, hparse⟩ := hl.parseCie_eq
      rw [if_neg (by omega), if_neg (by omega)] at hparse
      exact hparse
    · rw [parseCieIn, cieBodyIn, StateRes.bind_of_ok hrun,
        StateRes.bind_of_ok (instrRangeIn_off hle)]
      exact ⟨_, rfl⟩

/-- The length field is read exactly if the end that it declares can be computed. -/
theorem readEntryLength_cases (h : ZeroCiePointer s off wide len) (hin : off < s.len) :
    (place off len wide + len < 2 ^ 64 ∧ readEntryLength ⟨s, off, avma⟩ =
      (.ok (wide, place off len wide + len), ⟨s, place off len wide, avma⟩)) ∨
    (¬ place off len wide + len < 2 ^ 64 ∧ ∃ e c', readEntryLength ⟨s, off, avma⟩ = (.err e, c') ∧
      e.kind ≠ .fdeCiePointerIsZero) := by
  have hv : Cursor.Valid ⟨s, off, avma⟩ := Nat.le_of_lt hin
  have ha := (Cursor.ahead_append.mp (h.ahead avma)).1
  by_cases hlt : place off len wide + len < 2 ^ 64
  · have hread := (reads_entryLength hv).mpr ⟨ha, len, rfl, h.length, hlt, rfl⟩
    exact Or.inl ⟨hlt, hread.2⟩
  · refine Or.inr ⟨hlt, ?_⟩
    obtain ⟨r, n, hrun, -, hpanic⟩ := safe_readEntryLength _ hv
    cases r with
    | panic => exact absurd rfl hpanic
    | err e => exact ⟨e, _, hrun, errors_readEntryLength _ _ e hv hrun⟩
    | ok v =>
      obtain ⟨bs, hread, -, -⟩ := safe_readEntryLength.reads hv hrun
      obtain ⟨ha', len', rfl, hfits, hlt', -⟩ := (reads_entryLength hv).mp hread
      have hend := (declaredEnd_eq ha h.length).symm.trans (declaredEnd_eq ha' hfits)
      rw [← hend] at hlt'
      exact absurd hlt' hlt

/-- Once the length field is read, the pointer is found to be zero. -/
theorem readCiePointer_zero (h : ZeroCiePointer s off wide len) (hin : off < s.len) :
    ∃ c', readCiePointer wide ⟨s, place off len wide, avma⟩ =
      (.err ⟨place off len wide, .fdeCiePointerIsZero⟩, c') := by
  obtain ⟨hv, ha⟩ := h.valid avma hin
  have hread : Reads (readEntryId wide) ⟨s, place off len wide, avma⟩ (idField wide 0) 0 :=
    (reads_entryId hv).mpr ⟨ha, rfl, Nat.pow_pos (by omega)⟩
  rw [readCiePointer, StateRes.bind_of_ok (cursor_apply _), StateRes.bind_of_ok hread.2,
    if_pos rfl]
  exact ⟨_, rfl⟩

theorem parseFdeIn_cases (h : ZeroCiePointer s off wide len) (hin : off < s.len)
    (checks : OverflowChecks) (config : FdeParseConfig) :
    ∃ e, parseFdeIn checks s off avma config = .err e ∧
      (e.kind = .fdeCiePointerIsZero ↔ place off len wide + len < 2 ^ 64) := by
  have hfails : ∀ e c', fdeFront config ⟨s, off, avma⟩ = (.err e, c') →
      parseFdeIn checks s off avma config = .err e := by
    intro e c' hfront
    have hheader : fdeHeader config ⟨s, off, avma⟩ = (.err e, c') := by
      rw [fdeHeader, StateRes.bind_of_err hfront]
    rw [parseFdeIn, fdeBodyIn, StateRes.bind_of_err hheader]
  rcases h.readEntryLength_cases avma hin with ⟨hlt, hlength⟩ | ⟨hlt, e, c', hlength, hkind⟩
  · obtain ⟨c', hptr⟩ := h.readCiePointer_zero avma hin
    refine ⟨⟨place off len wide, .fdeCiePointerIsZero⟩, hfails _ c' ?_, iff_of_true rfl hlt⟩
    rw [fdeFront, StateRes.bind_of_ok hlength]
    exact StateRes.bind_of_err hptr
  · refine ⟨e, hfails e c' ?_, iff_of_false hkind hlt⟩
    rw [fdeFront, StateRes.bind_of_err hlength]

end ZeroCiePointer

/-- An error of the CIE is no diagnosis of the FDE. -/
theorem not_diagnosed_cieParse {name : String} {offset : Nat} {source : DwarfParseError} :
    ¬ DiagnosedAsCie (.err (.cieParse name offset source)) := by
  intro h
  obtain ⟨name', offset', source', h, -⟩ := h
  cases h

/-- An entry that is no FDE is diagnosed as such never in a build with overflow checks,
and in one without them only if the bytes from its zero pointer on can be read as the
fields of a CIE, and its own end can be computed. -/
theorem notAnFde_diagnosed_iff (h : SearchYields m ip s off) (hz : ZeroCiePointer s off wide len) :
    ¬ DiagnosedAsCie (parseFunctionDetails m ip) ∧
    (DiagnosedAsCie (parseFunctionDetailsIn .off m ip) ↔
      (∃ l : CieLayout, l.StandsAt s (ZeroCiePointer.place off len wide) m.ehFrameAvma) ∧
        ZeroCiePointer.place off len wide + len < 2 ^ 64) := by
  have hoffset := hz.cieOffsetOf_eq h.inside m.name
  rw [← parseFunctionDetailsIn_on, h.parseFunctionDetailsIn_eq, h.parseFunctionDetailsIn_eq,
    parseEntriesIn, parseEntriesIn, hoffset, Res.ok_bind, Res.ok_bind]
  rcases hz.parseCieIn_cases m.ehFrameAvma h.inside with
    ⟨hnone, e, hcie⟩ | ⟨hsome, hpanic, cie, hcie⟩
  · rw [hcie, hcie, Res.mapErr_err, Res.err_bind, Res.err_bind]
    exact ⟨not_diagnosed_cieParse, iff_of_false not_diagnosed_cieParse (fun hc => hnone hc.1)⟩
  · obtain ⟨e, hfde, hkind⟩ := hz.parseFdeIn_cases m.ehFrameAvma h.inside .off
      ⟨cie.fdeEncoding, cie.lsdaEncoding, cie.hasZ, m.textBase, m.dataBase⟩
    rw [hpanic, hcie, Res.mapErr_panic, Res.panic_bind, Res.panic_bind, Res.mapErr_ok, Res.ok_bind,
      hfde, Res.mapErr_err, Res.err_bind, Res.err_bind]
    refine ⟨?_, ?_⟩
    · intro hd
      obtain ⟨name, offset, source, hd, -⟩ := hd
      cases hd
    · rw [and_iff_right hsome, ← hkind]
      constructor
      · intro hd
        obtain ⟨name, offset, source, hd, hsource⟩ := hd
        cases hd
        exact hsource
      · intro hd
        exact ⟨_, _, e, rfl, hd⟩

end

/-- A CIE with its length field in the 32-bit form. -/
def narrowCie : Slice :=
  ⟨[20, 0, 0, 0, 0, 0, 0, 0, 1, 0x7a, 0x52, 0, 1, 0x78, 16, 1, 0x1b, 0x0c, 7, 8, 0x90, 1, 0, 0],
    by decide⟩

/-- The same CIE with its length field in the 64-bit form. -/
def wideCie : Slice :=
  ⟨[0xff, 0xff, 0xff, 0xff, 24, 0, 0, 0, 0, 0, 0, 0, 0, 0, 0, 0, 0, 0, 0, 0, 1, 0x7a, 0x52, 0, 1,
    0x78, 16, 1, 0x1b, 0x0c, 7, 8, 0x90, 1, 0, 0], by decide⟩

/-- A module whose header leads to the start of `.eh_frame`. -/
def cieModule (s : Slice) : ModuleData := smallModule 1 (some ⟨64, s⟩)

theorem cieModule_searchYields {s : Slice} (h : 0 < s.len) :
    SearchYields (cieModule s) 0x1104 s 0 where
  frame := ⟨64, rfl⟩
  hit := by
    have htable : (cieModule s).table = (cieModule narrowCie).table := rfl
    have havma : (cieModule s).ehFrameAvma = (cieModule narrowCie).ehFrameAvma := rfl
    refine ⟨(cieModule narrowCie).ehFrameHdrLocal.get rfl, 0x1100, 0x1400, rfl, ?_, ?_⟩
    · rw [htable]
      decide +kernel
    · rw [havma]
      decide +kernel
  inside := h

/-- A CIE that the header lists is not found out in either build: what follows its
zero pointer is taken for the id of another CIE. -/
theorem narrowCie_misdiagnosed :
    SearchYields (cieModule narrowCie) 0x1104 narrowCie 0 ∧
    ZeroCiePointer narrowCie 0 false 20 ∧
    parseFunctionDetails (cieModule narrowCie) 0x1104 =
      .err (.cieParse "small" 4 ⟨8, .badCieId 0x527a01⟩) ∧
    parseFunctionDetailsIn .off (cieModule narrowCie) 0x1104 =
      .err (.cieParse "small" 4 ⟨8, .badCieId 0x527a01⟩) ∧
    ¬ DiagnosedAsCie (parseFunctionDetails (cieModule narrowCie) 0x1104) := by
  have hon : parseFunctionDetails (cieModule narrowCie) 0x1104 =
      .err (.cieParse "small" 4 ⟨8, .badCieId 0x527a01⟩) := by decide +kernel
  refine ⟨cieModule_searchYields (by decide), ⟨by decide, by decide⟩, hon, by decide +kernel, ?_⟩
  rw [hon]
  exact not_diagnosed_cieParse

/-- How the bytes from the zero pointer of the wide CIE on are read. -/
def misreadLayout : CieLayout := ⟨false, 0, 1, [1], [0x78], [16], some ([1], [.fdeEncoding 0x1b])⟩

theorem misreadLayout_standsAt :
    misreadLayout.StandsAt wideCie 12 (cieModule wideCie).ehFrameAvma where
  wellFormed := {
    length := by decide
    version := by decide
    codeAlign := by decide
    dataAlign := by decide
    column := rfl
    augLen := by decide }
  settings := by decide +kernel
  bytes := by decide +kernel
  entryEnd := by decide

/-- In the 64-bit form the misreading gets through to the end, where a build with
checks panics and one without them goes on to the diagnosis. -/
theorem wideCie_diagnosed :
    parseFunctionDetails (cieModule wideCie) 0x1104 = .panic ∧
    ¬ DiagnosedAsCie (parseFunctionDetails (cieModule wideCie) 0x1104) ∧
    DiagnosedAsCie (parseFunctionDetailsIn .off (cieModule wideCie) 0x1104) := by
  have hyields : SearchYields (cieModule wideCie) 0x1104 wideCie 0 :=
    cieModule_searchYields (by decide)
  have hzero : ZeroCiePointer wideCie 0 true 24 := ⟨by decide, by decide⟩
  obtain ⟨hon, hoff⟩ := notAnFde_diagnosed_iff hyields hzero
  exact ⟨by decide +kernel, hon, hoff.mpr ⟨⟨misreadLayout, misreadLayout_standsAt⟩, by decide⟩⟩

end Unwinder
