import Unwinder.Proofs.Headers

namespace Unwinder.Dwarf
open Lib

variable {α : Type}

/-- Where the entry at an offset ends by its own length field. -/
def declaredEnd (s : Slice) (off : Nat) : Nat :=
  let field := s.data.drop off
  if leValue (field.take 4) = 0xffffffff then off + 12 + leValue ((field.drop 4).take 8)
  else off + 4 + leValue (field.take 4)

/-- The parser does not panic, and the instructions it reports end where the
entry does, inside the slice. -/
def Confined (s : Slice) (off : Nat) (instrs : α → Nat × Nat) (r : Res DwarfParseError α) : Prop :=
  r ≠ .panic ∧ ∀ p, r = .ok p → (instrs p).1 ≤ declaredEnd s off ∧
    (instrs p).1 + (instrs p).2 = declaredEnd s off ∧ declaredEnd s off ≤ s.len

def ParsedCie.instrs (cie : ParsedCie) : Nat × Nat :=
  (cie.cieInstrOffsetInEhFrame, cie.cieInstrLen)

def ParsedFde.instrs (fde : ParsedFde) : Nat × Nat :=
  (fde.fdeInstrOffsetInEhFrame, fde.fdeInstrLen)

/-- A legal CIE header stands at the offset and is longer than the entry that
its length field declares, the entry itself lying in the slice. -/
def CieOverruns (s : Slice) (off : Nat) (avma : UInt64) : Prop :=
  ∃ l : CieLayout, l.WellFormed ∧ (l.settings (avma + UInt64.ofNat off)).isSome ∧
    (s.data.drop off).take l.bytes.length = l.bytes ∧
    l.entryEnd off ≤ s.len ∧ l.entryEnd off < off + l.bytes.length

/-- The same of the fields of an FDE in front of any augmentation data. -/
def FdeOverruns (s : Slice) (off : Nat) (avma : UInt64) (config : FdeParseConfig) : Prop :=
  ∃ l : FdeLayout, l.WellFormed ∧ (l.pcValue config (avma + UInt64.ofNat off)).isSome ∧
    (l.rangeValue config).isSome ∧ (s.data.drop off).take l.bytes.length = l.bytes ∧
    l.entryEnd off ≤ s.len ∧ l.entryEnd off < off + l.bytes.length

theorem declaredEnd_eq {c : Cursor} {wide : Bool} {len : Nat} (h : c.Ahead (lengthField wide len))
    (hf : LengthFits wide len) :
    declaredEnd c.bytes c.pos = c.pos + (lengthField wide len).length + len := by
  obtain ⟨xs, ys, hxy, hp⟩ := lengthParts_iff.mpr ⟨rfl, hf⟩
  rw [hxy] at h ⊢
  have hr := h.rest
  rw [List.append_assoc] at hr
  have htake : c.rest.take 4 = xs := by rw [hr, ← hp.first, List.take_left]
  have hdrop : c.rest.drop 4 = ys ++ (c.advance (xs ++ ys).length).rest := by
    rw [hr, ← hp.first, List.drop_left]
  have hval := hp.value
  have hsec := hp.second
  unfold declaredEnd
  change (if leValue (c.rest.take 4) = 0xffffffff then
    c.pos + 12 + leValue ((c.rest.drop 4).take 8) else c.pos + 4 + leValue (c.rest.take 4)) = _
  rw [htake, hdrop, List.length_append, hp.first]
  by_cases hw : wide = true
  · rw [if_pos (hp.mark.mp hw)]
    rw [if_pos hw] at hsec hval
    rw [← hsec, List.take_left, hval, hsec]
  · rw [if_neg (fun he => hw (hp.mark.mpr he))]
    rw [if_neg hw] at hsec hval
    rw [hsec, hval]

/-- The instruction range of an entry: an error when the entry leaves the
slice, a panic when the fields have run past its end. -/
theorem instrRange_run (e : Nat) (c : Cursor) :
    instrRange e c = (if c.bytes.len < e then .err ⟨c.pos, .truncated e c.bytes.len⟩
      else if c.pos ≤ e then .ok (c.pos, e - c.pos) else .panic, c) := by
  unfold instrRange
  rw [StateRes.bind_of_ok (cursor_apply c)]
  by_cases h : c.bytes.len < e
  · rw [if_pos h, if_pos h]
    rfl
  · rw [if_neg h, if_neg h]
    unfold usizeSub
    by_cases hp : c.pos ≤ e
    · rw [if_pos hp, if_pos hp]
      rfl
    · rw [if_neg hp, if_neg hp]
      rfl

/-- Both parsers read a header and take the rest of the entry as instructions. -/
def entryBody {η : Type} (header : Parse η) (entryEnd : η → Nat) (build : η → Nat × Nat → α) :
    Parse α :=
  header >>= fun h => instrRange (entryEnd h) >>= fun r => pure (build h r)

section EntryBody

variable {η : Type} {header : Parse η} {entryEnd : η → Nat} {build : η → Nat × Nat → α}
  {instrs : α → Nat × Nat} {c c' : Cursor} {h : η}

theorem entryBody_run (hr : header c = (.ok h, c')) :
    (entryBody header entryEnd build c).1 =
      if c'.bytes.len < entryEnd h then .err ⟨c'.pos, .truncated (entryEnd h) c'.bytes.len⟩
      else if c'.pos ≤ entryEnd h then .ok (build h (c'.pos, entryEnd h - c'.pos)) else .panic := by
  unfold entryBody
  rw [StateRes.bind_of_ok hr]
  have hrange := instrRange_run (entryEnd h) c'
  by_cases hl : c'.bytes.len < entryEnd h
  · rw [if_pos hl] at hrange ⊢
    rw [StateRes.bind_of_err hrange]
  · rw [if_neg hl] at hrange ⊢
    by_cases hp : c'.pos ≤ entryEnd h
    · rw [if_pos hp] at hrange ⊢
      rw [StateRes.bind_of_ok hrange]
      rfl
    · rw [if_neg hp] at hrange ⊢
      rw [StateRes.bind_of_panic hrange]

/-- An entry is confined unless its header is read and has overrun it. -/
theorem confined_iff_header (hi : ∀ h r, instrs (build h r) = r) (hnp : (header c).1 ≠ .panic)
    (hok : ∀ h c', header c = (.ok h, c') →
      c'.bytes = c.bytes ∧ entryEnd h = declaredEnd c.bytes c.pos) :
    Confined c.bytes c.pos instrs (entryBody header entryEnd build c).1 ↔
      ¬ ∃ h c', header c = (.ok h, c') ∧ entryEnd h ≤ c.bytes.len ∧ entryEnd h < c'.pos := by
  unfold Confined
  rcases hr : header c with ⟨r, c'⟩
  cases r with
  | panic => exact absurd (congrArg Prod.fst hr) hnp
  | err e =>
    have hrun : (entryBody header entryEnd build c).1 = .err e := by
      unfold entryBody
      rw [StateRes.bind_of_err hr]
    rw [hrun]
    simp
  | ok h =>
    obtain ⟨hb, he⟩ := hok h c' hr
    have hex : (∃ h' c'', ((.ok h, c') : Res DwarfParseError η × Cursor) = (.ok h', c'') ∧
        entryEnd h' ≤ c.bytes.len ∧ entryEnd h' < c''.pos) ↔
        entryEnd h ≤ c.bytes.len ∧ entryEnd h < c'.pos := by
      constructor
      · intro h
        obtain ⟨h', c'', heq, hle⟩ := h
        obtain ⟨hh, rfl⟩ := Prod.mk.inj heq
        obtain rfl := Res.ok.inj hh
        exact hle
      · intro hle
        exact ⟨h, c', rfl, hle⟩
    rw [hex, entryBody_run hr, hb, ← he]
    by_cases hl : c.bytes.len < entryEnd h
    · rw [if_pos hl]
      refine ⟨fun _ hle => by omega, fun _ => ⟨by simp, by simp⟩⟩
    · rw [if_neg hl]
      by_cases hp : c'.pos ≤ entryEnd h
      · rw [if_pos hp]
        refine ⟨fun _ hle => by omega, fun _ => ⟨by simp, ?_⟩⟩
        intro p hok
        obtain rfl := Res.ok.inj hok
        rw [hi]
        exact ⟨hp, Nat.add_sub_cancel' hp, by omega⟩
      · rw [if_neg hp]
        exact ⟨fun hc => absurd rfl hc.1, fun hc => absurd ⟨by omega, by omega⟩ hc⟩

end EntryBody

theorem cieBody_eq : cieBody = entryBody cieHeader CieHeader.entryEnd (fun h r =>
    ⟨h.codeAlign, h.dataAlign, h.retAddrColumn, h.augmentation.fdeEncoding,
      h.augmentation.lsdaEncoding, h.augmentation.personality, h.hasZ,
      h.augmentation.signalFrame, r.1, r.2⟩) := rfl

theorem fdeBody_eq (config : FdeParseConfig) : fdeBody config =
    entryBody (fdeHeader config) FdeHeader.entryEnd (fun h r =>
      ⟨h.initialPc, h.addressRange, r.1, r.2, h.lsda⟩) := rfl

/-- A header that overruns its entry is one that the parser reads. -/
theorem cieOverruns_iff {s : Slice} {off : Nat} (h : off ≤ s.len) (avma : UInt64) :
    CieOverruns s off avma ↔ ∃ hd c', cieHeader ⟨s, off, avma⟩ = (.ok hd, c') ∧
      hd.entryEnd ≤ s.len ∧ hd.entryEnd < c'.pos := by
  constructor
  · intro h
    obtain ⟨l, hw, hset, ha, hle, hlt⟩ := h
    obtain ⟨a, hset⟩ := Option.isSome_iff_exists.mp hset
    have hb := s.bound
    have hlen : s.len = s.data.length := rfl
    have hr := CieLayout.reads_header (c := ⟨s, off, avma⟩) h hw ha
      (show l.entryEnd off < 2 ^ 64 by omega) hset
    exact ⟨_, _, hr.2, hle, hlt⟩
  · intro h
    obtain ⟨hd, c', hr, hle, hlt⟩ := h
    obtain ⟨l, hw, ha, -, rfl, a, hset, rfl⟩ := cieHeader_layout (c := ⟨s, off, avma⟩) h hr
    exact ⟨l, hw, Option.isSome_iff_exists.mpr ⟨a, hset⟩, ha, hle, hlt⟩

theorem fdeOverruns_iff {s : Slice} {off : Nat} (h : off ≤ s.len) (avma : UInt64)
    (config : FdeParseConfig) :
    FdeOverruns s off avma config ↔ ∃ e v c', fdeFront config ⟨s, off, avma⟩ = (.ok (e, v), c') ∧
      e ≤ s.len ∧ e < c'.pos := by
  constructor
  · intro h
    obtain ⟨l, hw, hpc, hrange, ha, hle, hlt⟩ := h
    obtain ⟨pc, hpc⟩ := Option.isSome_iff_exists.mp hpc
    obtain ⟨range, hrange⟩ := Option.isSome_iff_exists.mp hrange
    have hb := s.bound
    have hlen : s.len = s.data.length := rfl
    have hr := FdeLayout.reads_front (c := ⟨s, off, avma⟩) h hw ha
      (show l.entryEnd off < 2 ^ 64 by omega) hpc hrange
    exact ⟨_, _, _, hr.2, hle, hlt⟩
  · intro h
    obtain ⟨e, ⟨pc, range⟩, c', hr, hle, hlt⟩ := h
    obtain ⟨l, hw, ha, -, rfl, rfl, hpc, hrange⟩ := fdeFront_layout (c := ⟨s, off, avma⟩) h hr
    exact ⟨l, hw, Option.isSome_iff_exists.mpr ⟨pc, hpc⟩,
      Option.isSome_iff_exists.mpr ⟨range, hrange⟩, ha, hle, hlt⟩

theorem Safe.not_panic {p : Parse α} (h : Safe p) {c : Cursor} (hv : c.Valid) :
    (p c).1 ≠ .panic := by
  obtain ⟨r, n, he, -, hnp⟩ := h c hv
  rw [he]
  exact hnp

theorem cie_confined {s : Slice} {off : Nat} (h : off ≤ s.len) (avma : UInt64) :
    Confined s off ParsedCie.instrs (parseCie s off avma) ↔ ¬ CieOverruns s off avma := by
  let c : Cursor := ⟨s, off, avma⟩
  have hv : c.Valid := h
  rw [cieOverruns_iff h]
  refine confined_iff_header (c := c) (fun _ _ => rfl) (safe_cieHeader.not_panic hv) ?_
  intro hd c' hr
  obtain ⟨l, hw, ha, -, rfl, a, -, rfl⟩ := cieHeader_layout hv hr
  refine ⟨rfl, ?_⟩
  rw [declaredEnd_eq (Cursor.ahead_append.mp (Cursor.ahead_append.mp ha).1).1 hw.length]
  rfl

theorem safe_readLsda (config : FdeParseConfig) (pc : UInt64) : Safe (readLsda config pc) :=
  Safe.ite (safe_readEncoded _ _) (Safe.pure 0)

theorem fdeAugmentationData_bounded (config : FdeParseConfig) (pc : UInt64) (start stop : Nat)
    {c : Cursor} (hv : c.Valid) :
    ∃ r c', fdeAugmentationData config pc start stop c = (r, c') ∧ r ≠ .panic ∧
      (∀ v, r = .ok v → c'.bytes = c.bytes ∧ c'.pos = stop) := by
  unfold fdeAugmentationData
  obtain ⟨r, n, hr, hn, hnp⟩ := safe_readLsda config pc c hv
  cases r with
  | panic => exact absurd rfl hnp
  | err e => exact ⟨_, _, StateRes.bind_of_err hr, by simp, by simp⟩
  | ok lsda =>
    rw [StateRes.bind_of_ok hr,
      StateRes.bind_of_ok (cursor_apply (c.advance n))]
    by_cases hlt : stop < (c.advance n).pos
    · rw [if_pos hlt]
      exact ⟨_, _, rfl, by simp, by simp⟩
    · rw [if_neg hlt]
      exact ⟨_, _, rfl, by simp, fun _ _ => ⟨rfl, rfl⟩⟩

/-- With a `z`, the augmentation check keeps the position inside the entry. -/
theorem fdeAugmentation_bounded {config : FdeParseConfig} (e : Nat) (pc : UInt64) {c : Cursor}
    (hv : c.Valid) (hz : config.hasZ = true) :
    ∃ r c', fdeAugmentation config e pc c = (r, c') ∧ r ≠ .panic ∧
      (∀ v, r = .ok v → c'.bytes = c.bytes ∧ c'.pos ≤ e) := by
  unfold fdeAugmentation
  rw [if_pos hz]
  obtain ⟨r, n, hr, hn, hnp⟩ := safe_readUleb128 c hv
  cases r with
  | panic => exact absurd rfl hnp
  | err er => exact ⟨_, _, StateRes.bind_of_err hr, by simp, by simp⟩
  | ok len =>
    rw [StateRes.bind_of_ok hr,
      StateRes.bind_of_ok (cursor_apply (c.advance n))]
    cases checkedAdd (c.advance n).pos len.toNat with
    | none => exact ⟨_, _, rfl, by simp, by simp⟩
    | some stop =>
      by_cases hlt : e < stop
      · simp only [if_pos hlt]
        exact ⟨_, _, rfl, by simp, by simp⟩
      · simp only [if_neg hlt]
        obtain ⟨r, c', hrun, hnp, hok⟩ := fdeAugmentationData_bounded config pc
          (c.advance n).pos stop hn
        refine ⟨r, c', hrun, hnp, fun v hv => ?_⟩
        obtain ⟨hb, hpos⟩ := hok v hv
        exact ⟨hb, by omega⟩

/-- What the header of an FDE did: it read the front, and then the augmentation. -/
theorem fdeHeader_cases {config : FdeParseConfig} {c c' : Cursor} {hd : FdeHeader} (hv : c.Valid)
    (h : fdeHeader config c = (.ok hd, c')) :
    ∃ c₁, fdeFront config c = (.ok (hd.entryEnd, hd.initialPc, hd.addressRange), c₁) ∧ c₁.Valid ∧
      c₁.bytes = c.bytes ∧ fdeAugmentation config hd.entryEnd hd.initialPc c₁ = (.ok hd.lsda, c') := by
  obtain ⟨⟨e, pc, range⟩, c₁, hf, h⟩ := StateRes.bind_eq_ok.mp h
  obtain ⟨lsda, c₂, ha, h⟩ := StateRes.bind_eq_ok.mp h
  obtain ⟨hok, rfl⟩ := Prod.mk.inj h
  obtain rfl := Res.ok.inj hok
  obtain ⟨bs, -, rfl, hval⟩ := (safe_fdeFront config).reads hv hf
  exact ⟨_, hf, hval, rfl, ha⟩

theorem fdeHeader_not_panic {config : FdeParseConfig} {c : Cursor} (hv : c.Valid) :
    (fdeHeader config c).1 ≠ .panic := by
  unfold fdeHeader
  obtain ⟨r, n, hr, hn, hnp⟩ := safe_fdeFront config c hv
  cases r with
  | panic => exact absurd rfl hnp
  | err e =>
    rw [StateRes.bind_of_err hr]
    simp
  | ok p =>
    obtain ⟨e, pc, range⟩ := p
    rw [StateRes.bind_of_ok hr]
    have haug : ∃ r c', fdeAugmentation config e pc (c.advance n) = (r, c') ∧ r ≠ .panic := by
      by_cases hz : config.hasZ = true
      · obtain ⟨r, c', ha, hnp, -⟩ := fdeAugmentation_bounded e pc hn hz
        exact ⟨r, c', ha, hnp⟩
      · unfold fdeAugmentation
        rw [if_neg hz]
        exact ⟨_, _, rfl, by simp⟩
    obtain ⟨r, c', ha, hnp⟩ := haug
    cases r with
    | panic => exact absurd rfl hnp
    | err er =>
      simp only [StateRes.bind_of_err ha]
      simp
    | ok v =>
      simp only [StateRes.bind_of_ok ha]
      simp

theorem fdeAugmentation_absent {config : FdeParseConfig} {e : Nat} {pc : UInt64}
    (hz : config.hasZ = false) : fdeAugmentation config e pc = pure 0 := by
  unfold fdeAugmentation
  rw [if_neg (by simp [hz])]

/-- A header overruns its entry only without a `z`, and then the front does. -/
theorem fdeHeader_overruns {s : Slice} {off : Nat} (h : off ≤ s.len) (avma : UInt64)
    (config : FdeParseConfig) :
    (∃ hd c', fdeHeader config ⟨s, off, avma⟩ = (.ok hd, c') ∧ hd.entryEnd ≤ s.len ∧
      hd.entryEnd < c'.pos) ↔ config.hasZ = false ∧ FdeOverruns s off avma config := by
  rw [fdeOverruns_iff h]
  constructor
  · intro h
    obtain ⟨hd, c', hr, hle, hlt⟩ := h
    obtain ⟨c₁, hf, hval, -, ha⟩ := fdeHeader_cases (c := ⟨s, off, avma⟩) h hr
    by_cases hz : config.hasZ = true
    · obtain ⟨r, c₂, ha', -, hok⟩ := fdeAugmentation_bounded hd.entryEnd
        hd.initialPc hval hz
      obtain ⟨rfl, rfl⟩ := Prod.mk.inj (ha.symm.trans ha')
      obtain ⟨-, hpos⟩ := hok _ rfl
      omega
    · rw [Bool.not_eq_true] at hz
      rw [fdeAugmentation_absent hz] at ha
      obtain ⟨-, rfl⟩ := Prod.mk.inj ha
      exact ⟨hz, _, _, _, hf, hle, hlt⟩
  · intro h
    obtain ⟨hz, e, ⟨pc, range⟩, c', hf, hle, hlt⟩ := h
    refine ⟨⟨e, pc, range, 0⟩, c', ?_, hle, hlt⟩
    unfold fdeHeader
    rw [StateRes.bind_of_ok hf]
    simp only [fdeAugmentation_absent hz]
    rfl

theorem fde_confined {s : Slice} {off : Nat} (h : off ≤ s.len) (avma : UInt64)
    (config : FdeParseConfig) :
    Confined s off ParsedFde.instrs (parseFde s off avma config) ↔
      ¬ (config.hasZ = false ∧ FdeOverruns s off avma config) := by
  let c : Cursor := ⟨s, off, avma⟩
  have hv : c.Valid := h
  rw [← fdeHeader_overruns h]
  refine confined_iff_header (c := c) (fun _ _ => rfl) (fdeHeader_not_panic hv) ?_
  intro hd c' hr
  obtain ⟨c₁, hf, hval, hb, ha⟩ := fdeHeader_cases hv hr
  obtain ⟨l, hw, hahead, -, -, he, -⟩ := fdeFront_layout hv hf
  refine ⟨?_, ?_⟩
  · by_cases hz : config.hasZ = true
    · obtain ⟨r, c₂, ha', -, hok⟩ := fdeAugmentation_bounded hd.entryEnd
        hd.initialPc hval hz
      obtain ⟨rfl, rfl⟩ := Prod.mk.inj (ha.symm.trans ha')
      rw [(hok _ rfl).1, hb]
    · rw [Bool.not_eq_true] at hz
      rw [fdeAugmentation_absent hz] at ha
      obtain ⟨-, rfl⟩ := Prod.mk.inj ha
      exact hb
  · rw [he, declaredEnd_eq (Cursor.ahead_append.mp hahead).1 hw.length]
    rfl

/-- Both parsers keep to their entry unless a header, legal field by field,
runs past the end its own length field declares. -/
theorem parsers_confined_iff (s : Slice) (off : Nat) (h : off ≤ s.len) (avma : UInt64) :
    (Confined s off ParsedCie.instrs (parseCie s off avma) ↔ ¬ CieOverruns s off avma) ∧
    ∀ config : FdeParseConfig, Confined s off ParsedFde.instrs (parseFde s off avma config) ↔
      ¬ (config.hasZ = false ∧ FdeOverruns s off avma config) :=
  ⟨cie_confined h avma, fde_confined h avma⟩

/-- A CIE with one instruction byte behind its fields. -/
def plainCie : Slice := ⟨[10, 0, 0, 0, 0, 0, 0, 0, 1, 0, 1, 0x78, 16, 0], by decide⟩

/-- The parser is still inside the entry when it has read the fields. -/
theorem plainCie_inside : ¬ CieOverruns plainCie 0 0 := by
  rw [cieOverruns_iff (by decide)]
  rintro ⟨hd, c', hr, -, hlt⟩
  have hend : CieHeader.entryEnd <$> (cieHeader ⟨plainCie, 0, 0⟩).1 = .ok 14 := by decide +kernel
  have hpos : (cieHeader ⟨plainCie, 0, 0⟩).2.pos ≤ 14 := by decide +kernel
  rw [hr] at hend hpos
  have heq : hd.entryEnd = 14 := Res.ok.inj hend
  dsimp only at hpos
  omega

/-- An FDE with an empty augmentation block. -/
def plainFde : Slice :=
  ⟨[21, 0, 0, 0, 4, 0, 0, 0, 0, 16, 0, 0, 0, 0, 0, 0, 16, 0, 0, 0, 0, 0, 0, 0, 0], by decide⟩

theorem plainCie_confined : Confined plainCie 0 ParsedCie.instrs (parseCie plainCie 0 0) ∧
    Confined plainFde 0 ParsedFde.instrs
      (parseFde plainFde 0 0 ⟨DW_EH_PE_ABSPTR, DW_EH_PE_OMIT, true, 0, 0⟩) := by
  constructor
  · exact (parsers_confined_iff plainCie 0 (by decide) 0).1.mpr plainCie_inside
  · refine ((parsers_confined_iff plainFde 0 (by decide) 0).2 _).mpr ?_
    rintro ⟨hz, -⟩
    cases hz

/-- The same CIE with a length field of zero: its fields are all in the slice
and all legal, but behind the end of the entry. -/
def shortCie : Slice := ⟨[0, 0, 0, 0, 0, 0, 0, 0, 1, 0, 1, 0x78, 16, 0], by decide⟩

/-- An FDE with a length field of zero. -/
def shortFde : Slice :=
  ⟨[0, 0, 0, 0, 4, 0, 0, 0, 0, 16, 0, 0, 0, 0, 0, 0, 16, 0, 0, 0, 0, 0, 0, 0], by decide⟩

theorem short_entries_not_confined :
    ¬ Confined shortCie 0 ParsedCie.instrs (parseCie shortCie 0 0) ∧
    ¬ Confined shortFde 0 ParsedFde.instrs
      (parseFde shortFde 0 0 ⟨DW_EH_PE_ABSPTR, DW_EH_PE_OMIT, false, 0, 0⟩) :=
  ⟨fun h => h.1 (by decide +kernel), fun h => h.1 (by decide +kernel)⟩

end Unwinder.Dwarf
