import Unwinder.Dwarf.Encode
import Unwinder.FunctionDetails
import Unwinder.Proofs.Confinement

namespace Unwinder.Dwarf
open Lib

/-- The low bytes of a word, read as a signed number. -/
theorem low_bmod (v : UInt64) {w : Nat} (hw : 256 ^ w ∣ 2 ^ 64) :
    ((v.toNat % 256 ^ w : Nat) : Int).bmod (256 ^ w) = v.toInt64.toInt.bmod (256 ^ w) := by
  have hv : v.toInt64.toInt = (v.toNat : Int).bmod (2 ^ 64) := BitVec.toInt_eq_toNat_bmod _
  rw [hv, Int.bmod_bmod_of_dvd hw, Int.natCast_emod]
  exact Int.emod_bmod _ _

theorem toUInt64_eq {i : Int64} {v : UInt64} (h : i.toInt = v.toInt64.toInt) : i.toUInt64 = v := by
  rw [Int64.toInt.inj h, UInt64.toUInt64_toInt64]

theorem uleb_word {n : Nat} (h : n < 2 ^ 64) :
    IsLeb (ulebEncode n) ∧ (ulebEncode n).length ≤ 10 :=
  ⟨isLeb_ulebEncode n, ulebEncode_length_le (by omega)⟩

theorem sleb_word (i : Int64) :
    IsLeb (slebEncode i.toInt) ∧ (slebEncode i.toInt).length ≤ 10 := by
  have hmin := i.le_toInt
  have hmax := i.toInt_lt
  exact ⟨isLeb_slebEncode _, slebEncode_length_le (by omega) (by omega)⟩

theorem CieVersion.code_supported (v : CieVersion) : v.code = 1 ∨ v.code = 3 ∨ v.code = 4 := by
  cases v <;> decide

namespace Format

theorem shape_encode (f : Format) (v : UInt64) : f.Shape (f.encode v) := by
  cases f with
  | uleb128 => exact uleb_word v.toNat_lt
  | sleb128 => exact sleb_word v.toInt64
  | _ => exact leBytes_length _ _

theorem raw_sdata2 {v : UInt64} (h : Fits .sdata2 v) :
    (UInt16.ofNat (v.toNat % 256 ^ 2)).toInt16.toInt64.toUInt64 = v := by
  have hn : (UInt16.ofNat (v.toNat % 256 ^ 2)).toInt16 = Int16.ofNat (v.toNat % 256 ^ 2) := rfl
  apply toUInt64_eq
  rw [Int16.toInt_toInt64, hn, Int16.toInt_ofNat']
  rw [show Int16.size = 256 ^ 2 from rfl, low_bmod v (by decide)]
  exact Int.bmod_eq_of_le h.1 h.2

theorem raw_sdata4 {v : UInt64} (h : Fits .sdata4 v) :
    (UInt32.ofNat (v.toNat % 256 ^ 4)).toInt32.toInt64.toUInt64 = v := by
  have hn : (UInt32.ofNat (v.toNat % 256 ^ 4)).toInt32 = Int32.ofNat (v.toNat % 256 ^ 4) := rfl
  apply toUInt64_eq
  rw [Int32.toInt_toInt64, hn, Int32.toInt_ofNat']
  rw [show Int32.size = 256 ^ 4 from rfl, low_bmod v (by decide)]
  exact Int.bmod_eq_of_le h.1 h.2

/-- A value that fits comes back from its spelling. -/
theorem raw_encode {f : Format} {v : UInt64} (h : f.Fits v) : f.raw (f.encode v) = v := by
  have hword : leValue (leBytes 8 v.toNat) = v.toNat :=
    leValue_leBytes_of_lt (show v.toNat < 256 ^ 8 from v.toNat_lt)
  cases f with
  | uleb128 => simp [raw, encode, ulebValue_ulebEncode]
  | sleb128 => simp [raw, encode, slebValue_slebEncode]
  | sdata2 =>
    simp only [raw, encode, leValue_leBytes]
    exact raw_sdata2 h
  | sdata4 =>
    simp only [raw, encode, leValue_leBytes]
    exact raw_sdata4 h
  | udata2 => simp [raw, encode, leValue_leBytes_of_lt (show v.toNat < 256 ^ 2 from h)]
  | udata4 => simp [raw, encode, leValue_leBytes_of_lt (show v.toNat < 256 ^ 4 from h)]
  | _ => simp [raw, encode, hword]

end Format

/-- What the bits of a direct encoding say. -/
theorem Encoding.bits (e : Encoding) : e.byte ≠ DW_EH_PE_OMIT ∧ e.byte &&& DW_EH_PE_INDIRECT = 0 ∧
    Format.ofEnc e.byte = some e.format ∧ e.byte &&& DW_EH_PE_APP_MASK = e.application.code ∧
    e.byte &&& DW_EH_PE_FORMAT_MASK = (Encoding.mk e.format .absolute).byte := by
  obtain ⟨f, a⟩ := e
  cases f <;> cases a <;> decide

theorem Encoding.applied_byte (e : Encoding) (raw place : UInt64) (b : Bases) :
    applied e.byte raw place b = some (raw + e.application.base b place) := by
  unfold applied
  rw [e.bits.2.2.2.1]
  cases e.application <;> simp [Application.code, Application.base, DW_EH_PE_PCREL,
    DW_EH_PE_TEXTREL, DW_EH_PE_DATAREL, DW_EH_PE_FUNCREL]

/-- A spelled pointer stands for the address that its operand means. -/
theorem Encoding.pointerValue_encode (e : Encoding) {raw : UInt64} (h : e.format.Fits raw)
    (ok : Bool) (b : Bases) (place : UInt64) :
    pointerValue e.byte ok b place (e.format.encode raw) = some (e.pointer b place raw) := by
  obtain ⟨homit, hdirect, hformat, -⟩ := e.bits
  rw [pointerValue_eq homit (fun hc => hc.1 hdirect), hformat, Option.bind_some,
    if_pos (e.format.shape_encode raw), Format.raw_encode h, resolve, if_neg (not_not_intro hdirect),
    e.applied_byte, pointer]
  split <;> rfl

theorem Personality.indirect_bits (f : Format) (app : Fin 8) :
    let enc := f.code ||| UInt8.ofNat (16 * app.val) ||| DW_EH_PE_INDIRECT
    enc ≠ DW_EH_PE_OMIT ∧ enc &&& DW_EH_PE_INDIRECT ≠ 0 ∧ Format.ofEnc enc = some f := by
  cases f <;> revert app <;> decide

theorem Personality.pointerValue_operand (p : Personality) (place : UInt64) :
    pointerValue p.byte true ⟨0, 0, 0⟩ place p.operand = some (p.pointer place) := by
  cases p with
  | direct f pcrel raw fits =>
    exact (Personality.encoding f pcrel).pointerValue_encode fits true ⟨0, 0, 0⟩ place
  | indirect f app raw fits =>
    obtain ⟨homit, hind, hformat⟩ := Personality.indirect_bits f app
    rw [Personality.byte, Personality.operand, Personality.pointer,
      pointerValue_eq homit (fun hc => absurd hc.2 (by decide)), hformat, Option.bind_some,
      if_pos (f.shape_encode raw), resolve, if_pos hind]

namespace AugLetter

/-- What letters set on top of what is set already. -/
def settings (place : UInt64) (letters : List AugLetter) (a : Augmentation) : Augmentation where
  fdeEncoding := ((letters.findSome? fdeEncoding?).map Encoding.byte).getD a.fdeEncoding
  lsdaEncoding := ((letters.findSome? lsdaEncoding?).map lsdaByte).getD a.lsdaEncoding
  personality :=
    if letters.any (fun l => l.letter = 0x50) then personalityFrom place letters else a.personality
  signalFrame := a.signalFrame || letters.any (fun l => l.letter = 0x53)

theorem findSome_fdeEncoding {letters : List AugLetter} (h : 0x52 ∉ letters.map letter) :
    letters.findSome? fdeEncoding? = none := by
  rw [List.findSome?_eq_none_iff]
  intro l hl
  cases l with
  | fdeEncoding enc => exact absurd (List.mem_map_of_mem hl) h
  | _ => rfl

theorem findSome_lsdaEncoding {letters : List AugLetter} (h : 0x4c ∉ letters.map letter) :
    letters.findSome? lsdaEncoding? = none := by
  rw [List.findSome?_eq_none_iff]
  intro l hl
  cases l with
  | lsdaEncoding enc => exact absurd (List.mem_map_of_mem hl) h
  | _ => rfl

theorem any_letter {letters : List AugLetter} {ch : UInt8} (h : ch ∉ letters.map letter) :
    letters.any (fun l => l.letter = ch) = false := by
  rw [List.any_eq_false]
  intro l hl he
  exact h (of_decide_eq_true he ▸ List.mem_map_of_mem hl)

/-- What one letter sets. -/
def set (place : UInt64) (a : Augmentation) : AugLetter → Augmentation
  | fdeEncoding enc => { a with fdeEncoding := enc.byte }
  | lsdaEncoding enc => { a with lsdaEncoding := lsdaByte enc }
  | personality p => { a with personality := p.pointer (place + 1) }
  | signalFrame => { a with signalFrame := true }
  | ignoredB | ignoredG => a

theorem apply_item (l : AugLetter) (place : UInt64) (a : Augmentation) :
    l.item.apply place a = some (l.set place a) := by
  cases l with
  | personality p => simp only [item, AugItem.apply, p.pointerValue_operand, Option.map_some, set]
  | _ => rfl

/-- A letter that does not come again is not undone by the letters behind it. -/
theorem settings_cons {l : AugLetter} {rest : List AugLetter} (h : l.letter ∉ rest.map letter)
    (place : UInt64) (a : Augmentation) : settings place (l :: rest) a =
      settings (place + UInt64.ofNat l.bytes.length) rest (l.set place a) := by
  cases l with
  | fdeEncoding enc =>
    simp only [settings, List.findSome?_cons, fdeEncoding?, findSome_fdeEncoding h]
    rfl
  | lsdaEncoding enc =>
    simp only [settings, List.findSome?_cons, lsdaEncoding?, findSome_lsdaEncoding h]
    rfl
  | personality p =>
    have hnone : rest.any (fun l => l.letter = 0x50) = false := any_letter h
    simp only [settings, hnone]
    rfl
  | signalFrame =>
    obtain ⟨fde, lsda, personality, signal⟩ := a
    cases signal <;> rfl
  | ignoredB => rfl
  | ignoredG => rfl

/-- Distinct letters set each what it says. -/
theorem applyAll_items {letters : List AugLetter} (h : (letters.map letter).Nodup) (place : UInt64)
    (a : Augmentation) :
    AugItem.applyAll place (letters.map item) a = some (settings place letters a) := by
  induction letters generalizing place a with
  | nil => simp [AugItem.applyAll, settings]
  | cons l rest ih =>
    obtain ⟨hnew, hrest⟩ := List.nodup_cons.mp h
    rw [List.map_cons, AugItem.applyAll, l.apply_item, Option.bind_some, settings_cons hnew]
    exact ih hrest _ _

end AugLetter

/-- An entry that lies in the slice keeps behind its header the instructions
that are left of it. -/
theorem entryBody_ok {α η : Type} {header : Parse η} {entryEnd : η → Nat}
    {build : η → Nat × Nat → α} {c c' : Cursor} {h : η} {n : Nat} (hr : header c = (.ok h, c'))
    (hin : entryEnd h ≤ c'.bytes.len) (hn : c'.pos + n = entryEnd h) :
    (entryBody header entryEnd build c).1 = .ok (build h (c'.pos, n)) := by
  rw [entryBody_run hr, if_neg (by omega), if_pos (by omega), ← hn, Nat.add_sub_cancel_left]

namespace CieData

variable (d : CieData)

/-- The layout of the entry's bytes in front of its instructions. -/
def layout : CieLayout where
  wide := d.wide
  len := d.body.length
  version := d.version.code
  codeAlign := ulebEncode d.codeAlign.toNat
  dataAlign := slebEncode d.dataAlign.toInt
  retAddrColumn := d.column
  augmentation := d.augmentation.map (fun letters => (augSize letters, letters.map AugLetter.item))

theorem layout_augString : d.layout.augString = d.augString := by
  unfold CieLayout.augString layout augString
  cases d.augmentation with
  | none => rfl
  | some letters => simp [AugSpelling.string, AugLetter.letter, Function.comp_def]

theorem layout_augData : d.layout.augData = d.augData := by
  unfold CieLayout.augData layout augData
  cases d.augmentation with
  | none => rfl
  | some letters =>
    simp only [AugSpelling.data, Option.map_some, List.flatMap_map]
    rfl

theorem layout_addressSizes : d.layout.addressSizes = d.addressSizes := by
  unfold CieLayout.addressSizes layout addressSizes
  cases d.version <;> rfl

theorem layout_front : d.layout.front = lengthField d.wide d.body.length ++ d.fields := by
  rw [CieLayout.front, layout_augString, layout_addressSizes]
  rfl

theorem layout_bytes : d.layout.bytes ++ d.instrs = d.bytes := by
  rw [CieLayout.bytes, layout_front, layout_augData, bytes, body]
  simp only [List.append_assoc]

theorem column_shape : ColumnShape d.version.code d.column := by
  have hleb := uleb_word d.retAddrColumn.toNat_lt
  unfold ColumnShape column
  cases d.version with
  | v1 => rfl
  | v3 => exact hleb
  | v4 => exact hleb

theorem columnOf_column : columnOf d.version.code d.column = d.retAddrColumn := by
  have hfits := d.column_fits
  unfold columnOf column
  cases hv : d.version with
  | v1 =>
    have hlt := hfits hv
    apply UInt64.toNat_inj.mp
    simp [CieVersion.code]
    omega
  | v3 => simp [CieVersion.code, ulebValue_ulebEncode]
  | v4 => simp [CieVersion.code, ulebValue_ulebEncode]

/-- What the letters of the entry set in all. -/
def augmentationAt (avma : UInt64) : Augmentation :=
  ⟨d.fdeEncoding.byte, AugLetter.lsdaByte d.lsdaEncoding, d.personality avma, d.signalFrame⟩

theorem personalityFrom_absent {letters : List AugLetter} {place : UInt64}
    (h : letters.any (fun l => l.letter = 0x50) = false) :
    AugLetter.personalityFrom place letters = 0 := by
  induction letters generalizing place with
  | nil => rfl
  | cons l rest ih =>
    rw [List.any_cons, Bool.or_eq_false_iff] at h
    cases l with
    | personality p => exact absurd h.1 Bool.true_eq_false.mp
    | _ => exact ih h.2

theorem settings_initial (place : UInt64) (letters : List AugLetter) :
    AugLetter.settings place letters initialAugmentation =
      ⟨((letters.findSome? AugLetter.fdeEncoding?).getD ⟨.absptr, .absolute⟩).byte,
        AugLetter.lsdaByte ((letters.findSome? AugLetter.lsdaEncoding?).getD none),
        AugLetter.personalityFrom place letters, letters.any (fun l => l.letter = 0x53)⟩ := by
  have hpers : (if letters.any (fun l => l.letter = 0x50) then
      AugLetter.personalityFrom place letters else 0) = AugLetter.personalityFrom place letters := by
    cases h : letters.any (fun l => l.letter = 0x50) with
    | true => rfl
    | false => exact (personalityFrom_absent h).symm
  have hfde : ∀ o : Option Encoding, (o.map Encoding.byte).getD DW_EH_PE_ABSPTR =
      (o.getD ⟨.absptr, .absolute⟩).byte := fun o => by cases o <;> rfl
  have hlsda : ∀ o : Option (Option Encoding), (o.map AugLetter.lsdaByte).getD DW_EH_PE_OMIT =
      AugLetter.lsdaByte (o.getD none) := fun o => by cases o <;> rfl
  unfold AugLetter.settings initialAugmentation
  simp only [hpers, hfde, hlsda, Bool.false_or]

theorem layout_settings (avma : UInt64) :
    d.layout.settings avma = some (d.augmentationAt avma) := by
  have hdist := d.distinct
  rw [CieLayout.settings, layout_front, List.length_append]
  unfold layout augmentationAt fdeEncoding lsdaEncoding signalFrame personality letters
  cases ha : d.augmentation with
  | none => rfl
  | some letters =>
    simp only [Option.map_some, AugSpelling.settings, Option.getD_some]
    rw [AugLetter.applyAll_items (hdist letters ha), settings_initial]
    simp only [UInt64.ofNat_add, UInt64.add_assoc]

theorem layout_wellFormed (h : LengthFits d.wide d.body.length) (hb : d.bytes.length < 2 ^ 63) :
    d.layout.WellFormed where
  length := h
  version := d.version.code_supported
  codeAlign := uleb_word d.codeAlign.toNat_lt
  dataAlign := sleb_word d.dataAlign
  column := d.column_shape
  augLen := by
    intro p hp
    obtain ⟨letters, hl, rfl⟩ := Option.map_eq_some_iff.mp hp
    apply uleb_word
    simp only [bytes, body, augData, hl, List.length_append] at hb
    omega

theorem bytes_length : d.bytes.length = (lengthField d.wide d.body.length).length + d.body.length :=
  List.length_append

theorem layout_entryEnd (off : Nat) : d.layout.entryEnd off = off + d.bytes.length := by
  rw [bytes_length, ← Nat.add_assoc]
  rfl

/-- The header that is read holds the values of the entry. -/
theorem layout_header (off : Nat) (a : Augmentation) : d.layout.header off a =
    ⟨off + d.bytes.length, d.codeAlign, d.dataAlign, d.retAddrColumn, d.augmentation.isSome, a⟩ := by
  have hcode : UInt64.ofNat (ulebValue (ulebEncode d.codeAlign.toNat)) = d.codeAlign := by
    rw [ulebValue_ulebEncode, UInt64.ofNat_toNat]
  have hdata : Int64.ofInt (slebValue (slebEncode d.dataAlign.toInt)) = d.dataAlign := by
    rw [slebValue_slebEncode, Int64.ofInt_toInt]
  unfold CieLayout.header
  rw [d.layout_entryEnd, CieHeader.mk.injEq]
  refine ⟨rfl, hcode, hdata, d.columnOf_column, ?_, rfl⟩
  exact Option.isSome_map

variable {d} {s : Slice} {off : Nat} {tl : List UInt8}

/-- A serialised CIE is read back as its value, wherever it stands. -/
theorem parse_bytes (hoff : off ≤ s.len) (hs : s.data.drop off = d.bytes ++ tl)
    (h : LengthFits d.wide d.body.length) (avma : UInt64) :
    parseCie s off avma = .ok (d.parsed avma off) := by
  let c : Cursor := ⟨s, off, avma⟩
  have hv : c.Valid := hoff
  have hb := s.bound
  have hl : s.len = s.data.length := rfl
  have hlen := congrArg List.length hs
  rw [List.length_drop, List.length_append] at hlen
  have hsplit := congrArg List.length d.layout_bytes
  rw [List.length_append] at hsplit
  have ha : c.Ahead d.layout.bytes := by
    refine Cursor.ahead_of_rest (show c.rest = _ ++ (d.instrs ++ tl) from ?_)
    rw [← List.append_assoc, d.layout_bytes]
    exact hs
  have hr := CieLayout.reads_header hv (d.layout_wellFormed h (by omega)) ha
    (by rw [d.layout_entryEnd]; change off + _ < _; omega) (d.layout_settings c.currentAvma)
  rw [d.layout_header] at hr
  change (cieBody c).1 = _
  rw [cieBody_eq, entryBody_ok hr.2 (show off + d.bytes.length ≤ s.len by omega)
    (show off + d.layout.bytes.length + d.instrs.length = off + d.bytes.length by omega)]
  have hstart : off + d.layout.bytes.length = off + d.bytes.length - d.instrs.length := by omega
  change Res.ok _ = Res.ok _
  unfold parsed
  rw [← hstart]
  rfl

end CieData

theorem fdeAugmentationData_run {config : FdeParseConfig} {pc v : UInt64} {c : Cursor}
    {lsda padding : List UInt8} (hr : Reads (readLsda config pc) c lsda v) (start : Nat) :
    fdeAugmentationData config pc start (c.pos + (lsda ++ padding).length) c =
      (.ok v, c.advance (lsda ++ padding).length) := by
  unfold fdeAugmentationData
  rw [StateRes.bind_of_ok hr.2, StateRes.bind_of_ok (reads_cursor _).2, if_neg]
  · rfl
  · rw [Cursor.advance_pos, List.length_append]
    omega

/-- The augmentation data of an FDE: the size is read, then the LSDA, and the
padding is skipped. -/
theorem fdeAugmentation_run {config : FdeParseConfig} {e : Nat} {pc v : UInt64} {c : Cursor}
    {lsda padding : List UInt8} (hv : c.Valid) (hz : config.hasZ = true)
    (ha : c.Ahead (ulebEncode (lsda ++ padding).length ++ (lsda ++ padding)))
    (hr : Reads (readLsda config pc)
      (c.advance (ulebEncode (lsda ++ padding).length).length) lsda v)
    (he : c.pos + (ulebEncode (lsda ++ padding).length ++ (lsda ++ padding)).length ≤ e) :
    fdeAugmentation config e pc c =
      (.ok v, c.advance (ulebEncode (lsda ++ padding).length ++ (lsda ++ padding)).length) := by
  obtain ⟨hsize, hdata⟩ := Cursor.ahead_append.mp ha
  have v1 := hsize.valid hv
  have hfit := (hdata.valid v1).pos_lt
  simp only [Cursor.advance_pos] at hfit
  have hlt : (lsda ++ padding).length < 2 ^ 64 := by omega
  have hn : (UInt64.ofNat (ulebValue (ulebEncode (lsda ++ padding).length))).toNat =
      (lsda ++ padding).length := by
    rw [ulebValue_ulebEncode, UInt64.toNat_ofNat_of_lt' hlt]
  have r1 := (reads_uleb hv).mpr ⟨hsize, uleb_word hlt, rfl⟩
  unfold fdeAugmentation
  rw [if_pos hz, StateRes.bind_of_ok r1.2, StateRes.bind_of_ok (reads_cursor _).2, hn, checkedAdd,
    if_pos (by rw [Cursor.advance_pos]; omega)]
  rw [List.length_append] at he
  dsimp only
  rw [if_neg (by rw [Cursor.advance_pos]; omega), Cursor.advance_append]
  exact fdeAugmentationData_run hr _

namespace EntryPair

variable {p : EntryPair} {m : ModuleData} {s : Slice} {tl : List UInt8}

def layout (p : EntryPair) (m : ModuleData) : FdeLayout where
  wide := p.fde.wide
  len := (p.fdeBody m).length
  ciePtr := p.ciePtr
  initialPc := p.pcBytes m
  addressRange := p.rangeBytes

theorem lengthField_length (wide : Bool) (n : Nat) : (lengthField wide n).length = lengthWidth wide := by
  unfold lengthField lengthWidth
  cases wide <;> simp

theorem layout_wellFormed (h : p.Representable m) : (p.layout m).WellFormed := by
  refine ⟨h.fdeLength, ?_, h.ciePtr⟩
  change 0 < p.ciePtr
  unfold ciePtr lengthWidth
  split <;> omega

theorem layout_pcAvma (p : EntryPair) (m : ModuleData) :
    (p.layout m).pcAvma (m.ehFrameAvma + UInt64.ofNat p.fdeOffset) =
      m.ehFrameAvma + UInt64.ofNat p.pcOffset := by
  unfold FdeLayout.pcAvma layout pcOffset
  simp only [lengthField_length, idField, leBytes_length, UInt64.ofNat_add, UInt64.add_assoc]

theorem layout_pcValue (h : p.Representable m) :
    (p.layout m).pcValue (p.config m) (m.ehFrameAvma + UInt64.ofNat p.fdeOffset) =
      some p.fde.initialPc := by
  rw [FdeLayout.pcValue, layout_pcAvma]
  refine (p.cie.fdeEncoding.pointerValue_encode h.pc false _ _).trans ?_
  rw [Encoding.pointer, if_neg h.pc_ne]
  exact congrArg some (UInt64.sub_add_cancel _ _)

theorem layout_rangeValue (h : p.Representable m) :
    (p.layout m).rangeValue (p.config m) = some p.fde.addressRange := by
  rw [FdeLayout.rangeValue, config, p.cie.fdeEncoding.bits.2.2.2.2]
  refine (Encoding.pointerValue_encode ⟨p.cie.fdeEncoding.format, .absolute⟩ h.range false _ _).trans ?_
  unfold Encoding.pointer Application.base
  split
  · next hz => rw [hz]
  · rw [UInt64.add_zero]

theorem layout_bytes (p : EntryPair) (m : ModuleData) :
    (p.layout m).bytes ++ (p.augData ++ p.fde.instrs) = p.fdeBytes m := by
  have hfront : (p.layout m).bytes =
      lengthField p.fde.wide (p.fdeBody m).length ++ p.fdeFields m := rfl
  rw [hfront, List.append_assoc]
  rfl

theorem layout_entryEnd (p : EntryPair) (m : ModuleData) (off : Nat) :
    (p.layout m).entryEnd off = off + (p.fdeBytes m).length := by
  unfold fdeBytes
  rw [List.length_append, ← Nat.add_assoc]
  rfl

/-- The LSDA operand is read as the pointer that it stands for. -/
theorem reads_lsda (h : p.Representable m) {c : Cursor} (hv : c.Valid) (ha : c.Ahead p.lsdaBytes)
    (hc : c.currentAvma = p.lsdaPlace m) :
    Reads (readLsda (p.config m) p.fde.initialPc) c p.lsdaBytes (p.lsda m) := by
  have hfits := h.lsda
  have henc : (p.config m).lsdaEncoding = AugLetter.lsdaByte p.cie.lsdaEncoding := rfl
  unfold readLsda
  rw [henc]
  unfold lsdaBytes at ha ⊢
  unfold lsda
  cases hl : p.cie.lsdaEncoding with
  | none => exact reads_return.mpr ⟨rfl, rfl⟩
  | some enc =>
    rw [hl] at ha
    rw [AugLetter.lsdaByte, if_pos enc.bits.1]
    refine (reads_readEncodedImpl hv).mpr ⟨ha, ?_⟩
    rw [hc]
    exact enc.pointerValue_encode (hfits enc hl) false _ _

theorem augmentation_run (h : p.Representable m) {c : Cursor} (hv : c.Valid) {e : Nat}
    (hc : c.currentAvma =
      m.ehFrameAvma + UInt64.ofNat (p.pcOffset + (p.pcBytes m).length + p.rangeBytes.length))
    (ha : c.Ahead p.augData) (he : c.pos + p.augData.length ≤ e) :
    fdeAugmentation (p.config m) e p.fde.initialPc c =
      (.ok (p.lsda m), c.advance p.augData.length) := by
  have hz : (p.config m).hasZ = p.cie.augmentation.isSome := rfl
  cases hl : p.cie.augmentation with
  | none =>
    have hlsda : p.lsda m = 0 := by
      simp only [lsda, CieData.lsdaEncoding, CieData.letters, hl]
      rfl
    have hdata : p.augData = [] := by simp only [augData, hl]
    rw [hlsda, hdata, fdeAugmentation_absent (by rw [hz, hl]; rfl)]
    rfl
  | some letters =>
    have hdata : p.augData = p.augSize ++ (p.lsdaBytes ++ p.fde.padding) := by
      simp only [augData, hl]
    rw [hdata] at ha he ⊢
    obtain ⟨hsize, hrest⟩ := Cursor.ahead_append.mp ha
    have hread := p.reads_lsda h (hsize.valid hv) (Cursor.ahead_append.mp hrest).1
      (by rw [Cursor.currentAvma_advance, hc, lsdaPlace]
          simp only [UInt64.ofNat_add, UInt64.add_assoc])
    exact fdeAugmentation_run hv (by rw [hz, hl]; rfl) ha hread he

theorem layout_length (p : EntryPair) (m : ModuleData) : (p.layout m).bytes.length =
    lengthWidth p.fde.wide + (idWidth p.fde.wide + ((p.pcBytes m).length + p.rangeBytes.length)) := by
  simp only [FdeLayout.bytes, layout, List.length_append, lengthField_length, idField,
    leBytes_length]

/-- The front of the entry and its augmentation data, read one behind the other. -/
theorem fdeHeader_run (h : p.Representable m) {c : Cursor} (hv : c.Valid)
    (hc : c.pos = p.fdeOffset) (hb : c.avmaBase = m.ehFrameAvma)
    (hr : c.rest = p.fdeBytes m ++ tl) :
    fdeHeader (p.config m) c = (.ok ⟨p.fdeOffset + (p.fdeBytes m).length, p.fde.initialPc,
      p.fde.addressRange, p.lsda m⟩, c.advance ((p.layout m).bytes ++ p.augData).length) := by
  have hlen := congrArg List.length (p.layout_bytes m)
  simp only [List.length_append] at hlen
  have hrest := congrArg List.length hr
  rw [List.length_append] at hrest
  have hend := c.rest_length hv
  have hbound := c.bytes.bound
  have hbytes : c.bytes.len = c.bytes.data.length := rfl
  have havma : c.currentAvma = m.ehFrameAvma + UInt64.ofNat p.fdeOffset := by
    rw [Cursor.currentAvma, hc, hb]
  rw [← p.layout_bytes m, List.append_assoc, List.append_assoc] at hr
  have hahead : c.Ahead ((p.layout m).bytes ++ p.augData) :=
    Cursor.ahead_of_rest (hr.trans (List.append_assoc _ _ _).symm)
  obtain ⟨hfront, haug⟩ := Cursor.ahead_append.mp hahead
  have r1 := FdeLayout.reads_front hv (layout_wellFormed h) hfront
    (by rw [layout_entryEnd]; omega)
    (by rw [havma]; exact layout_pcValue h) (layout_rangeValue h)
  rw [layout_entryEnd, hc] at r1
  have r2 := p.augmentation_run h (r1.valid hv) (e := p.fdeOffset + (p.fdeBytes m).length)
    (by rw [Cursor.currentAvma_advance, havma, layout_length, pcOffset]
        simp only [UInt64.ofNat_add, UInt64.add_assoc]) haug
    (by rw [Cursor.advance_pos, hc]; omega)
  unfold fdeHeader
  rw [StateRes.bind_of_ok r1.2]
  simp only [StateRes.bind_of_ok r2, Cursor.advance_append]
  rfl

theorem bytes_drop_cie (p : EntryPair) (m : ModuleData) :
    (p.bytes m).drop p.cieOffset = p.cie.bytes ++ (p.between ++ (p.fdeBytes m ++ p.after)) :=
  List.drop_left

theorem bytes_drop_fde (p : EntryPair) (m : ModuleData) :
    (p.bytes m).drop p.fdeOffset = p.fdeBytes m ++ p.after := by
  have hsplit : p.bytes m = (p.before ++ (p.cie.bytes ++ p.between)) ++ (p.fdeBytes m ++ p.after) := by
    simp only [bytes, List.append_assoc]
  have hoff : p.fdeOffset = (p.before ++ (p.cie.bytes ++ p.between)).length := by
    simp only [fdeOffset, List.length_append, Nat.add_assoc]
  rw [hsplit, hoff, List.drop_left]

theorem bytes_length (p : EntryPair) (m : ModuleData) : (p.bytes m).length =
    p.fdeOffset + (p.fdeBytes m).length + p.after.length := by
  simp only [bytes, fdeOffset, List.length_append]
  omega

theorem parse_cie (h : p.Representable m) :
    parseCie (p.ehFrame h) p.cieOffset m.ehFrameAvma = .ok (p.parsedCie m) := by
  refine CieData.parse_bytes ?_ (p.bytes_drop_cie m) h.cieLength m.ehFrameAvma
  have hlen : (p.ehFrame h).len = (p.bytes m).length := rfl
  rw [hlen, bytes_length, cieOffset, fdeOffset]
  omega

theorem parse_fde (h : p.Representable m) :
    parseFde (p.ehFrame h) p.fdeOffset m.ehFrameAvma (p.config m) = .ok (p.parsedFde m) := by
  let c : Cursor := ⟨p.ehFrame h, p.fdeOffset, m.ehFrameAvma⟩
  have hslen : (p.ehFrame h).len = p.fdeOffset + (p.fdeBytes m).length + p.after.length :=
    p.bytes_length m
  have hv : c.Valid := by
    change p.fdeOffset ≤ (p.ehFrame h).len
    omega
  have hlen := congrArg List.length (p.layout_bytes m)
  simp only [List.length_append] at hlen
  have hr := fdeHeader_run h hv rfl rfl (p.bytes_drop_fde m)
  change (Dwarf.fdeBody (p.config m) c).1 = _
  rw [fdeBody_eq, entryBody_ok hr (show p.fdeOffset + (p.fdeBytes m).length ≤ (p.ehFrame h).len by omega)
    (show p.fdeOffset + ((p.layout m).bytes ++ p.augData).length + p.fde.instrs.length =
      p.fdeOffset + (p.fdeBytes m).length by rw [List.length_append]; omega)]
  have hstart : p.fdeOffset + ((p.layout m).bytes ++ p.augData).length =
      p.fdeOffset + (p.fdeBytes m).length - p.fde.instrs.length := by
    rw [List.length_append]
    omega
  change Res.ok _ = Res.ok _
  unfold parsedFde
  rw [← hstart]
  rfl

theorem get?_of_drop {s : Slice} {off : Nat} {xs tl : List UInt8} (hoff : off ≤ s.len)
    (h : s.data.drop off = xs ++ tl) : s.get? off (off + xs.length) = some xs := by
  have hlen := congrArg List.length h
  rw [List.length_drop, List.length_append] at hlen
  have hl : s.len = s.data.length := rfl
  rw [Slice.get?, if_pos (by omega), h, Nat.add_sub_cancel_left, List.take_left]

/-- The instructions are the last bytes of their entry. -/
theorem get?_instrs {s : Slice} {off : Nat} {front instrs entry tl : List UInt8}
    (hoff : off ≤ s.len) (he : front ++ instrs = entry) (h : s.data.drop off = entry ++ tl) :
    s.get? (off + entry.length - instrs.length)
      (off + entry.length - instrs.length + instrs.length) = some instrs := by
  subst he
  have hstart : off + (front ++ instrs).length - instrs.length = off + front.length := by
    rw [List.length_append]
    omega
  have hlen := congrArg List.length h
  simp only [List.length_drop, List.length_append] at hlen
  have hl : s.len = s.data.length := rfl
  have hnext := congrArg (List.drop front.length) h
  rw [List.drop_drop, List.append_assoc, List.drop_left] at hnext
  rw [hstart]
  exact get?_of_drop (by omega) hnext

/-- The length field tells where the CIE pointer is and how wide. -/
theorem ciePtrPlace_eq {wide : Bool} {len off : Nat} {xs ys : List UInt8}
    (h : LengthParts wide len xs ys) (hoff : off < 2 ^ 63) :
    ciePtrPlace off (UInt32.ofNat (leValue xs)) = .ok (off + lengthWidth wide, idWidth wide) := by
  have hlt := leValue_lt xs
  rw [h.first] at hlt
  have hmark : UInt32.ofNat (leValue xs) = 0xffffffff ↔ wide = true := by
    rw [h.mark, ← UInt32.toNat_inj, UInt32.toNat_ofNat_of_lt' (by simpa using hlt)]
    rfl
  unfold ciePtrPlace
  cases wide with
  | true =>
    rw [if_pos (hmark.mpr rfl), usizeAdd_of_lt (by omega)]
    rfl
  | false =>
    rw [if_neg (fun he => by cases hmark.mp he), usizeAdd_of_lt (by omega)]
    rfl

/-- The CIE pointer is subtracted from the place where it stands. -/
theorem cieOffsetOf_fields {name : String} {s : Slice} {off len ptr : Nat} {wide : Bool}
    {tl : List UInt8} (hoff : off ≤ s.len) (hlen : LengthFits wide len)
    (hptr : ptr < 256 ^ idWidth wide)
    (h : s.data.drop off = lengthField wide len ++ (idField wide ptr ++ tl)) :
    cieOffsetOf name s off =
      if ptr ≤ off + lengthWidth wide then .ok (off + lengthWidth wide - ptr)
      else .err (.ciePointerUnderflow name (off + lengthWidth wide) (UInt64.ofNat ptr)) := by
  obtain ⟨xs, ys, hxy, hparts⟩ := lengthParts_iff.mpr ⟨rfl, hlen⟩
  have hbound : s.len < 2 ^ 63 := s.bound
  have hid : idWidth wide = (idField wide ptr).length := (leBytes_length _ _).symm
  have htotal : off + lengthWidth wide + idWidth wide ≤ s.len := by
    have hl := congrArg List.length h
    have hs : s.len = s.data.length := rfl
    rw [List.length_drop, List.length_append, List.length_append, lengthField_length, ← hid] at hl
    have hw : 0 < lengthWidth wide := by cases wide <;> decide
    omega
  have hfirst : s.get? off (off + 4) = some xs := by
    rw [hxy, List.append_assoc] at h
    rw [← hparts.first]
    exact get?_of_drop hoff h
  have hfield : s.get? (off + lengthWidth wide) (off + lengthWidth wide + idWidth wide) =
      some (idField wide ptr) := by
    have hnext := congrArg (List.drop (lengthWidth wide)) h
    rw [List.drop_drop, ← lengthField_length wide len, List.drop_left, lengthField_length] at hnext
    rw [hid]
    exact get?_of_drop (by omega) hnext
  have hval : leValue (idField wide ptr) = ptr := leValue_leBytes_of_lt hptr
  unfold cieOffsetOf
  rw [usizeAdd_of_lt (by omega), Res.ok_bind, hfirst, Res.ofOption_some, Res.ok_bind,
    ciePtrPlace_eq hparts (by omega), Res.ok_bind]
  dsimp only
  rw [usizeAdd_of_lt (by omega), Res.ok_bind, hfield, Res.ofOption_some, Res.ok_bind, hval]

/-- The CIE pointer leads back to the CIE. -/
theorem cieOffsetOf_fde (h : p.Representable m) :
    cieOffsetOf m.name (p.ehFrame h) p.fdeOffset = .ok p.cieOffset := by
  have hslen : (p.ehFrame h).len = p.fdeOffset + (p.fdeBytes m).length + p.after.length :=
    p.bytes_length m
  have hdrop : (p.ehFrame h).data.drop p.fdeOffset = lengthField p.fde.wide (p.fdeBody m).length ++
      (idField p.fde.wide p.ciePtr ++ ((p.pcBytes m ++ p.rangeBytes) ++ (p.augData ++ p.fde.instrs) ++
        p.after)) := by
    refine (p.bytes_drop_fde m).trans ?_
    simp only [fdeBytes, fdeBody, fdeFields, List.append_assoc]
  rw [cieOffsetOf_fields (by omega) h.fdeLength h.ciePtr hdrop, if_pos]
  · unfold fdeOffset ciePtr cieOffset
    congr 1
    omega
  · unfold fdeOffset ciePtr
    omega

/-- Decoding undoes encoding: the entries of a serialised pair are read back as
their values and found from each other, and the reported instruction ranges
hold the instructions. -/
theorem parse_pair (h : p.Representable m) :
    parseCie (p.ehFrame h) p.cieOffset m.ehFrameAvma = .ok (p.parsedCie m) ∧
    parseFde (p.ehFrame h) p.fdeOffset m.ehFrameAvma (p.config m) = .ok (p.parsedFde m) ∧
    cieOffsetOf m.name (p.ehFrame h) p.fdeOffset = .ok p.cieOffset ∧
    parseEntries m (p.ehFrame h) p.fdeOffset = .ok (p.parsedCie m, p.parsedFde m) ∧
    (p.ehFrame h).get? (p.parsedCie m).cieInstrOffsetInEhFrame
      ((p.parsedCie m).cieInstrOffsetInEhFrame + (p.parsedCie m).cieInstrLen) =
        some p.cie.instrs ∧
    (p.ehFrame h).get? (p.parsedFde m).fdeInstrOffsetInEhFrame
      ((p.parsedFde m).fdeInstrOffsetInEhFrame + (p.parsedFde m).fdeInstrLen) =
        some p.fde.instrs := by
  have hslen : (p.ehFrame h).len = p.fdeOffset + (p.fdeBytes m).length + p.after.length :=
    p.bytes_length m
  have hcie : p.cieOffset ≤ p.fdeOffset := by
    unfold cieOffset fdeOffset
    omega
  refine ⟨parse_cie h, parse_fde h, cieOffsetOf_fde h, ?_, ?_, ?_⟩
  · unfold parseEntries
    rw [cieOffsetOf_fde h, Res.ok_bind, parse_cie h, Res.mapErr_ok, Res.ok_bind]
    change ((parseFde (p.ehFrame h) p.fdeOffset m.ehFrameAvma (p.config m)).mapErr _ >>= _) = _
    rw [parse_fde h]
    rfl
  · exact get?_instrs (by omega) p.cie.layout_bytes (p.bytes_drop_cie m)
  · have hfront : ((p.layout m).bytes ++ p.augData) ++ p.fde.instrs = p.fdeBytes m := by
      rw [← p.layout_bytes m, List.append_assoc]
    exact get?_instrs (by omega) hfront (p.bytes_drop_fde m)

/-- A 64-bit CIE with five letters and a 32-bit FDE that refers back to it over
a gap, with a padded LSDA. -/
def sample : EntryPair where
  before := [0xaa]
  cie :=
    { wide := true
      version := .v4
      codeAlign := 300
      dataAlign := -8
      retAddrColumn := 16
      augmentation := some [.personality (.indirect .sdata4 1 0x40 (by decide)),
        .lsdaEncoding (some ⟨.uleb128, .pcrel⟩), .signalFrame, .ignoredB,
        .fdeEncoding ⟨.sdata4, .pcrel⟩]
      instrs := [0x0c, 7, 8]
      column_fits := by decide
      distinct := by
        intro letters h
        obtain rfl := Option.some.inj h
        decide }
  between := [1, 2, 3]
  fde := ⟨false, 0x1000, 0x200, 0x90, [0, 0], [0x41]⟩
  after := []

def sampleModule : ModuleData :=
  { ModuleData.fallbackOnly "sample" ⟨0x1000, 0x2000⟩ 0x1000 0 with ehFrameAvma := 0x7000 }

theorem sample_representable : sample.Representable sampleModule where
  cieLength := by decide +kernel
  fdeLength := by decide +kernel
  ciePtr := by decide +kernel
  pc := by decide +kernel
  pc_ne := by decide +kernel
  range := by decide +kernel
  lsda := by
    intro enc henc
    obtain rfl := Option.some.inj (show some ⟨.uleb128, .pcrel⟩ = some enc from henc)
    decide
  size := by decide +kernel

theorem sample_parsed : parseEntries sampleModule (ehFrame sample_representable) sample.fdeOffset =
    .ok (⟨300, -8, 16, 0x1b, 0x11, 0, true, true, 43, 3⟩,
      ⟨0x1000, 0x200, 70, 1, 0x70d2⟩) :=
  (parse_pair sample_representable).2.2.2.1.trans (by decide +kernel)

end EntryPair

end Unwinder.Dwarf
