import Unwinder.Lib.Related
import Unwinder.Proofs.CfiBytes
import Unwinder.Proofs.Pointers

namespace Unwinder
open Lib Dwarf

namespace Dwarf

/-- The same place in the same bytes, which are loaded `d` further up. -/
def Cursor.Slid (d : UInt64) (c c' : Cursor) : Prop := c' = { c with avmaBase := c.avmaBase + d }

/-- Two routines do the same on bytes and on the same bytes loaded `d` further up. -/
abbrev Relocates {α β : Type} (d : UInt64) (V : α → β → Prop) (x : Parse α) (y : Parse β) : Prop :=
  StateRes.Related (Cursor.Slid d) V x y

variable {α β : Type} {d : UInt64}

theorem Cursor.Slid.currentAvma {c c' : Cursor} (h : Cursor.Slid d c c') :
    c'.currentAvma = c.currentAvma + d := by
  obtain rfl := h
  unfold Cursor.currentAvma
  dsimp only
  rw [UInt64.add_assoc, UInt64.add_comm d, ← UInt64.add_assoc]

theorem relocates_cursor : Relocates d (Cursor.Slid d) cursor cursor :=
  fun c c' h => .inl ⟨c, c', c, c', rfl, rfl, h, h⟩

theorem relocates_setPos (pos : Nat) : Relocates d Eq (setPos pos) (setPos pos) := by
  intro c c' h
  obtain rfl := h
  exact .inl ⟨(), (), _, _, rfl, rfl, rfl, rfl⟩

theorem relocates_failAt {V : α → β → Prop} (off off' : Nat) (kind kind' : DwarfParseErrorKind) :
    Relocates d V (failAt off kind) (failAt off' kind') :=
  .lift (.err _ _)

theorem relocates_fail {V : α → β → Prop} (kind kind' : DwarfParseErrorKind) :
    Relocates d V (fail kind) (fail kind') :=
  relocates_cursor.bind (fun _ _ _ => relocates_failAt _ _ _ _)

theorem relocates_failBefore {V : α → β → Prop} (n : Nat) (kind : DwarfParseErrorKind) :
    Relocates d V (failBefore n kind) (failBefore n kind) :=
  relocates_cursor.bind (fun _ _ _ => relocates_failAt _ _ _ _)

theorem relocates_lift (r : Res DwarfParseError α) :
    Relocates d Eq (StateRes.lift r) (StateRes.lift r) :=
  .lift (.refl r)

/-- A step behind the cursor that only looks at its bytes and its position. -/
theorem relocates_at {V : α → β → Prop} {f : Cursor → Parse α} {g : Cursor → Parse β}
    (h : ∀ c : Cursor, Relocates d V (f c) (g { c with avmaBase := c.avmaBase + d })) :
    Relocates d V (cursor >>= f) (cursor >>= g) := by
  refine relocates_cursor.bind ?_
  intro c c' hc
  obtain rfl := hc
  exact h c

/-- A step behind a routine that returns the same on both sides. -/
theorem relocates_then {γ : Type} {V : α → β → Prop} {x : Parse γ} (hx : Relocates d Eq x x)
    {f : γ → Parse α} {g : γ → Parse β} (h : ∀ c, Relocates d V (f c) (g c)) :
    Relocates d V (x >>= f) (x >>= g) := by
  refine StateRes.Related.bind hx ?_
  intro a b hab
  obtain rfl := hab
  exact h a

theorem relocates_map {γ : Type} {x : Parse γ} (hx : Relocates d Eq x x) (f : γ → α) :
    Relocates d Eq (f <$> x) (f <$> x) :=
  hx.map (fun _ _ h => congrArg f h)

theorem relocates_readU8 : Relocates d Eq readU8 readU8 := by
  unfold readU8
  refine relocates_at ?_
  intro c
  dsimp only
  cases c.bytes.data[c.pos]? with
  | none => exact relocates_then (relocates_lift _) (fun _ => relocates_fail _ _)
  | some v =>
    refine relocates_then (relocates_lift _) ?_
    intro pos
    exact relocates_then (relocates_setPos pos) (fun _ => .pure rfl)

theorem relocates_readFixed (width : Nat) : Relocates d Eq (readFixed width) (readFixed width) := by
  unfold readFixed
  refine relocates_at ?_
  intro c
  refine relocates_then (relocates_lift _) ?_
  intro stop
  dsimp only
  cases c.bytes.get? c.pos stop with
  | none => exact relocates_fail _ _
  | some slice => exact relocates_then (relocates_setPos stop) (fun _ => .pure rfl)

theorem relocates_readU16 : Relocates d Eq readU16 readU16 := relocates_map (relocates_readFixed 2) _

theorem relocates_readU32 : Relocates d Eq readU32 readU32 := relocates_map (relocates_readFixed 4) _

theorem relocates_readU64 : Relocates d Eq readU64 readU64 := relocates_map (relocates_readFixed 8) _

theorem relocates_lebLoop (finish : UInt64 → UInt8 → Nat → Res DwarfParseError α) (result : UInt64)
    (shift : Nat) : Relocates d Eq (lebLoop finish result shift) (lebLoop finish result shift) := by
  fun_induction lebLoop finish result shift with
  | case1 result shift ih =>
    refine relocates_then relocates_readU8 ?_
    intro byte
    refine relocates_then (relocates_lift _) ?_
    intro part
    dsimp only
    split
    · exact relocates_lift _
    · split
      · exact relocates_fail _ _
      · next hlt => exact ih _ (by omega)

theorem relocates_readUleb128 : Relocates d Eq readUleb128 readUleb128 := relocates_lebLoop _ _ _

theorem relocates_readSleb128 : Relocates d Eq readSleb128 readSleb128 := relocates_lebLoop _ _ _

theorem relocates_format (f : Format) : Relocates d Eq f.read f.read := by
  cases f with
  | absptr => exact relocates_readU64
  | udata8 => exact relocates_readU64
  | udata2 => exact relocates_map relocates_readU16 _
  | udata4 => exact relocates_map relocates_readU32 _
  | sdata2 => exact relocates_map relocates_readU16 _
  | sdata4 => exact relocates_map relocates_readU32 _
  | sdata8 => exact relocates_map relocates_readU64 _
  | uleb128 => exact relocates_readUleb128
  | sleb128 => exact relocates_map relocates_readSleb128 _

theorem relocates_readRaw (enc : UInt8) :
    Relocates d Eq (readRaw enc (enc &&& ~~~DW_EH_PE_INDIRECT))
      (readRaw enc (enc &&& ~~~DW_EH_PE_INDIRECT)) := by
  rw [readRaw_eq]
  split
  · exact relocates_format _
  · exact relocates_fail _ _

/-- Whether an encoding's base can be applied does not depend on the bases. -/
theorem relocates_applyBase (enc directEnc : UInt8) (raw pcrel pcrel' : UInt64) (b b' : Bases) :
    Relocates d (fun _ _ => True) (applyBase enc directEnc raw pcrel b)
      (applyBase enc directEnc raw pcrel' b') := by
  unfold applyBase
  dsimp only
  refine .ite (.pure trivial) (.ite (.pure trivial) (.ite (.pure trivial) ?_))
  refine .ite (.pure trivial) (.ite (.pure trivial) (.ite ?_ ?_))
  · exact relocates_fail _ _
  · exact relocates_fail _ _

/-- Pointers are read in the same places, whatever they then point to. -/
theorem relocates_readEncodedImpl (enc : UInt8) (b b' : Bases) (ok : Bool) :
    Relocates d (fun _ _ => True) (readEncodedImpl enc b ok) (readEncodedImpl enc b' ok) := by
  unfold readEncodedImpl
  refine .ite (relocates_fail _ _) (.ite (relocates_fail _ _) (relocates_at ?_))
  intro c
  refine relocates_then (relocates_readRaw enc) ?_
  intro raw
  exact .ite (.pure trivial) (.ite (.pure trivial) (relocates_applyBase _ _ _ _ _ _ _))

theorem relocates_checkedAdd (a b : Nat) (kind : DwarfParseErrorKind) :
    Relocates d Eq (orFail kind (checkedAdd a b)) (orFail kind (checkedAdd a b)) := by
  cases checkedAdd a b with
  | none => exact relocates_fail _ _
  | some v => exact .pure rfl

theorem relocates_readEntryLength : Relocates d Eq readEntryLength readEntryLength := by
  unfold readEntryLength
  refine relocates_then relocates_readU32 ?_
  intro len32
  dsimp only
  refine relocates_then ?_ ?_
  · unfold readEntryLen
    exact .ite (relocates_map relocates_readU64 _) (.pure rfl)
  · intro entryLen
    refine relocates_then ?_ (fun _ => .pure rfl)
    exact relocates_at (fun c => relocates_checkedAdd c.pos entryLen _)

theorem relocates_readEntryId (isDwarf64 : Bool) :
    Relocates d Eq (readEntryId isDwarf64) (readEntryId isDwarf64) := by
  unfold readEntryId
  exact .ite relocates_readU64 (relocates_map relocates_readU32 _)

theorem relocates_readCieId (isDwarf64 : Bool) :
    Relocates d Eq (readCieId isDwarf64) (readCieId isDwarf64) := by
  unfold readCieId
  refine relocates_at ?_
  intro c
  refine relocates_then (relocates_readEntryId isDwarf64) ?_
  intro cieId
  exact .ite (relocates_failAt _ _ _ _) (.pure rfl)

theorem relocates_readCiePointer (isDwarf64 : Bool) :
    Relocates d Eq (readCiePointer isDwarf64) (readCiePointer isDwarf64) := by
  unfold readCiePointer
  refine relocates_at ?_
  intro c
  refine relocates_then (relocates_readEntryId isDwarf64) ?_
  intro ciePtr
  exact .ite (relocates_failAt _ _ _ _) (.pure rfl)

theorem relocates_readVersion : Relocates d Eq readVersion readVersion := by
  unfold readVersion
  refine relocates_then relocates_readU8 ?_
  intro version
  exact .ite (relocates_failBefore _ _) (.pure rfl)

theorem relocates_readAugmentation : Relocates d Eq readAugmentation readAugmentation := by
  unfold readAugmentation
  refine relocates_at ?_
  intro c
  refine .ite (relocates_lift _) ?_
  dsimp only
  cases (c.bytes.data.drop c.pos).findIdx? (· = 0) with
  | none => exact relocates_failAt _ _ _ _
  | some n =>
    refine relocates_then (relocates_lift _) ?_
    intro augEnd
    refine relocates_then (relocates_lift _) ?_
    intro pos
    exact relocates_then (relocates_setPos pos) (fun _ => .pure rfl)

theorem relocates_readAddressSizes (version : UInt8) :
    Relocates d Eq (readAddressSizes version) (readAddressSizes version) := by
  unfold readAddressSizes
  refine .ite (relocates_then relocates_readU8 ?_) (.pure rfl)
  intro addressSize
  refine relocates_then relocates_readU8 ?_
  intro segmentSize
  exact .ite (relocates_failBefore _ _) (.pure rfl)

theorem relocates_readReturnColumn (version : UInt8) :
    Relocates d Eq (readReturnColumn version) (readReturnColumn version) := by
  unfold readReturnColumn
  exact .ite (relocates_map relocates_readU8 _) relocates_readUleb128

theorem relocates_instrRange (entryEnd : Nat) :
    Relocates d Eq (instrRange entryEnd) (instrRange entryEnd) := by
  unfold instrRange
  refine relocates_at ?_
  intro c
  exact .ite (relocates_fail _ _) (relocates_then (relocates_lift _) (fun _ => .pure rfl))

/-- Equal but for the personality routine, an address. -/
def Augmentation.Alike (a a' : Augmentation) : Prop := ∃ p, a' = { a with personality := p }

theorem relocates_readAugmentationLetter (ch : UInt8) {a a' : Augmentation} (h : a.Alike a') :
    Relocates d Augmentation.Alike (readAugmentationLetter ch a) (readAugmentationLetter ch a') := by
  obtain ⟨p, rfl⟩ := h
  unfold readAugmentationLetter
  refine .ite ?_ (.ite ?_ (.ite ?_ (.ite ?_ (.ite ?_ ?_))))
  · refine relocates_readU8.map ?_
    intro enc enc' he
    exact ⟨p, by rw [he]⟩
  · refine relocates_readU8.map ?_
    intro enc enc' he
    exact ⟨p, by rw [he]⟩
  · refine relocates_then relocates_readU8 ?_
    intro enc
    refine StateRes.Related.bind (relocates_readEncodedImpl enc _ _ true) ?_
    intro q q' _
    exact .pure ⟨q', rfl⟩
  · exact .pure ⟨p, rfl⟩
  · exact .pure ⟨p, rfl⟩
  · exact relocates_fail _ _

theorem relocates_readAugmentationLetters (letters : List UInt8) {a a' : Augmentation}
    (h : a.Alike a') : Relocates d Augmentation.Alike (readAugmentationLetters letters a)
      (readAugmentationLetters letters a') := by
  induction letters generalizing a a' with
  | nil => exact .pure h
  | cons ch rest ih =>
    exact StateRes.Related.bind (relocates_readAugmentationLetter ch h) (fun _ _ hb => ih hb)

theorem relocates_cieAugmentation (start : Nat) (aug : List UInt8) :
    Relocates d (fun a a' => a.1 = a'.1 ∧ a.2.Alike a'.2) (cieAugmentation start aug)
      (cieAugmentation start aug) := by
  cases aug with
  | nil => exact .pure ⟨rfl, 0, rfl⟩
  | cons ch letters =>
    unfold cieAugmentation
    refine .ite (relocates_then relocates_readUleb128 ?_) (relocates_failAt _ _ _ _)
    intro len
    have hself : initialAugmentation.Alike initialAugmentation := ⟨0, rfl⟩
    refine StateRes.Related.bind (relocates_readAugmentationLetters letters hself) ?_
    intro a a' ha
    exact .pure ⟨rfl, ha⟩

def ParsedCie.Alike (cie cie' : ParsedCie) : Prop := ∃ p, cie' = { cie with personality := p }

theorem relocates_cieHeader :
    Relocates d (fun h h' => ∃ p, h' = { h with augmentation := { h.augmentation with personality := p } })
      cieHeader cieHeader := by
  unfold cieHeader
  refine relocates_then relocates_readEntryLength ?_
  intro (isDwarf64, entryEnd)
  refine relocates_then (relocates_readCieId isDwarf64) (fun _ => ?_)
  refine relocates_then relocates_readVersion (fun version => relocates_at (fun c => ?_))
  refine relocates_then relocates_readAugmentation (fun aug => ?_)
  refine relocates_then (relocates_readAddressSizes version) (fun _ => ?_)
  refine relocates_then relocates_readUleb128 (fun codeAlign => ?_)
  refine relocates_then relocates_readSleb128 (fun dataAlign => ?_)
  refine relocates_then (relocates_readReturnColumn version) (fun retAddrColumn => ?_)
  refine StateRes.Related.bind (relocates_cieAugmentation c.pos aug) ?_
  intro (hasZ, a) (hasZ', a') ha
  obtain ⟨rfl, p, rfl⟩ := ha
  exact .pure ⟨p, rfl⟩

theorem relocates_cieBody : Relocates d ParsedCie.Alike cieBody cieBody := by
  unfold cieBody
  refine relocates_cieHeader.bind ?_
  intro h h' hh
  obtain ⟨p, rfl⟩ := hh
  exact relocates_then (relocates_instrRange h.entryEnd) (fun _ => .pure ⟨p, rfl⟩)

/-- The configuration of the same CIE in a module that is loaded `d` further up. -/
def FdeParseConfig.slide (config : FdeParseConfig) (d : UInt64) : FdeParseConfig :=
  { config with textBase := config.textBase + d, dataBase := config.dataBase + d }

theorem bare_app (enc : UInt8) :
    enc &&& DW_EH_PE_FORMAT_MASK &&& ~~~DW_EH_PE_INDIRECT &&& DW_EH_PE_APP_MASK = 0 := by
  cases enc with | ofBitVec v => revert v; decide +kernel

/-- The length of a function is no address: it is read the same everywhere. -/
theorem relocates_addressRange (enc : UInt8) (b : Bases) :
    Relocates d Eq (readEncoded (enc &&& DW_EH_PE_FORMAT_MASK) b)
      (readEncoded (enc &&& DW_EH_PE_FORMAT_MASK) b) := by
  unfold readEncoded readEncodedImpl
  refine .ite (relocates_fail _ _) (.ite (relocates_fail _ _) (relocates_at ?_))
  intro c
  refine relocates_then (relocates_readRaw _) ?_
  intro raw
  refine .ite (.pure rfl) (.ite (.pure rfl) ?_)
  unfold applyBase
  rw [if_pos (bare_app enc), if_pos (bare_app enc)]
  exact .pure rfl

theorem relocates_fdeFront (config : FdeParseConfig) :
    Relocates d (fun f f' => f.1 = f'.1 ∧ f.2.2 = f'.2.2) (fdeFront config)
      (fdeFront (config.slide d)) := by
  unfold fdeFront
  refine relocates_then relocates_readEntryLength ?_
  intro (isDwarf64, entryEnd)
  refine relocates_then (relocates_readCiePointer isDwarf64) (fun _ => ?_)
  refine StateRes.Related.bind (relocates_readEncodedImpl config.fdeEncoding _ _ false) ?_
  intro pc pc' _
  exact relocates_then (relocates_addressRange config.fdeEncoding _) (fun _ => .pure ⟨rfl, rfl⟩)

theorem relocates_readLsda (config : FdeParseConfig) (pc pc' : UInt64) :
    Relocates d (fun _ _ => True) (readLsda config pc) (readLsda (config.slide d) pc') := by
  unfold readLsda
  exact .ite (relocates_readEncodedImpl _ _ _ false) (.pure trivial)

theorem relocates_fdeAugmentation (config : FdeParseConfig) (entryEnd : Nat) (pc pc' : UInt64) :
    Relocates d (fun _ _ => True) (fdeAugmentation config entryEnd pc)
      (fdeAugmentation (config.slide d) entryEnd pc') := by
  unfold fdeAugmentation
  refine .ite (relocates_then relocates_readUleb128 (fun len => relocates_at (fun c => ?_)))
    (.pure trivial)
  dsimp only
  cases checkedAdd c.pos len.toNat with
  | none => exact relocates_failAt _ _ _ _
  | some stop =>
    refine .ite (relocates_failAt _ _ _ _) ?_
    unfold fdeAugmentationData
    refine StateRes.Related.bind (relocates_readLsda config pc pc') ?_
    intro lsda lsda' _
    refine relocates_at (fun c' => .ite (relocates_failAt _ _ _ _) ?_)
    exact relocates_then (relocates_setPos stop) (fun _ => .pure trivial)

/-- Equal but for the addresses of the function and of its language-specific data. -/
def ParsedFde.Alike (fde fde' : ParsedFde) : Prop :=
  ∃ pc lsda, fde' = { fde with initialPc := pc, lsda := lsda }

theorem relocates_fdeBody (config : FdeParseConfig) :
    Relocates d ParsedFde.Alike (fdeBody config) (fdeBody (config.slide d)) := by
  unfold fdeBody fdeHeader
  refine StateRes.Related.bind (V := fun h h' => ∃ pc lsda,
    h' = { h with initialPc := pc, lsda := lsda }) ?_ ?_
  · refine StateRes.Related.bind (relocates_fdeFront config) ?_
    intro (e, pc, r) (e', pc', r') hf
    obtain ⟨rfl, rfl⟩ := hf
    refine StateRes.Related.bind (relocates_fdeAugmentation config e pc pc') ?_
    intro lsda lsda' _
    exact .pure ⟨pc', lsda', rfl⟩
  · intro h h' hh
    obtain ⟨pc, lsda, rfl⟩ := hh
    exact relocates_then (relocates_instrRange h.entryEnd) (fun _ => .pure ⟨pc, lsda, rfl⟩)

/-- The fields in front of the initial location of an FDE. -/
def skipToInitial : Parse Unit := do
  let (isDwarf64, _) ← readEntryLength
  readCiePointer isDwarf64

/-- The initial location as its bytes give it, before any base is added. -/
def initialRaw (enc : UInt8) : Parse UInt64 := do
  skipToInitial
  readRaw enc (enc &&& ~~~DW_EH_PE_INDIRECT)

theorem relocates_skipToInitial : Relocates d Eq skipToInitial skipToInitial :=
  relocates_then relocates_readEntryLength (fun p => relocates_readCiePointer p.1)

/-- The base that the encoding names moves with the module. -/
def RelativeEncoding (enc : UInt8) : Prop :=
  enc &&& DW_EH_PE_APP_MASK = DW_EH_PE_PCREL ∨ enc &&& DW_EH_PE_APP_MASK = DW_EH_PE_TEXTREL ∨
    enc &&& DW_EH_PE_APP_MASK = DW_EH_PE_DATAREL

theorem applied_slide {enc : UInt8} {raw pcrel v v' : UInt64} {b b' : Bases}
    (henc : RelativeEncoding enc) (htext : b'.text = b.text + d) (hdata : b'.data = b.data + d)
    (h : applied enc raw pcrel b = some v) (h' : applied enc raw (pcrel + d) b' = some v') :
    v' = v + d := by
  unfold applied at h h'
  dsimp only at h h'
  rcases henc with he | he | he
  · rw [he] at h h'
    obtain rfl := Option.some.inj h
    obtain rfl := Option.some.inj h'
    exact (UInt64.add_assoc _ _ _).symm
  · rw [he] at h h'
    obtain rfl := Option.some.inj h
    obtain rfl := Option.some.inj h'
    rw [htext, UInt64.add_assoc]
  · rw [he] at h h'
    obtain rfl := Option.some.inj h
    obtain rfl := Option.some.inj h'
    rw [hdata, UInt64.add_assoc]

/-- A returned pointer other than zero has its base applied to the operand. -/
theorem readEncoded_applied {enc : UInt8} {b : Bases} {c c' : Cursor} {v : UInt64}
    (h : readEncoded enc b c = (.ok v, c')) :
    ∃ raw, readRaw enc (enc &&& ~~~DW_EH_PE_INDIRECT) c = (.ok raw, c') ∧
      (raw ≠ 0 → applied enc raw c.currentAvma b = some v) := by
  have homit : enc ≠ DW_EH_PE_OMIT := by
    intro he
    unfold readEncoded readEncodedImpl at h
    rw [if_pos he] at h
    cases h
  have hdirect : ¬ (enc &&& DW_EH_PE_INDIRECT ≠ 0 ∧ false = false) := by
    intro hi
    unfold readEncoded readEncodedImpl at h
    rw [if_neg homit, if_pos (by simpa using hi.1)] at h
    cases h
  unfold readEncoded at h
  rw [readEncodedImpl_eq homit hdirect, StateRes.bind_of_ok (cursor_apply c), ← readRaw_eq] at h
  obtain ⟨raw, c₁, hraw, h⟩ := StateRes.bind_eq_ok.mp h
  cases hres : resolve enc raw c.currentAvma b with
  | none =>
    rw [hres] at h
    cases h
  | some w =>
    rw [hres] at h
    obtain ⟨hw, rfl⟩ := Prod.mk.inj h
    obtain rfl := Res.ok.inj hw
    refine ⟨raw, hraw, ?_⟩
    intro hne
    unfold resolve at hres
    rwa [if_neg (fun hi => hdirect ⟨hi, rfl⟩), if_neg hne] at hres

theorem fdeFront_initial {config : FdeParseConfig} {c t : Cursor} {f : Nat × UInt64 × UInt64}
    (h : fdeFront config c = (.ok f, t)) : ∃ c₁ c₂, skipToInitial c = (.ok (), c₁) ∧
      readEncoded config.fdeEncoding ⟨config.textBase, config.dataBase, 0⟩ c₁ = (.ok f.2.1, c₂) := by
  unfold fdeFront at h
  obtain ⟨⟨isDwarf64, entryEnd⟩, c₀, hlen, h⟩ := StateRes.bind_eq_ok.mp h
  obtain ⟨u, c₁, hptr, h⟩ := StateRes.bind_eq_ok.mp h
  obtain ⟨pc, c₂, hpc, h⟩ := StateRes.bind_eq_ok.mp h
  obtain ⟨r, c₃, -, h⟩ := StateRes.bind_eq_ok.mp h
  cases h
  exact ⟨c₁, c₂, (StateRes.bind_of_ok hlen).trans hptr, hpc⟩

/-- The initial location of a relative encoding moves with the module. -/
theorem fdeFront_slide {config : FdeParseConfig} {c c' t t' : Cursor} {f f' : Nat × UInt64 × UInt64}
    (hc : Cursor.Slid d c c') (h : fdeFront config c = (.ok f, t))
    (h' : fdeFront (config.slide d) c' = (.ok f', t')) (henc : RelativeEncoding config.fdeEncoding)
    (hraw : ∀ raw, (initialRaw config.fdeEncoding c).1 = .ok raw → raw ≠ 0) :
    f'.2.1 = f.2.1 + d := by
  obtain ⟨c₁, c₂, hskip, hpc⟩ := fdeFront_initial h
  obtain ⟨c₁', c₂', hskip', hpc'⟩ := fdeFront_initial h'
  obtain ⟨raw, hread, happ⟩ := readEncoded_applied hpc
  obtain ⟨raw', hread', happ'⟩ := readEncoded_applied hpc'
  have hslid : Cursor.Slid d c₁ c₁' := relocates_skipToInitial.state hc hskip hskip'
  have hsame : raw = raw' :=
    ((relocates_readRaw config.fdeEncoding).run hslid).value (congrArg Prod.fst hread)
      (congrArg Prod.fst hread')
  have hne : raw ≠ 0 := by
    refine hraw raw ?_
    rw [initialRaw, StateRes.bind_of_ok hskip, hread]
  subst hsame
  have hv := happ' hne
  rw [hslid.currentAvma] at hv
  exact applied_slide henc rfl rfl (happ hne) hv

theorem fdeBody_front {config : FdeParseConfig} {c : Cursor} {fde : ParsedFde}
    (h : (fdeBody config c).1 = .ok fde) :
    ∃ f t, fdeFront config c = (.ok f, t) ∧ fde.initialPc = f.2.1 := by
  unfold fdeBody fdeHeader at h
  obtain ⟨hd, c₁, hhd, h⟩ := StateRes.bind_eq_ok.mp (Prod.ext h rfl)
  obtain ⟨f, t, hf, hhd⟩ := StateRes.bind_eq_ok.mp hhd
  obtain ⟨lsda, t', -, hhd⟩ := StateRes.bind_eq_ok.mp hhd
  obtain ⟨range, t'', -, h⟩ := StateRes.bind_eq_ok.mp h
  cases hhd
  obtain ⟨h, -⟩ := Prod.mk.inj h
  obtain rfl := Res.ok.inj h
  exact ⟨f, t, hf, rfl⟩

variable {s : Slice} {off : Nat} {avma : UInt64}

theorem parseCie_slide (s : Slice) (off : Nat) (avma d : UInt64) :
    Res.Related ParsedCie.Alike (parseCie s off avma) (parseCie s off (avma + d)) :=
  relocates_cieBody.run rfl

theorem parseFde_slide (s : Slice) (off : Nat) (avma d : UInt64) (config : FdeParseConfig) :
    Res.Related ParsedFde.Alike (parseFde s off avma config)
      (parseFde s off (avma + d) (config.slide d)) :=
  (relocates_fdeBody config).run rfl

theorem parseFde_initial {config : FdeParseConfig} {fde fde' : ParsedFde}
    (h : parseFde s off avma config = .ok fde)
    (h' : parseFde s off (avma + d) (config.slide d) = .ok fde')
    (henc : RelativeEncoding config.fdeEncoding)
    (hraw : ∀ raw, (initialRaw config.fdeEncoding ⟨s, off, avma⟩).1 = .ok raw → raw ≠ 0) :
    fde'.initialPc = fde.initialPc + d := by
  obtain ⟨f, t, hf, hpc⟩ := fdeBody_front h
  obtain ⟨f', t', hf', hpc'⟩ := fdeBody_front h'
  rw [hpc, hpc']
  exact fdeFront_slide rfl hf hf' henc hraw

end Dwarf

namespace EhFrameTable

/-- The same table, whose entries are relative to an address `d` further up. -/
def rebase (t : EhFrameTable) (d : UInt64) : EhFrameTable :=
  { t with ehFrameHdrAvma := t.ehFrameHdrAvma + d }

variable {t : EhFrameTable} {hdr : Slice} {d : UInt64}

theorem parseTable_rebase (hdr : Slice) (tableEnc : UInt8) (cursor : Nat) (count avma d : UInt64) :
    parseTable hdr tableEnc cursor count (avma + d) =
      (parseTable hdr tableEnc cursor count avma).map (rebase · d) := by
  unfold parseTable
  dsimp only
  split
  · rfl
  · split <;> rfl

theorem parseCount_rebase (hdr : Slice) (countEnc tableEnc : UInt8) (cursor : Nat) (avma d : UInt64) :
    parseCount hdr countEnc tableEnc cursor (avma + d) =
      (parseCount hdr countEnc tableEnc cursor avma).map (rebase · d) := by
  unfold parseCount
  split
  · exact parseTable_rebase _ _ _ _ _ _
  · split <;> rfl

/-- The header is read the same wherever it is loaded. -/
theorem parse_rebase (hdr : Slice) (avma d : UInt64) :
    parse hdr (avma + d) = (parse hdr avma).map (rebase · d) := by
  unfold parse
  split
  · split
    · rfl
    · split
      · rfl
      · split
        · rfl
        · exact parseCount_rebase _ _ _ _ _ _
  · rfl

theorem pcAt_rebase (t : EhFrameTable) (hdr : Slice) (d : UInt64) (i : Nat) :
    (t.rebase d).pcAt hdr i = t.pcAt hdr i + d := by
  unfold pcAt rebase
  rw [UInt64.add_assoc, UInt64.add_comm d, ← UInt64.add_assoc]

theorem fdeAt_rebase (t : EhFrameTable) (hdr : Slice) (d : UInt64) (i : Nat) :
    (t.rebase d).fdeAt hdr i = t.fdeAt hdr i + d := by
  unfold fdeAt rebase
  rw [UInt64.add_assoc, UInt64.add_comm d, ← UInt64.add_assoc]

/-- Both searches of a table that slides select the same entry. -/
theorem lookup_rebase {ε : Type} {δ : Int} {ip : UInt64}
    (hfit : t.tableDataOffset.toNat + t.count * 8 ≤ hdr.len) (hip : Slides δ ip)
    (hpcs : ∀ i < t.count, Slides δ (t.pcAt hdr i)) :
    (t.rebase (UInt64.ofInt δ)).lookup hdr (ip + UInt64.ofInt δ) =
      (t.lookup hdr ip).bind (fun hit => (.ok (hit.map (fun p =>
        (p.1 + UInt64.ofInt δ, p.2 + UInt64.ofInt δ))) : Res ε _)) := by
  by_cases hpos : 0 < t.count
  · have hfit' : (t.rebase (UInt64.ofInt δ)).tableDataOffset.toNat +
        (t.rebase (UInt64.ofInt δ)).count * 8 ≤ hdr.len := hfit
    rw [lookup_eq hfit hpos, lookup_eq hfit' hpos]
    have hlo : lastIndex (fun i => (t.rebase (UInt64.ofInt δ)).pcAt hdr i ≤ ip + UInt64.ofInt δ) 0
        t.count = lastIndex (fun i => t.pcAt hdr i ≤ ip) 0 t.count := by
      refine lastIndex_congr ?_
      intro i hi
      rw [pcAt_rebase, decide_eq_decide]
      exact (hpcs i hi).le_iff hip
    have hlt := lastIndex_lt (fun i => decide (t.pcAt hdr i ≤ ip)) hpos
    change Res.ok _ = Res.ok _
    rw [show (t.rebase (UInt64.ofInt δ)).count = t.count from rfl, hlo]
    generalize lastIndex (fun i => decide (t.pcAt hdr i ≤ ip)) 0 t.count = lo at hlt ⊢
    rw [pcAt_rebase, fdeAt_rebase]
    simp only [← not_le, (hpcs lo hlt).le_iff hip]
    split <;> rfl
  · have hzero : t.entryCount = 0 := UInt64.toNat.inj (Nat.eq_zero_of_not_pos hpos)
    unfold lookup
    rw [if_pos hzero, if_pos (show (t.rebase _).entryCount = 0 from hzero)]
    rfl

end EhFrameTable

/-- The same sections in a module that is loaded at another address. -/
def ModuleParts.relocated (p : ModuleParts) (δ : Int) : ModuleParts :=
  { p with
    baseAvma := p.baseAvma + UInt64.ofInt δ
    avmaRange := ⟨p.avmaRange.start + UInt64.ofInt δ, p.avmaRange.stop + UInt64.ofInt δ⟩ }

/-- What a module with both sections has in common with its relocated copy. -/
structure Moved (d : UInt64) (m m' : ModuleData) : Prop where
  name : m'.name = m.name
  ehFrameLocal : m'.ehFrameLocal = m.ehFrameLocal
  ehFrameHdrLocal : m'.ehFrameHdrLocal = m.ehFrameHdrLocal
  table : m'.table = m.table.rebase d
  ehFrameAvma : m'.ehFrameAvma = m.ehFrameAvma + d
  textBase : m'.textBase = m.textBase + d
  dataBase : m'.dataBase = m.dataBase + d

theorem loadedSection_moved (slide d : UInt64) (b : Option Buffer) (svma : Option AddrRange) :
    loadedSection (slide + d) b svma =
      (loadedSection slide b svma).map (fun s => (s.1 + d, s.2)) := by
  cases b with
  | none => rfl
  | some b =>
    cases svma with
    | none => rfl
    | some svma =>
      simp only [loadedSection, Option.map_some]
      rw [UInt64.add_assoc]

theorem hdrTable_moved (avma d : UInt64) (b : Buffer) :
    (hdrTable (some (avma + d, b))).1 = (hdrTable (some (avma, b))).1.rebase d := by
  simp only [hdrTable, EhFrameTable.parse_rebase]
  cases EhFrameTable.parse b.bytes avma <;> rfl

theorem ModuleParts.relocated_slide (p : ModuleParts) (δ : Int) :
    (p.relocated δ).slide = p.slide + UInt64.ofInt δ := by
  unfold ModuleParts.slide ModuleParts.relocated
  dsimp only
  rw [UInt64.sub_eq_add_neg, UInt64.sub_eq_add_neg, UInt64.add_assoc, UInt64.add_assoc,
    UInt64.add_comm (UInt64.ofInt δ)]

section Module

variable {p : ModuleParts} {name name' : Nat} {δ : Int}

theorem relocated_ehFrameLocal (p : ModuleParts) (name name' : Nat) (δ : Int) :
    (ModuleData.fromParts (p.relocated δ) name').ehFrameLocal =
      (ModuleData.fromParts p name).ehFrameLocal := by
  simp only [ModuleData.fromParts, ModuleParts.relocated_slide, loadedSection_moved]
  simp only [ModuleParts.relocated, Option.map_map]
  rfl

theorem relocated_ehFrameHdrLocal (p : ModuleParts) (name name' : Nat) (δ : Int) :
    (ModuleData.fromParts (p.relocated δ) name').ehFrameHdrLocal =
      (ModuleData.fromParts p name).ehFrameHdrLocal := by
  simp only [ModuleData.fromParts, ModuleParts.relocated_slide, loadedSection_moved]
  simp only [ModuleParts.relocated, Option.map_map]
  rfl

/-- Every base of a module with both sections moves with it. -/
theorem fromParts_moved {hdr ehFrame : Buffer}
    (hframe : (ModuleData.fromParts p name).ehFrameLocal = some ehFrame)
    (hhdr : (ModuleData.fromParts p name).ehFrameHdrLocal = some hdr) :
    Moved (UInt64.ofInt δ) (ModuleData.fromParts p name)
      (ModuleData.fromParts (p.relocated δ) name') := by
  obtain ⟨⟨avma, b⟩, hload, -⟩ := Option.map_eq_some_iff.mp hhdr
  obtain ⟨⟨avma', b'⟩, hload', -⟩ := Option.map_eq_some_iff.mp hframe
  have hslid := loadedSection_moved p.slide (UInt64.ofInt δ) p.ehFrameHdr p.ehFrameHdrSvma
  have hslid' := loadedSection_moved p.slide (UInt64.ofInt δ) p.ehFrame p.ehFrameSvma
  rw [hload, Option.map_some, ← p.relocated_slide] at hslid
  rw [hload', Option.map_some, ← p.relocated_slide] at hslid'
  refine ⟨rfl, relocated_ehFrameLocal .., relocated_ehFrameHdrLocal .., ?_, ?_, ?_, ?_⟩
  · have h := hdrTable_moved avma (UInt64.ofInt δ) b
    rw [← hload] at h
    rwa [← hslid] at h
  · change ((loadedSection (p.relocated δ).slide p.ehFrame p.ehFrameSvma).map Prod.fst).getD 0 =
      ((loadedSection p.slide p.ehFrame p.ehFrameSvma).map Prod.fst).getD 0 + UInt64.ofInt δ
    rw [hslid', hload']
    rfl
  · unfold ModuleData.fromParts
    dsimp only
    rw [p.relocated_slide, ModuleParts.relocated]
    dsimp only
    cases p.textSvma with
    | none => rfl
    | some svma => exact (UInt64.add_assoc _ _ _).symm
  · change ((loadedSection (p.relocated δ).slide p.ehFrameHdr p.ehFrameHdrSvma).map Prod.fst).getD 0 =
      ((loadedSection p.slide p.ehFrameHdr p.ehFrameHdrSvma).map Prod.fst).getD 0 + UInt64.ofInt δ
    rw [hslid, hload]
    rfl

theorem table_fits {hdr : Buffer} (h : (ModuleData.fromParts p name).ehFrameHdrLocal = some hdr) :
    (ModuleData.fromParts p name).table.tableDataOffset.toNat +
      (ModuleData.fromParts p name).table.count * 8 ≤ hdr.bytes.len := by
  obtain ⟨⟨avma, b⟩, hload, rfl⟩ := Option.map_eq_some_iff.mp h
  change (hdrTable (loadedSection p.slide p.ehFrameHdr p.ehFrameHdrSvma)).1.tableDataOffset.toNat +
    (hdrTable (loadedSection p.slide p.ehFrameHdr p.ehFrameHdrSvma)).1.count * 8 ≤ _
  rw [hload]
  unfold hdrTable
  dsimp only
  split
  · next t ht => exact EhFrameTable.parse_fits ht
  · exact Nat.zero_le _

end Module

/-- No address that a lookup compares or returns wraps around, neither where the
module is loaded nor at a distance from there. -/
structure NoWrap (m : ModuleData) (δ : Int) (ip : UInt64) : Prop where
  address : Slides δ ip
  table : ∀ hdr, m.ehFrameHdrLocal = some hdr → ∀ i < m.table.count,
    Slides δ (m.table.pcAt hdr.bytes i) ∧ Slides δ (m.table.fdeAt hdr.bytes i)
  ehFrame : ∀ ehFrame, m.ehFrameLocal = some ehFrame → Slides δ m.ehFrameAvma ∧
    m.ehFrameAvma.toNat + ehFrame.bytes.len < 2 ^ 64 ∧
    m.ehFrameAvma.toNat + ehFrame.bytes.len + δ < 2 ^ 64
  range : ∀ ehFrame fdeOffset cie fde, FdeFound m ip ehFrame fdeOffset cie fde →
    Slides δ fde.initialPc ∧ fde.initialPc.toNat + fde.addressRange.toNat < 2 ^ 64 ∧
      fde.initialPc.toNat + fde.addressRange.toNat + δ < 2 ^ 64

/-- The FDE found locates its function relative to something that moves. -/
def LocatedRelatively (m : ModuleData) (ip : UInt64) : Prop :=
  ∀ ehFrame fdeOffset cie fde, FdeFound m ip ehFrame fdeOffset cie fde →
    RelativeEncoding cie.fdeEncoding ∧
      ∀ raw, (initialRaw cie.fdeEncoding ⟨ehFrame, fdeOffset, m.ehFrameAvma⟩).1 = .ok raw → raw ≠ 0

/-- The same function, further up by exactly a distance. -/
structure FunctionDetails.Relocated (δ : Int) (d d' : FunctionDetails) : Prop where
  startIp : (d'.startIp.toNat : Int) = d.startIp.toNat + δ
  endIp : (d'.endIp.toNat : Int) = d.endIp.toNat + δ
  cieInstrStart : (d'.cieInfo.cieInstrStart.toNat : Int) = d.cieInfo.cieInstrStart.toNat + δ
  cieInstrEnd : (d'.cieInfo.cieInstrEnd.toNat : Int) = d.cieInfo.cieInstrEnd.toNat + δ
  fdeInstrStart : (d'.cieInfo.fdeInstrStart.toNat : Int) = d.cieInfo.fdeInstrStart.toNat + δ
  fdeInstrEnd : (d'.cieInfo.fdeInstrEnd.toNat : Int) = d.cieInfo.fdeInstrEnd.toNat + δ
  codeAlign : d'.cieInfo.codeAlign = d.cieInfo.codeAlign
  dataAlign : d'.cieInfo.dataAlign = d.cieInfo.dataAlign
  retAddrColumn : d'.cieInfo.retAddrColumn = d.cieInfo.retAddrColumn
  fdeEncoding : d'.cieInfo.fdeEncoding = d.cieInfo.fdeEncoding
  lsdaEncoding : d'.cieInfo.lsdaEncoding = d.cieInfo.lsdaEncoding
  flags : d'.cieInfo.flags = d.cieInfo.flags
  signalFrame : d'.signalFrame = d.signalFrame

namespace Moved

variable {m m' : ModuleData} {δ : Int} {ip : UInt64} {s : Slice}

theorem fdeOffsetOf_eq (h : Moved (UInt64.ofInt δ) m m') {fdeAvma : UInt64}
    (hframe : Slides δ m.ehFrameAvma) (hfde : Slides δ fdeAvma) :
    Res.Related Eq (fdeOffsetOf m s fdeAvma) (fdeOffsetOf m' s (fdeAvma + UInt64.ofInt δ)) := by
  have hsub : checkedSub64 (fdeAvma + UInt64.ofInt δ) m'.ehFrameAvma =
      checkedSub64 fdeAvma m.ehFrameAvma := by
    have hdist : fdeAvma + UInt64.ofInt δ - (m.ehFrameAvma + UInt64.ofInt δ) =
        fdeAvma - m.ehFrameAvma := by grind
    unfold checkedSub64
    rw [h.ehFrameAvma, hdist]
    exact if_congr (hframe.le_iff hfde) rfl rfl
  unfold fdeOffsetOf
  rw [hsub]
  cases checkedSub64 fdeAvma m.ehFrameAvma with
  | none => exact .err _ _
  | some off =>
    dsimp only
    split
    · exact .err _ _
    · exact .ok rfl

theorem parseEntries_alike {d : UInt64} (h : Moved d m m') (s : Slice) (fdeOffset : Nat) :
    Res.Related (fun e e' => e.1.Alike e'.1 ∧ e.2.Alike e'.2) (parseEntries m s fdeOffset)
      (parseEntries m' s fdeOffset) := by
  unfold parseEntries
  rw [h.name, h.ehFrameAvma, h.textBase, h.dataBase]
  refine (Res.Related.refl _).bind ?_
  intro cieOffset cieOffset' _ _ he
  obtain rfl := he
  refine ((parseCie_slide s cieOffset m.ehFrameAvma d).mapErr _ _).bind ?_
  intro cie cie' _ _ hcie
  obtain ⟨p, rfl⟩ := hcie
  refine ((parseFde_slide s fdeOffset m.ehFrameAvma d _).mapErr _ _).bind ?_
  intro fde fde' _ _ hfde
  exact .ok ⟨⟨p, rfl⟩, hfde⟩

theorem parseFdeAt_alike (h : Moved (UInt64.ofInt δ) m m') {fdeAvma : UInt64}
    (hframe : Slides δ m.ehFrameAvma) (hfde : Slides δ fdeAvma) :
    Res.Related (fun e e' => e.1.Alike e'.1 ∧ e.2.Alike e'.2) (parseFdeAt m s fdeAvma)
      (parseFdeAt m' s (fdeAvma + UInt64.ofInt δ)) := by
  refine (h.fdeOffsetOf_eq hframe hfde).bind ?_
  intro off off' _ _ he
  obtain rfl := he
  exact h.parseEntries_alike s off

/-- What both modules have parsed stands at the same offset. -/
theorem parsed_at (h : Moved (UInt64.ofInt δ) m m') {fdeAvma : UInt64}
    {e e' : ParsedCie × ParsedFde} (hframe : Slides δ m.ehFrameAvma) (hfde : Slides δ fdeAvma)
    (hat : parseFdeAt m s fdeAvma = .ok e)
    (hat' : parseFdeAt m' s (fdeAvma + UInt64.ofInt δ) = .ok e') :
    ∃ off, fdeOffsetOf m s fdeAvma = .ok off ∧ parseEntries m s off = .ok e ∧
      parseEntries m' s off = .ok e' := by
  obtain ⟨off, hoff, hp⟩ := Res.bind_eq_ok.mp hat
  obtain ⟨off', hoff', hp'⟩ := Res.bind_eq_ok.mp hat'
  obtain rfl := (h.fdeOffsetOf_eq hframe hfde).value hoff hoff'
  exact ⟨off, hoff, hp, hp'⟩

theorem initialPc_eq {d : UInt64} (h : Moved d m m') {fdeOffset : Nat} {cie cie' : ParsedCie}
    {fde fde' : ParsedFde} (hp : parseEntries m s fdeOffset = .ok (cie, fde))
    (hp' : parseEntries m' s fdeOffset = .ok (cie', fde')) (henc : RelativeEncoding cie.fdeEncoding)
    (hraw : ∀ raw, (initialRaw cie.fdeEncoding ⟨s, fdeOffset, m.ehFrameAvma⟩).1 = .ok raw →
      raw ≠ 0) : fde'.initialPc = fde.initialPc + d := by
  obtain ⟨⟨p, rfl⟩, -⟩ := (h.parseEntries_alike s fdeOffset).value hp hp'
  obtain ⟨-, -, -, hfde⟩ := parseEntries_cases hp
  obtain ⟨-, -, -, hfde'⟩ := parseEntries_cases hp'
  have hconfig : fdeConfig m' { cie with personality := p } = (fdeConfig m cie).slide d := by
    unfold fdeConfig FdeParseConfig.slide
    rw [h.textBase, h.dataBase]
  rw [hconfig, h.ehFrameAvma] at hfde'
  exact parseFde_initial hfde hfde' henc hraw

/-- Of a function that moves as a whole, both modules cover the same addresses. -/
theorem coveringDetails_moved {cie cie' : ParsedCie} {fde fde' : ParsedFde}
    (hip : Slides δ ip) (hpc : Slides δ fde.initialPc)
    (hend : fde.initialPc.toNat + fde.addressRange.toNat < 2 ^ 64)
    (hend' : fde.initialPc.toNat + fde.addressRange.toNat + δ < 2 ^ 64)
    (hpc' : fde'.initialPc = fde.initialPc + UInt64.ofInt δ)
    (hrange : fde'.addressRange = fde.addressRange) :
    Res.Related (fun d d' => ∃ e e', d = functionDetails m cie fde e ∧
        d' = functionDetails m' cie' fde' e' ∧ (e'.toNat : Int) = e.toNat + δ)
      (coveringDetails m ip cie fde) (coveringDetails m' (ip + UInt64.ofInt δ) cie' fde') := by
  have hip' := hip.toNat
  have hstart : (fde'.initialPc.toNat : Int) = fde.initialPc.toNat + δ := by
    rw [hpc']
    exact hpc.toNat
  have he : (fde.initialPc + fde.addressRange).toNat =
      fde.initialPc.toNat + fde.addressRange.toNat := by
    rw [UInt64.toNat_add, Nat.mod_eq_of_lt hend]
  have he' : (fde'.initialPc + fde'.addressRange).toNat =
      fde'.initialPc.toNat + fde'.addressRange.toNat := by
    rw [UInt64.toNat_add, hrange]
    omega
  have hcovers : (ip + UInt64.ofInt δ < fde'.initialPc ∨
      fde'.initialPc + fde'.addressRange ≤ ip + UInt64.ofInt δ) ↔
      (ip < fde.initialPc ∨ fde.initialPc + fde.addressRange ≤ ip) := by
    simp only [UInt64.lt_iff_toNat_lt, UInt64.le_iff_toNat_le, he, he']
    rw [hrange]
    omega
  unfold coveringDetails
  rw [checkedAdd64_eq_some.mpr he, checkedAdd64_eq_some.mpr he']
  dsimp only
  simp only [hcovers]
  split
  · exact .err _ _
  · refine .ok ⟨_, _, rfl, rfl, ?_⟩
    rw [he, he', hrange]
    omega

/-- The bounds of the instructions move as words, and nothing else changes. -/
theorem functionDetails_relocated (h : Moved (UInt64.ofInt δ) m m') {cie cie' : ParsedCie}
    {fde fde' : ParsedFde} {e e' : UInt64} (hcie : cie.Alike cie') (hfde : fde.Alike fde')
    (hstart : (fde'.initialPc.toNat : Int) = fde.initialPc.toNat + δ)
    (hend : (e'.toNat : Int) = e.toNat + δ)
    (hcieInstrs : Slides δ (functionDetails m cie fde e).cieInfo.cieInstrStart ∧
      Slides δ (functionDetails m cie fde e).cieInfo.cieInstrEnd)
    (hfdeInstrs : Slides δ (functionDetails m cie fde e).cieInfo.fdeInstrStart ∧
      Slides δ (functionDetails m cie fde e).cieInfo.fdeInstrEnd) :
    (functionDetails m cie fde e).Relocated δ (functionDetails m' cie' fde' e') := by
  obtain ⟨p, rfl⟩ := hcie
  obtain ⟨pc, lsda, rfl⟩ := hfde
  have hmove : ∀ off : UInt64, m'.ehFrameAvma + off = m.ehFrameAvma + off + UInt64.ofInt δ := by
    intro off
    rw [h.ehFrameAvma]
    grind
  have hmove' : ∀ off n : UInt64,
      m'.ehFrameAvma + off + n = m.ehFrameAvma + off + n + UInt64.ofInt δ := by
    intro off n
    rw [h.ehFrameAvma]
    grind
  refine ⟨hstart, hend, ?_, ?_, ?_, ?_, rfl, rfl, rfl, rfl, rfl, rfl, rfl⟩
  · rw [← hcieInstrs.1.toNat]
    exact congrArg (fun a : UInt64 => (a.toNat : Int)) (hmove _)
  · rw [← hcieInstrs.2.toNat]
    exact congrArg (fun a : UInt64 => (a.toNat : Int)) (hmove' _ _)
  · rw [← hfdeInstrs.1.toNat]
    exact congrArg (fun a : UInt64 => (a.toNat : Int)) (hmove _)
  · rw [← hfdeInstrs.2.toNat]
    exact congrArg (fun a : UInt64 => (a.toNat : Int)) (hmove' _ _)

end Moved

theorem InstrsIn.slides {m : ModuleData} {ehFrame : Buffer} {start stop : UInt64} {δ : Int}
    (h : InstrsIn m ehFrame start stop) (hstart : Slides δ m.ehFrameAvma)
    (hend : m.ehFrameAvma.toNat + ehFrame.bytes.len < 2 ^ 64)
    (hend' : m.ehFrameAvma.toNat + ehFrame.bytes.len + δ < 2 ^ 64) :
    Slides δ start ∧ Slides δ stop := by
  obtain ⟨off, n, hoff, hin, rfl, rfl⟩ := h
  unfold Slides at hstart ⊢
  simp only [UInt64.toNat_add, UInt64.toNat_ofNat']
  omega

section Relocation

variable {p : ModuleParts} {name : Nat} {δ : Int} {ip : UInt64}

/-- Both lookups find the same FDE, and it covers the address in both or in neither. -/
theorem parse_related (name' : Nat) (hw : NoWrap (ModuleData.fromParts p name) δ ip)
    (hrel : LocatedRelatively (ModuleData.fromParts p name) ip) :
    Res.Related (FunctionDetails.Relocated δ) (parseFunctionDetails (ModuleData.fromParts p name) ip)
      (parseFunctionDetails (ModuleData.fromParts (p.relocated δ) name')
        (ip + UInt64.ofInt δ)) := by
  unfold parseFunctionDetails
  rw [relocated_ehFrameLocal p name, relocated_ehFrameHdrLocal p name]
  cases hframe : (ModuleData.fromParts p name).ehFrameLocal with
  | none => exact .err _ _
  | some ehFrame =>
    cases hhdr : (ModuleData.fromParts p name).ehFrameHdrLocal with
    | none => exact .err _ _
    | some hdr =>
      have hmoved : Moved (UInt64.ofInt δ) _ (ModuleData.fromParts (p.relocated δ) name') :=
        fromParts_moved hframe hhdr
      obtain ⟨hstart, hend, hend'⟩ := hw.ehFrame ehFrame hframe
      dsimp only
      rw [hmoved.table, EhFrameTable.lookup_rebase (table_fits hhdr) hw.address
        (fun i hi => (hw.table hdr hhdr i hi).1)]
      refine (Res.Related.bind_ok _ _).bind ?_
      intro hit hit' hlook _ hmap
      subst hmap
      cases hit with
      | none => exact .err _ _
      | some hit =>
        obtain ⟨pc, fdeAvma⟩ := hit
        obtain ⟨i, hi, -, rfl, -⟩ := EhFrameTable.lookup_listed (table_fits hhdr) hlook
        simp only [Option.map_some, Res.ofOption_some, Res.ok_bind]
        refine (hmoved.parseFdeAt_alike hstart (hw.table hdr hhdr i hi).2).bind ?_
        intro (cie, fde) (cie', fde') hat hat' halike
        obtain ⟨hcie, hfde⟩ := halike
        obtain ⟨off, hoff, hparsed, hparsed'⟩ :=
          hmoved.parsed_at hstart (hw.table hdr hhdr i hi).2 hat hat'
        have hfound : FdeFound (ModuleData.fromParts p name) ip ehFrame.bytes off cie fde :=
          ⟨⟨ehFrame.ptr, hframe⟩, ⟨hdr, pc, _, hhdr, hlook, hoff⟩, hparsed⟩
        obtain ⟨henc, hraw⟩ := hrel _ _ _ _ hfound
        obtain ⟨hpc, hrange, hrange'⟩ := hw.range _ _ _ _ hfound
        have hpc' := hmoved.initialPc_eq hparsed hparsed' henc hraw
        have hlen : fde'.addressRange = fde.addressRange := by
          obtain ⟨_, _, rfl⟩ := hfde
          rfl
        refine (Moved.coveringDetails_moved hw.address hpc hrange hrange' hpc' hlen).mono ?_
        intro d d' hd
        obtain ⟨e, e', rfl, rfl, hee⟩ := hd
        obtain ⟨hinC, hinF⟩ := hfound.instrs ehFrame.ptr e
        refine hmoved.functionDetails_relocated hcie hfde ?_ hee
          (hinC.slides hstart hend hend') (hinF.slides hstart hend hend')
        rw [hpc']
        exact hpc.toNat

/-- Where a module is loaded does not matter: the same address in a copy loaded
elsewhere gives the same function, moved by exactly the distance. -/
theorem parseFunctionDetails_relocates (p : ModuleParts) (name name' : Nat) (δ : Int) (ip : UInt64)
    (hw : NoWrap (ModuleData.fromParts p name) δ ip)
    (hrel : LocatedRelatively (ModuleData.fromParts p name) ip) :
    ((∃ d', parseFunctionDetails (ModuleData.fromParts (p.relocated δ) name')
        (ip + UInt64.ofInt δ) = .ok d') ↔
      ∃ d, parseFunctionDetails (ModuleData.fromParts p name) ip = .ok d) ∧
    ∀ d d', parseFunctionDetails (ModuleData.fromParts p name) ip = .ok d →
      parseFunctionDetails (ModuleData.fromParts (p.relocated δ) name') (ip + UInt64.ofInt δ) =
        .ok d' → d.Relocated δ d' := by
  have h := parse_related name' hw hrel
  exact ⟨h.isOk_iff.symm, fun d d' hd hd' => h.value hd hd'⟩

end Relocation

/-- A position-independent module with the function `0x1000..0x1010`, loaded at `0x10000`. -/
def pieParts : ModuleParts where
  name := "pie"
  avmaRange := ⟨0x11000, 0x12000⟩
  baseAvma := 0x10000
  baseSvma := 0
  textSvma := some ⟨0x1000, 0x2000⟩
  ehFrameSvma := some ⟨0x3000, 0x3028⟩
  ehFrame := some ⟨0x7000, ⟨[16, 0, 0, 0, 0, 0, 0, 0, 1, 0x7a, 0x52, 0, 1, 0x78, 16, 1, 0x1b,
    0x0c, 7, 8, 16, 0, 0, 0, 24, 0, 0, 0, 0xe4, 0xdf, 0xff, 0xff, 0x10, 0, 0, 0, 0, 0, 0, 0],
    by decide⟩⟩
  ehFrameHdrSvma := some ⟨0x4000, 0x4014⟩
  ehFrameHdr := some ⟨0x8000, ⟨[1, 0x1b, 0x03, 0x3b, 0, 0x30, 0, 0, 1, 0, 0, 0,
    0x00, 0xd0, 0xff, 0xff, 0x14, 0xf0, 0xff, 0xff], by decide⟩⟩

def pie : ModuleData := .fromParts pieParts 0

def pieFrame : Slice := ⟨[16, 0, 0, 0, 0, 0, 0, 0, 1, 0x7a, 0x52, 0, 1, 0x78, 16, 1, 0x1b,
    0x0c, 7, 8, 16, 0, 0, 0, 24, 0, 0, 0, 0xe4, 0xdf, 0xff, 0xff, 0x10, 0, 0, 0, 0, 0, 0, 0],
    by decide⟩

def pieCie : ParsedCie := ⟨1, -8, 16, 0x1b, DW_EH_PE_OMIT, 0, true, false, 17, 3⟩

def pieFde : ParsedFde := ⟨0x11000, 0x10, 37, 3, 0⟩

theorem pie_found : FdeFound pie 0x11004 pieFrame 20 pieCie pieFde := by
  refine ⟨⟨0x7000, rfl⟩, ⟨_, 0x11000, 0x13014, rfl, ?_, ?_⟩, ?_⟩
  · decide +kernel
  · decide +kernel
  · decide +kernel

theorem pie_noWrap : NoWrap pie 0x7f0000000000 0x11004 where
  address := by
    unfold Slides
    decide
  table := by
    intro hdr hhdr i hi
    obtain rfl := Option.some.inj hhdr
    have hcount : pie.table.count = 1 := by decide +kernel
    obtain rfl : i = 0 := by omega
    unfold Slides
    decide +kernel
  ehFrame := by
    intro ehFrame hframe
    obtain rfl := Option.some.inj hframe
    unfold Slides
    decide +kernel
  range := by
    intro ehFrame off cie fde h
    obtain ⟨-, -, -, rfl⟩ := pie_found.unique h
    unfold Slides
    decide

theorem pie_locatedRelatively : LocatedRelatively pie 0x11004 := by
  intro ehFrame off cie fde h
  obtain ⟨rfl, rfl, rfl, -⟩ := pie_found.unique h
  refine ⟨Or.inl (by decide), ?_⟩
  intro raw hraw
  have hoperand : (initialRaw pieCie.fdeEncoding ⟨pieFrame, 20, pie.ehFrameAvma⟩).1 =
      .ok 0xffffffffffffdfe4 := by decide +kernel
  rw [hoperand] at hraw
  obtain rfl := Res.ok.inj hraw
  decide

/-- Loaded `0x7f0000000000` further up, the function is still found. -/
theorem pie_relocates : ∃ d d', parseFunctionDetails pie 0x11004 = .ok d ∧
    parseFunctionDetails (.fromParts (pieParts.relocated 0x7f0000000000) 1)
      (0x11004 + UInt64.ofInt 0x7f0000000000) = .ok d' ∧ d.Relocated 0x7f0000000000 d' := by
  have h := parseFunctionDetails_relocates pieParts 0 1 0x7f0000000000 0x11004 pie_noWrap
    pie_locatedRelatively
  have hd : parseFunctionDetails pie 0x11004 = .ok (functionDetails pie pieCie pieFde 0x11010) := by
    decide +kernel
  obtain ⟨d', hd'⟩ := h.1.mpr ⟨_, hd⟩
  exact ⟨_, d', hd, hd', h.2 _ _ hd hd'⟩

end Unwinder
