import Unwinder.Proofs.Fields

namespace Unwinder.Dwarf
open Lib

variable {α β : Type}

/-- The first part of a sequence that returned, and the run of the rest. -/
theorem run_bind {x : Parse α} {f : α → Parse β} {c c' : Cursor} {b : β}
    (h : (x >>= f) c = (.ok b, c')) (hx : Safe x) (hv : c.Valid) :
    ∃ a xs, Reads x c xs a ∧ f a (c.advance xs.length) = (.ok b, c') := by
  obtain ⟨a, t, ha, hb⟩ := StateRes.bind_eq_ok.mp h
  obtain ⟨xs, hr, rfl, _⟩ := hx.reads hv ha
  exact ⟨a, xs, hr, hb⟩

theorem safe_readEncodedPersonality (enc : UInt8) (b : Bases) : Safe (readEncodedPersonality enc b) :=
  safe_readEncodedImpl enc b true

theorem safe_readEncoded (enc : UInt8) (b : Bases) : Safe (readEncoded enc b) :=
  safe_readEncodedImpl enc b false

theorem safe_readPersonality (a : Augmentation) (enc : UInt8) :
    Safe (readEncodedPersonality enc ⟨0, 0, 0⟩ >>= fun v =>
      (return { a with personality := v } : Parse Augmentation)) :=
  (safe_readEncodedPersonality enc _).bind (fun _ => Safe.pure _)

theorem safe_readAugmentationLetter (ch : UInt8) (a : Augmentation) :
    Safe (readAugmentationLetter ch a) :=
  Safe.ite (safe_readU8.map _) (Safe.ite (safe_readU8.map _)
    (Safe.ite (safe_readU8.bind (safe_readPersonality a))
      (Safe.ite (Safe.pure _) (Safe.ite (Safe.pure _) (safe_fail _)))))

theorem safe_readAugmentationLetters (letters : List UInt8) (a : Augmentation) :
    Safe (readAugmentationLetters letters a) := by
  induction letters generalizing a with
  | nil => exact Safe.pure a
  | cons ch rest ih => exact (safe_readAugmentationLetter ch a).bind ih

theorem reads_byte_map {c : Cursor} {bs : List UInt8} {f : UInt8 → α} {v : α} (hv : c.Valid) :
    Reads (f <$> readU8) c bs v ↔ c.Ahead bs ∧ ∃ b, bs = [b] ∧ v = f b := by
  constructor
  · intro h
    obtain ⟨b, hr, rfl⟩ := h.of_map
    obtain ⟨ha, rfl⟩ := (reads_u8 hv).mp hr
    exact ⟨ha, b, rfl, rfl⟩
  · intro h
    obtain ⟨ha, b, rfl, rfl⟩ := h
    exact ((reads_u8 hv).mpr ⟨ha, rfl⟩).map f

theorem reads_personality {a v : Augmentation} {c : Cursor} {bs : List UInt8} (hv : c.Valid) :
    Reads (readU8 >>= fun enc => readEncodedPersonality enc ⟨0, 0, 0⟩ >>= fun p =>
      (return { a with personality := p } : Parse Augmentation)) c bs v ↔
    c.Ahead bs ∧ ∃ enc operand, bs = enc :: operand ∧
      (AugItem.personality enc operand).apply c.currentAvma a = some v := by
  rw [reads_bind safe_readU8 (safe_readPersonality a) hv]
  have havma : (c.advance 1).currentAvma = c.currentAvma + 1 := c.currentAvma_advance 1
  constructor
  · intro h
    obtain ⟨enc, xs, ys, rfl, hx, hy⟩ := h
    obtain ⟨hax, rfl⟩ := (reads_u8 hv).mp hx
    obtain ⟨p, hr, rfl⟩ := hy.of_map
    obtain ⟨hay, hp⟩ := (reads_readEncodedImpl (hax.valid hv)).mp hr
    refine ⟨Cursor.ahead_append.mpr ⟨hax, hay⟩, enc, ys, rfl, ?_⟩
    rw [List.length_singleton, havma] at hp
    simp [AugItem.apply, hp]
  · intro h
    obtain ⟨ha, enc, operand, rfl, hp⟩ := h
    obtain ⟨hax, hay⟩ := Cursor.ahead_append.mp (show c.Ahead ([enc] ++ operand) from ha)
    simp only [AugItem.apply, Option.map_eq_some_iff] at hp
    obtain ⟨p, hp, rfl⟩ := hp
    refine ⟨enc, [enc], operand, rfl, (reads_u8 hv).mpr ⟨hax, rfl⟩, Reads.map _ ?_⟩
    refine (reads_readEncodedImpl (hax.valid hv)).mpr ⟨hay, ?_⟩
    rw [List.length_singleton, havma]
    exact hp

/-- A letter takes the data of an item that it names, and sets what the item says. -/
theorem reads_augmentationLetter {ch : UInt8} {a v : Augmentation} {c : Cursor} {bs : List UInt8}
    (hv : c.Valid) : Reads (readAugmentationLetter ch a) c bs v ↔ c.Ahead bs ∧
      ∃ item : AugItem, item.letter = ch ∧ bs = item.bytes ∧ item.apply c.currentAvma a = some v := by
  constructor
  · intro h
    refine ⟨h.1, ?_⟩
    unfold readAugmentationLetter at h
    by_cases hR : ch = 0x52
    · rw [if_pos hR, reads_byte_map hv] at h
      obtain ⟨-, b, rfl, rfl⟩ := h
      exact ⟨.fdeEncoding b, hR.symm, rfl, rfl⟩
    by_cases hL : ch = 0x4c
    · rw [if_neg hR, if_pos hL, reads_byte_map hv] at h
      obtain ⟨-, b, rfl, rfl⟩ := h
      exact ⟨.lsdaEncoding b, hL.symm, rfl, rfl⟩
    by_cases hP : ch = 0x50
    · rw [if_neg hR, if_neg hL, if_pos hP, reads_personality hv] at h
      obtain ⟨-, enc, operand, rfl, hp⟩ := h
      exact ⟨.personality enc operand, hP.symm, rfl, hp⟩
    by_cases hS : ch = 0x53
    · rw [if_neg hR, if_neg hL, if_neg hP, if_pos hS, reads_return] at h
      obtain ⟨rfl, rfl⟩ := h
      exact ⟨.signalFrame, hS.symm, rfl, rfl⟩
    by_cases hB : ch = 0x42 ∨ ch = 0x47
    · rw [if_neg hR, if_neg hL, if_neg hP, if_neg hS, if_pos hB, reads_return] at h
      obtain ⟨rfl, rfl⟩ := h
      cases hB with
      | inl hB => exact ⟨.ignoredB, hB.symm, rfl, rfl⟩
      | inr hG => exact ⟨.ignoredG, hG.symm, rfl, rfl⟩
    · rw [if_neg hR, if_neg hL, if_neg hP, if_neg hS, if_neg hB] at h
      exact absurd h not_reads_fail
  · intro h
    obtain ⟨ha, item, rfl, rfl, hv'⟩ := h
    cases item with
    | fdeEncoding enc => exact (reads_byte_map hv).mpr ⟨ha, enc, rfl, (Option.some.inj hv').symm⟩
    | lsdaEncoding enc => exact (reads_byte_map hv).mpr ⟨ha, enc, rfl, (Option.some.inj hv').symm⟩
    | personality enc operand => exact (reads_personality hv).mpr ⟨ha, enc, operand, rfl, hv'⟩
    | signalFrame => exact reads_return.mpr ⟨rfl, (Option.some.inj hv').symm⟩
    | ignoredB => exact reads_return.mpr ⟨rfl, (Option.some.inj hv').symm⟩
    | ignoredG => exact reads_return.mpr ⟨rfl, (Option.some.inj hv').symm⟩

theorem reads_augmentationLetters {letters : List UInt8} {a v : Augmentation} {c : Cursor}
    {bs : List UInt8} (hv : c.Valid) : Reads (readAugmentationLetters letters a) c bs v ↔
      c.Ahead bs ∧ ∃ items : List AugItem, items.map AugItem.letter = letters ∧
        bs = items.flatMap AugItem.bytes ∧ AugItem.applyAll c.currentAvma items a = some v := by
  induction letters generalizing a c bs with
  | nil =>
    rw [readAugmentationLetters, reads_return]
    constructor
    · intro h
      obtain ⟨rfl, rfl⟩ := h
      exact ⟨c.ahead_nil, [], rfl, rfl, rfl⟩
    · intro h
      obtain ⟨-, items, hm, rfl, hv'⟩ := h
      obtain rfl := List.map_eq_nil_iff.mp hm
      exact ⟨rfl, (Option.some.inj hv').symm⟩
  | cons ch rest ih =>
    rw [readAugmentationLetters, reads_bind (safe_readAugmentationLetter ch a)
      (safe_readAugmentationLetters rest) hv]
    constructor
    · intro h
      obtain ⟨a', xs, ys, rfl, hx, hy⟩ := h
      obtain ⟨hax, item, rfl, rfl, happ⟩ := (reads_augmentationLetter hv).mp hx
      obtain ⟨hay, items, rfl, rfl, hall⟩ := (ih (hax.valid hv)).mp hy
      refine ⟨Cursor.ahead_append.mpr ⟨hax, hay⟩, item :: items, rfl, rfl, ?_⟩
      rw [AugItem.applyAll, happ, Option.bind_some, ← Cursor.currentAvma_advance]
      exact hall
    · intro h
      obtain ⟨ha, items, hm, rfl, hall⟩ := h
      cases items with
      | nil => simp at hm
      | cons item items =>
        simp only [List.map_cons, List.cons.injEq] at hm
        obtain ⟨rfl, rfl⟩ := hm
        rw [List.flatMap_cons] at ha
        obtain ⟨hax, hay⟩ := Cursor.ahead_append.mp ha
        rw [AugItem.applyAll, Option.bind_eq_some_iff] at hall
        obtain ⟨a', happ, hall⟩ := hall
        rw [← Cursor.currentAvma_advance] at hall
        exact ⟨a', item.bytes, _, rfl, (reads_augmentationLetter hv).mpr ⟨hax, item, rfl, rfl, happ⟩,
          (ih (hax.valid hv)).mpr ⟨hay, items, rfl, rfl, hall⟩⟩

theorem safe_cieAugmentation (augStart : Nat) (aug : List UInt8) :
    Safe (cieAugmentation augStart aug) := by
  cases aug with
  | nil => exact Safe.pure _
  | cons ch letters =>
    exact Safe.ite (safe_readUleb128.bind (fun _ =>
      (safe_readAugmentationLetters letters _).bind (fun _ => Safe.pure _))) (safe_failAt _ _)

/-- An augmentation string and its data, read together. -/
def AugReads (avma : UInt64) (aug data : List UInt8) (hasZ : Bool) (a : Augmentation) : Prop :=
  ∃ o : AugSpelling, aug = o.string ∧ data = o.data ∧ (∀ p ∈ o, IsLeb p.1 ∧ p.1.length ≤ 10) ∧
    hasZ = o.isSome ∧ o.settings avma = some a

theorem reads_cieAugmentation_z {letters bs : List UInt8} {c : Cursor} {hasZ : Bool}
    {a : Augmentation} (hv : c.Valid) :
    Reads (readUleb128 >>= fun _ => readAugmentationLetters letters initialAugmentation >>= fun a =>
      (return (true, a) : Parse (Bool × Augmentation))) c bs (hasZ, a) ↔
    c.Ahead bs ∧ AugReads c.currentAvma (0x7a :: letters) bs hasZ a := by
  rw [reads_bind safe_readUleb128 (fun _ =>
    (safe_readAugmentationLetters letters _).bind (fun _ => Safe.pure _)) hv]
  constructor
  · intro h
    obtain ⟨_, xs, ys, rfl, hx, hy⟩ := h
    obtain ⟨hax, hleb, -⟩ := (reads_uleb hv).mp hx
    obtain ⟨w, hr, he⟩ := hy.of_map
    obtain ⟨rfl, rfl⟩ := Prod.mk.inj he
    obtain ⟨hay, items, rfl, rfl, hall⟩ := (reads_augmentationLetters (hax.valid hv)).mp hr
    rw [Cursor.currentAvma_advance] at hall
    refine ⟨Cursor.ahead_append.mpr ⟨hax, hay⟩, some (xs, items), rfl, rfl, ?_, rfl, hall⟩
    intro p hp
    obtain rfl := Option.mem_some.mp hp
    exact hleb
  · intro h
    obtain ⟨ha, o, haug, rfl, hleb, rfl, hall⟩ := h
    cases o with
    | none => simp [AugSpelling.string] at haug
    | some p =>
      obtain ⟨-, rfl⟩ := List.cons.inj haug
      obtain ⟨hax, hay⟩ := Cursor.ahead_append.mp ha
      rw [AugSpelling.settings, ← Cursor.currentAvma_advance] at hall
      refine ⟨_, p.1, _, rfl, (reads_uleb hv).mpr ⟨hax, hleb p rfl, rfl⟩, Reads.map _ ?_⟩
      exact (reads_augmentationLetters (hax.valid hv)).mpr ⟨hay, p.2, rfl, rfl, hall⟩

theorem reads_cieAugmentation (augStart : Nat) {aug bs : List UInt8} {c : Cursor} {hasZ : Bool}
    {a : Augmentation} (hv : c.Valid) : Reads (cieAugmentation augStart aug) c bs (hasZ, a) ↔
      c.Ahead bs ∧ AugReads c.currentAvma aug bs hasZ a := by
  cases aug with
  | nil =>
    rw [cieAugmentation, reads_return]
    constructor
    · intro h
      obtain ⟨rfl, he⟩ := h
      obtain ⟨rfl, rfl⟩ := Prod.mk.inj he
      exact ⟨c.ahead_nil, none, rfl, rfl, by simp, rfl, rfl⟩
    · intro h
      obtain ⟨-, o, haug, rfl, -, rfl, hs⟩ := h
      cases o with
      | none => exact ⟨rfl, congrArg _ (Option.some.inj hs).symm⟩
      | some p => simp [AugSpelling.string] at haug
  | cons ch letters =>
    rw [cieAugmentation]
    by_cases hz : ch = 0x7a
    · rw [if_pos hz, hz]
      exact reads_cieAugmentation_z hv
    · rw [if_neg hz]
      constructor
      · intro h
        exact absurd h not_reads_failAt
      · intro h
        obtain ⟨-, o, haug, -⟩ := h
        cases o with
        | none => simp [AugSpelling.string] at haug
        | some p => exact absurd (List.cons.inj haug).1 hz

namespace CieLayout

variable {l : CieLayout} {c : Cursor} {a : Augmentation}

theorem zero_not_mem_augString (l : CieLayout) : (0 : UInt8) ∉ l.augString := by
  unfold augString AugSpelling.string
  cases l.augmentation with
  | none => simp
  | some p =>
    simp only [List.mem_cons, List.mem_map, not_or, not_exists, not_and]
    refine ⟨by decide, fun item _ => ?_⟩
    cases item <;> simp [AugItem.letter]

theorem advance_front (l : CieLayout) (c : Cursor) :
    c.advance l.front.length = (((((((c.advance (lengthField l.wide l.len).length).advance
      (idField l.wide 0).length).advance [l.version].length).advance
      (l.augString ++ [0]).length).advance l.addressSizes.length).advance
      l.codeAlign.length).advance l.dataAlign.length).advance l.retAddrColumn.length := by
  simp only [front, Cursor.advance_append]

/-- The fields of a well-formed CIE are read back from its bytes. -/
theorem reads_header (hv : c.Valid) (hw : l.WellFormed) (ha : c.Ahead l.bytes)
    (ho : l.entryEnd c.pos < 2 ^ 64) (hs : l.settings c.currentAvma = some a) :
    Reads cieHeader c l.bytes (l.header c.pos a) := by
  have haug : AugReads (c.currentAvma + UInt64.ofNat l.front.length) l.augString l.augData
      l.augmentation.isSome a := ⟨l.augmentation, rfl, rfl, hw.augLen, rfl, hs⟩
  unfold bytes at ha
  obtain ⟨haf, hdata⟩ := Cursor.ahead_append.mp ha
  have hvf := haf.valid hv
  rw [← Cursor.currentAvma_advance] at haug
  rw [l.advance_front] at hvf hdata haug
  unfold front at haf
  obtain ⟨hlen, haf⟩ := Cursor.ahead_append.mp haf
  obtain ⟨hid, haf⟩ := Cursor.ahead_append.mp haf
  obtain ⟨hver, haf⟩ := Cursor.ahead_append.mp haf
  obtain ⟨hstr, haf⟩ := Cursor.ahead_append.mp haf
  obtain ⟨hsize, haf⟩ := Cursor.ahead_append.mp haf
  obtain ⟨hcode, haf⟩ := Cursor.ahead_append.mp haf
  obtain ⟨hda, hcol⟩ := Cursor.ahead_append.mp haf
  have v1 := hlen.valid hv
  have v2 := hid.valid v1
  have v3 := hver.valid v2
  have v4 := hstr.valid v3
  have v5 := hsize.valid v4
  have v6 := hcode.valid v5
  have r1 := (reads_entryLength hv).mpr ⟨hlen, l.len, rfl, hw.length, ho, rfl⟩
  have r2 := (reads_cieId v1).mpr ⟨hid, rfl⟩
  have r3 := (reads_version v2).mpr ⟨hver, rfl, hw.version⟩
  have r4 := (reads_augmentation v3).mpr ⟨hstr, rfl, l.zero_not_mem_augString⟩
  have r5 := (reads_addressSizes v4).mpr ⟨hsize, rfl⟩
  have r6 := (reads_uleb v5).mpr ⟨hcode, hw.codeAlign, rfl⟩
  have r7 := (reads_sleb v6).mpr ⟨hda, hw.dataAlign, rfl⟩
  have r8 := (reads_returnColumn (hda.valid v6)).mpr ⟨hcol, hw.column, rfl⟩
  have r9 := fun augStart => (reads_cieAugmentation augStart hvf).mpr ⟨hdata, haug⟩
  have hbytes : l.bytes = lengthField l.wide l.len ++ (idField l.wide 0 ++ ([l.version] ++ ([] ++
      ((l.augString ++ [0]) ++ (l.addressSizes ++ (l.codeAlign ++ (l.dataAlign ++
      (l.retAddrColumn ++ (l.augData ++ []))))))))) := by
    simp [bytes, front]
  rw [hbytes]
  unfold cieHeader
  exact r1.bind (r2.bind (r3.bind (Reads.bind (reads_cursor _) (r4.bind (r5.bind (r6.bind
    (r7.bind (r8.bind ((r9 _).bind (reads_pure _ _))))))))))

end CieLayout

theorem safe_cieHeader : Safe cieHeader := by
  unfold cieHeader
  refine safe_readEntryLength.bind (fun p => (safe_readCieId p.1).bind (fun _ =>
    safe_readVersion.bind (fun version => safe_cursor.bind (fun s =>
    safe_readAugmentation.bind (fun aug => (safe_readAddressSizes version).bind (fun _ =>
    safe_readUleb128.bind (fun _ => safe_readSleb128.bind (fun _ =>
    (safe_readReturnColumn version).bind (fun _ =>
    (safe_cieAugmentation s.pos aug).bind (fun q => Safe.pure _))))))))))

/-- Every header that is read is one of a well-formed layout at that place. -/
theorem cieHeader_layout {c c' : Cursor} {hd : CieHeader} (hv : c.Valid)
    (h : cieHeader c = (.ok hd, c')) : ∃ l : CieLayout, l.WellFormed ∧ c.Ahead l.bytes ∧
      l.entryEnd c.pos < 2 ^ 64 ∧ c' = c.advance l.bytes.length ∧
      ∃ a, l.settings c.currentAvma = some a ∧ hd = l.header c.pos a := by
  unfold cieHeader at h
  obtain ⟨⟨wide, e⟩, b1, r1, h⟩ := run_bind h safe_readEntryLength hv
  obtain ⟨a1, len, rfl, hfit, ho, rfl⟩ := (reads_entryLength hv).mp r1
  have v1 := a1.valid hv
  obtain ⟨_, b2, r2, h⟩ := run_bind h (safe_readCieId wide) v1
  obtain ⟨a2, rfl⟩ := (reads_cieId v1).mp r2
  have v2 := a2.valid v1
  obtain ⟨version, b3, r3, h⟩ := run_bind h safe_readVersion v2
  obtain ⟨a3, rfl, hver⟩ := (reads_version v2).mp r3
  have v3 := a3.valid v2
  change (readAugmentation >>= _) _ = _ at h
  obtain ⟨aug, b4, r4, h⟩ := run_bind h safe_readAugmentation v3
  obtain ⟨a4, rfl, hz⟩ := (reads_augmentation v3).mp r4
  have v4 := a4.valid v3
  obtain ⟨_, b5, r5, h⟩ := run_bind h (safe_readAddressSizes version) v4
  obtain ⟨a5, hb5⟩ := (reads_addressSizes v4).mp r5
  have v5 := a5.valid v4
  obtain ⟨codeAlign, b6, r6, h⟩ := run_bind h safe_readUleb128 v5
  obtain ⟨a6, hcode, rfl⟩ := (reads_uleb v5).mp r6
  have v6 := a6.valid v5
  obtain ⟨dataAlign, b7, r7, h⟩ := run_bind h safe_readSleb128 v6
  obtain ⟨a7, hdata, rfl⟩ := (reads_sleb v6).mp r7
  have v7 := a7.valid v6
  obtain ⟨column, b8, r8, h⟩ := run_bind h (safe_readReturnColumn version) v7
  obtain ⟨a8, hcol, rfl⟩ := (reads_returnColumn v7).mp r8
  have v8 := a8.valid v7
  obtain ⟨⟨hasZ, a⟩, b9, r9, h⟩ := run_bind h (safe_cieAugmentation _ aug) v8
  obtain ⟨a9, o, rfl, rfl, hleb, rfl, hset⟩ := (reads_cieAugmentation _ v8).mp r9
  obtain ⟨hok, rfl⟩ := Prod.mk.inj h
  obtain rfl := Res.ok.inj hok
  let l : CieLayout := ⟨wide, len, version, b6, b7, b8, o⟩
  obtain rfl : b5 = l.addressSizes := hb5
  have hadv := l.advance_front c
  have hfront : c.Ahead l.front := Cursor.ahead_append.mpr ⟨a1, Cursor.ahead_append.mpr ⟨a2,
    Cursor.ahead_append.mpr ⟨a3, Cursor.ahead_append.mpr ⟨a4, Cursor.ahead_append.mpr ⟨a5,
    Cursor.ahead_append.mpr ⟨a6, Cursor.ahead_append.mpr ⟨a7, a8⟩⟩⟩⟩⟩⟩⟩
  refine ⟨l, ⟨hfit, hver, hcode, hdata, hcol, hleb⟩,
    Cursor.ahead_append.mpr ⟨hfront, hadv.symm ▸ a9⟩, ho, ?_, a, ?_, rfl⟩
  · rw [CieLayout.bytes, Cursor.advance_append c l.front, hadv]
    rfl
  · rw [CieLayout.settings, ← Cursor.currentAvma_advance, hadv]
    exact hset

theorem format_app (enc : UInt8) : enc &&& DW_EH_PE_FORMAT_MASK &&& DW_EH_PE_APP_MASK = 0 := by
  cases enc with | ofBitVec v => revert v; decide +kernel

/-- An encoding without an application does not look at where it stands. -/
theorem pointerValue_format (enc : UInt8) (ok : Bool) (b : Bases) (p q : UInt64) (bs : List UInt8) :
    pointerValue (enc &&& DW_EH_PE_FORMAT_MASK) ok b p bs =
      pointerValue (enc &&& DW_EH_PE_FORMAT_MASK) ok b q bs := by
  unfold pointerValue applied
  simp only [format_app]
  rfl

theorem safe_fdeFront (config : FdeParseConfig) : Safe (fdeFront config) :=
  safe_readEntryLength.bind (fun p => (safe_readCiePointer p.1).bind (fun _ =>
    (safe_readEncoded _ _).bind (fun _ => (safe_readEncoded _ _).bind (fun _ => Safe.pure _))))

namespace FdeLayout

variable {l : FdeLayout} {c : Cursor} {config : FdeParseConfig} {pc range : UInt64}

theorem pcAvma_eq (l : FdeLayout) (c : Cursor) :
    ((c.advance (lengthField l.wide l.len).length).advance
      (idField l.wide l.ciePtr).length).currentAvma = l.pcAvma c.currentAvma := by
  rw [Cursor.advance_advance, Cursor.currentAvma_advance]
  rfl

/-- The fields of a well-formed FDE are read back from its bytes. -/
theorem reads_front (hv : c.Valid) (hw : l.WellFormed) (ha : c.Ahead l.bytes)
    (ho : l.entryEnd c.pos < 2 ^ 64) (hpc : l.pcValue config c.currentAvma = some pc)
    (hrange : l.rangeValue config = some range) :
    Reads (fdeFront config) c l.bytes (l.entryEnd c.pos, pc, range) := by
  obtain ⟨hlen, ha⟩ := Cursor.ahead_append.mp ha
  obtain ⟨hptr, ha⟩ := Cursor.ahead_append.mp ha
  obtain ⟨hini, hrng⟩ := Cursor.ahead_append.mp ha
  have v1 := hlen.valid hv
  have v2 := hptr.valid v1
  have v3 := hini.valid v2
  have r1 := (reads_entryLength hv).mpr ⟨hlen, l.len, rfl, hw.length, ho, rfl⟩
  have r2 := (reads_ciePointer v1).mpr ⟨hptr, l.ciePtr, rfl, hw.ciePtr⟩
  rw [pcValue, ← pcAvma_eq] at hpc
  have r3 : Reads (readEncoded _ _) _ _ _ := (reads_readEncodedImpl v2).mpr ⟨hini, hpc⟩
  rw [rangeValue, pointerValue_format] at hrange
  have r4 : Reads (readEncoded _ _) _ _ _ := (reads_readEncodedImpl v3).mpr ⟨hrng, hrange⟩
  have hbytes : l.bytes = lengthField l.wide l.len ++ (idField l.wide l.ciePtr ++ (l.initialPc ++
      (l.addressRange ++ []))) := by
    simp [bytes]
  rw [hbytes]
  unfold fdeFront
  exact r1.bind (r2.bind (r3.bind (r4.bind (reads_pure _ _))))

end FdeLayout

theorem fdeFront_layout {c c' : Cursor} {config : FdeParseConfig} {e : Nat} {pc range : UInt64}
    (hv : c.Valid) (h : fdeFront config c = (.ok (e, pc, range), c')) :
    ∃ l : FdeLayout, l.WellFormed ∧ c.Ahead l.bytes ∧ l.entryEnd c.pos < 2 ^ 64 ∧
      c' = c.advance l.bytes.length ∧ e = l.entryEnd c.pos ∧
      l.pcValue config c.currentAvma = some pc ∧ l.rangeValue config = some range := by
  unfold fdeFront at h
  obtain ⟨⟨wide, e'⟩, b1, r1, h⟩ := run_bind h safe_readEntryLength hv
  obtain ⟨a1, len, rfl, hfit, ho, rfl⟩ := (reads_entryLength hv).mp r1
  have v1 := a1.valid hv
  obtain ⟨_, b2, r2, h⟩ := run_bind h (safe_readCiePointer wide) v1
  obtain ⟨a2, ptr, rfl, hptr⟩ := (reads_ciePointer v1).mp r2
  have v2 := a2.valid v1
  obtain ⟨pc', b3, r3, h⟩ := run_bind h (safe_readEncoded _ _) v2
  obtain ⟨a3, hpc⟩ := (reads_readEncodedImpl v2).mp r3
  have v3 := r3.valid v2
  obtain ⟨range', b4, r4, h⟩ := run_bind h (safe_readEncoded _ _) v3
  obtain ⟨a4, hrange⟩ := (reads_readEncodedImpl v3).mp r4
  obtain ⟨hok, rfl⟩ := Prod.mk.inj h
  obtain ⟨rfl, rfl, rfl⟩ : _ = e ∧ pc' = pc ∧ range' = range := by simpa using Res.ok.inj hok
  let l : FdeLayout := ⟨wide, len, ptr, b3, b4⟩
  refine ⟨l, ⟨hfit, hptr⟩, Cursor.ahead_append.mpr ⟨a1, Cursor.ahead_append.mpr ⟨a2,
    Cursor.ahead_append.mpr ⟨a3, a4⟩⟩⟩, ho, ?_, rfl, ?_, ?_⟩
  · simp [l, FdeLayout.bytes, Nat.add_assoc]
  · rw [FdeLayout.pcValue, ← FdeLayout.pcAvma_eq]
    exact hpc
  · rw [FdeLayout.rangeValue, pointerValue_format]
    exact hrange

end Unwinder.Dwarf
