import Unwinder.Proofs.Leb128
import Unwinder.Proofs.RoundTrip

namespace Unwinder.Dwarf
open Lib

namespace Format

/-- The ways to write a word in a format; a LEB128 number may be padded up to ten
bytes. -/
def Writes : Format → UInt64 → List UInt8 → Prop
  | uleb128, v, bs => (IsLeb bs ∧ bs.length ≤ 10) ∧ ulebValue bs = v.toNat
  | sleb128, v, bs => (IsLeb bs ∧ bs.length ≤ 10) ∧ slebValue bs = v.toInt64.toInt
  | f, v, bs => bs = f.encode v

theorem writes_encode (f : Format) (v : UInt64) : f.Writes v (f.encode v) := by
  cases f with
  | uleb128 => exact ⟨uleb_word v.toNat_lt, ulebValue_ulebEncode _⟩
  | sleb128 => exact ⟨sleb_word v.toInt64, slebValue_slebEncode _⟩
  | _ => exact rfl

theorem Writes.shape {f : Format} {v : UInt64} {bs : List UInt8} (h : f.Writes v bs) :
    f.Shape bs := by
  cases f with
  | uleb128 => exact h.1
  | sleb128 => exact h.1
  | _ =>
    obtain rfl : bs = _ := h
    exact shape_encode _ v

/-- A word that fits is read back from every way to write it. -/
theorem Writes.raw {f : Format} {v : UInt64} {bs : List UInt8} (h : f.Writes v bs)
    (hf : f.Fits v) : f.raw bs = v := by
  cases f with
  | uleb128 => rw [Format.raw, h.2, UInt64.ofNat_toNat]
  | sleb128 => rw [Format.raw, h.2, Int64.ofInt_toInt, UInt64.toUInt64_toInt64]
  | _ =>
    obtain rfl : bs = _ := h
    exact raw_encode hf

/-- Zero fits every format. -/
theorem fits_zero (f : Format) : f.Fits 0 := by
  cases f <;> decide

end Format

namespace Encoding

/-- What is written for a target: its distance from the base that is added back. -/
def operandFor (e : Encoding) (b : Bases) (place target : UInt64) : UInt64 :=
  target - e.application.base b place

theorem pointer_operandFor (e : Encoding) {b : Bases} {place target : UInt64}
    (h : e.operandFor b place target ≠ 0) :
    e.pointer b place (e.operandFor b place target) = target := by
  rw [pointer, if_neg h, operandFor, UInt64.sub_add_cancel]

theorem pointer_zero (e : Encoding) (b : Bases) (place : UInt64) : e.pointer b place 0 = 0 :=
  if_pos rfl

/-- Written in any way and between any bytes, an operand is read as what it means. -/
theorem readEncoded_writes (e : Encoding) {raw : UInt64} {bs : List UInt8}
    (hfits : e.format.Fits raw) (hw : e.format.Writes raw bs) {c : Cursor} (hv : c.Valid)
    (ha : c.Ahead bs) (b : Bases) :
    readEncoded e.byte b c = (.ok (e.pointer b c.currentAvma raw), c.advance bs.length) := by
  have hvalue : pointerValue e.byte false b c.currentAvma bs =
      some (e.pointer b c.currentAvma raw) := by
    have hcanon := e.pointerValue_encode hfits false b c.currentAvma
    obtain ⟨homit, hdirect, hformat, -⟩ := e.bits
    rw [pointerValue_eq homit (fun hc => hc.1 hdirect), hformat, Option.bind_some] at hcanon ⊢
    rw [if_pos (e.format.shape_encode raw), Format.raw_encode hfits] at hcanon
    rw [if_pos hw.shape, hw.raw hfits, hcanon]
  exact ((reads_readEncodedImpl hv).mpr ⟨ha, hvalue⟩).2

end Encoding

/-- A cursor behind some bytes, in front of an operand and what follows it. -/
def Cursor.between (pre operand post : List UInt8) (bound : (pre ++ operand ++ post).length < 2 ^ 63)
    (avmaBase : UInt64) : Cursor :=
  ⟨⟨pre ++ operand ++ post, bound⟩, pre.length, avmaBase⟩

theorem Cursor.between_valid {pre operand post : List UInt8}
    (bound : (pre ++ operand ++ post).length < 2 ^ 63) (avmaBase : UInt64) :
    (Cursor.between pre operand post bound avmaBase).Valid := by
  unfold Cursor.Valid Cursor.between Slice.len
  simp only [List.length_append]
  omega

theorem Cursor.between_ahead {pre operand post : List UInt8}
    (bound : (pre ++ operand ++ post).length < 2 ^ 63) (avmaBase : UInt64) :
    (Cursor.between pre operand post bound avmaBase).Ahead operand := by
  have hrest : (pre ++ operand ++ post).drop pre.length = operand ++ post := by
    rw [List.append_assoc, List.drop_left]
  exact Cursor.ahead_of_rest hrest

/-- An encoded pointer is read back: the target where its operand is not zero, and
zero where it is, with the cursor right behind the operand. -/
theorem readEncoded_roundTrip (e : Encoding) (b : Bases) (pre operand post : List UInt8)
    (bound : (pre ++ operand ++ post).length < 2 ^ 63) (avmaBase : UInt64) :
    (∀ target raw,
      raw = target - e.application.base b (avmaBase + UInt64.ofNat pre.length) → raw ≠ 0 →
      e.format.Fits raw → e.format.Writes raw operand →
      readEncoded e.byte b (.between pre operand post bound avmaBase) =
        (.ok target, (Cursor.between pre operand post bound avmaBase).advance operand.length)) ∧
    (e.format.Writes 0 operand →
      readEncoded e.byte b (.between pre operand post bound avmaBase) =
        (.ok 0, (Cursor.between pre operand post bound avmaBase).advance operand.length)) := by
  have hv := Cursor.between_valid bound avmaBase
  have ha := Cursor.between_ahead bound avmaBase
  constructor
  · intro target raw hraw hne hfits hw
    obtain rfl : raw = e.operandFor b _ target := hraw
    rw [e.readEncoded_writes hfits hw hv ha b]
    exact congrArg (fun v => (Res.ok v, _)) (e.pointer_operandFor hne)
  · intro hw
    rw [e.readEncoded_writes e.format.fits_zero hw hv ha b, e.pointer_zero]

/-- A target below its own place, written in two signed bytes. -/
theorem readEncoded_backwards :
    readEncoded (Encoding.mk .sdata2 .pcrel).byte ⟨0, 0, 0⟩
      (.between [0xaa] [0xf0, 0xff] [0xbb] (by decide) 0x1000) =
        (.ok 0xff1, (Cursor.between [0xaa] [0xf0, 0xff] [0xbb] (by decide) 0x1000).advance 2) :=
  (readEncoded_roundTrip ⟨.sdata2, .pcrel⟩ ⟨0, 0, 0⟩ [0xaa] [0xf0, 0xff] [0xbb] (by decide)
    0x1000).1 0xff1 0xfffffffffffffff0 (by decide) (by decide) (by decide) (Format.writes_encode .sdata2 _)

/-- The shortest encoding of a word, between any bytes, is read as that word, with the
cursor right behind it. -/
theorem leb128_roundTrip (pre post : List UInt8) (avmaBase : UInt64) :
    (∀ v : UInt64, Shortest (fun bs => ulebValue bs) v.toNat (ulebEncode v.toNat) ∧
      ∀ (bs : List UInt8) (bound : (pre ++ bs ++ post).length < 2 ^ 63),
        Shortest (fun bs => ulebValue bs) v.toNat bs →
        readUleb128 (.between pre bs post bound avmaBase) =
          (.ok v, (Cursor.between pre bs post bound avmaBase).advance bs.length)) ∧
    (∀ v : Int64, Shortest slebValue v.toInt (slebEncode v.toInt) ∧
      ∀ (bs : List UInt8) (bound : (pre ++ bs ++ post).length < 2 ^ 63),
        Shortest slebValue v.toInt bs →
        readSleb128 (.between pre bs post bound avmaBase) =
          (.ok v, (Cursor.between pre bs post bound avmaBase).advance bs.length)) := by
  constructor
  · intro v
    have hcanon := shortest_ulebEncode v.toNat
    refine ⟨hcanon, ?_⟩
    intro bs bound h
    have hv := Cursor.between_valid bound avmaBase
    have ha := Cursor.between_ahead bound avmaBase
    have hlen : bs.length ≤ 10 :=
      Nat.le_trans (h.least _ hcanon.isLeb hcanon.spells) (uleb_word v.toNat_lt).2
    have hword : UInt64.ofNat (ulebValue bs) = v := by
      rw [Int.ofNat_inj.mp h.spells, UInt64.ofNat_toNat]
    rw [(reads_readUleb128 hv ha.rest h.isLeb hlen).2, hword]
  · intro v
    have hcanon := shortest_slebEncode v.toInt
    refine ⟨hcanon, ?_⟩
    intro bs bound h
    have hv := Cursor.between_valid bound avmaBase
    have ha := Cursor.between_ahead bound avmaBase
    have hlen : bs.length ≤ 10 :=
      Nat.le_trans (h.least _ hcanon.isLeb hcanon.spells) (sleb_word v).2
    rw [(reads_readSleb128 hv ha.rest h.isLeb hlen).2, h.spells, Int64.ofInt_toInt]

/-- The ends of the range take ten bytes. -/
theorem widest_roundTrip :
    (ulebEncode (0xffffffffffffffff : UInt64).toNat).length = 10 ∧
    readUleb128 (.between [0xaa] (ulebEncode (0xffffffffffffffff : UInt64).toNat) [0xbb]
      (by decide +kernel) 0) =
        (.ok 0xffffffffffffffff, (Cursor.between [0xaa]
          (ulebEncode (0xffffffffffffffff : UInt64).toNat) [0xbb]
          (by decide +kernel) 0).advance 10) ∧
    (slebEncode Int64.minValue.toInt).length = 10 ∧
    readSleb128 (.between [0xaa] (slebEncode Int64.minValue.toInt) [0xbb] (by decide +kernel) 0) =
      (.ok Int64.minValue, (Cursor.between [0xaa] (slebEncode Int64.minValue.toInt) [0xbb]
        (by decide +kernel) 0).advance 10) := by
  have hu : (ulebEncode (0xffffffffffffffff : UInt64).toNat).length = 10 := by decide +kernel
  have hs : (slebEncode Int64.minValue.toInt).length = 10 := by decide +kernel
  obtain ⟨huleb, hsleb⟩ := leb128_roundTrip [0xaa] [0xbb] 0
  have hmax := (huleb 0xffffffffffffffff).2 _ (by decide +kernel) (shortest_ulebEncode _)
  have hmin := (hsleb Int64.minValue).2 _ (by decide +kernel) (shortest_slebEncode _)
  rw [hu] at hmax
  rw [hs] at hmin
  exact ⟨hu, hmax, hs, hmin⟩

/-- The errors that reject an encoding, rather than the bytes behind it. -/
def IsRejection : DwarfParseErrorKind → Prop
  | .unsupportedPointerEncoding _ | .unsupportedPointerApplication _ => True
  | .omittedPointerEncoding | .indirectPointerRequiresDereference _ => True
  | _ => False

/-- Reading fails with this kind of error. -/
def FailsWith (enc : UInt8) (b : Bases) (c : Cursor) (kind : DwarfParseErrorKind) : Prop :=
  ∃ offset c', readEncoded enc b c = (.err ⟨offset, kind⟩, c')

/-- An encoding is rejected at both cursors or at neither, and for one reason. -/
def SameRejection (enc : UInt8) (b : Bases) (c c' : Cursor) : Prop :=
  ∀ kind, IsRejection kind → (FailsWith enc b c kind ↔ FailsWith enc b c' kind)

/-- The cursor stands before these bytes, an operand of the format if there is one. -/
structure OperandAt (enc : UInt8) (c : Cursor) (bs : List UInt8) : Prop where
  ahead : c.Ahead bs
  shape : ∀ f, Format.ofEnc enc = some f → f.Shape bs

/-- An operand of a known format is not empty. -/
theorem OperandAt.valid {enc : UInt8} {c : Cursor} {bs : List UInt8} (h : OperandAt enc c bs)
    {f : Format} (hf : Format.ofEnc enc = some f) : c.Valid := by
  obtain ⟨b, bs, rfl⟩ := List.exists_cons_of_ne_nil (h.shape f hf).ne_nil
  exact Cursor.valid_of_rest h.ahead.rest

/-- The operand as the reader widens it. -/
def operandRaw (enc : UInt8) (bs : List UInt8) : UInt64 :=
  ((Format.ofEnc enc).map (fun f => f.raw bs)).getD 0

/-- A direct encoding of a known format whose application is not supported. -/
def UnsupportedApplication (enc : UInt8) : Prop :=
  enc ≠ DW_EH_PE_OMIT ∧ enc &&& DW_EH_PE_INDIRECT = 0 ∧ (Format.ofEnc enc).isSome ∧
    ∀ a : Application, enc &&& DW_EH_PE_APP_MASK ≠ a.code

/-- Why an encoding is rejected in front of an operand. -/
def rejection (enc : UInt8) (raw : UInt64) : Option DwarfParseErrorKind :=
  if enc = DW_EH_PE_OMIT then some .omittedPointerEncoding
  else if enc &&& DW_EH_PE_INDIRECT ≠ 0 then some (.indirectPointerRequiresDereference enc)
  else if Format.ofEnc enc = none then some (.unsupportedPointerEncoding enc)
  else if raw ≠ 0 ∧ applied enc raw 0 ⟨0, 0, 0⟩ = none then
    some (.unsupportedPointerApplication enc)
  else none

theorem rejection_isRejection {enc : UInt8} {raw : UInt64} {kind : DwarfParseErrorKind}
    (h : rejection enc raw = some kind) : IsRejection kind := by
  unfold rejection at h
  split at h
  · cases h
    trivial
  · split at h
    · cases h
      trivial
    · split at h
      · cases h
        trivial
      · split at h
        · cases h
          trivial
        · cases h

/-- Whether a base is known depends on the application only. -/
theorem applied_eq_none {enc : UInt8} {raw pcrel : UInt64} {b : Bases} :
    applied enc raw pcrel b = none ↔ ∀ a : Application, enc &&& DW_EH_PE_APP_MASK ≠ a.code := by
  unfold applied
  dsimp only
  constructor
  · intro h a he
    cases a with
    | absolute => simp [he, Application.code] at h
    | pcrel => simp [he, Application.code, DW_EH_PE_PCREL] at h
    | textrel => simp [he, Application.code, DW_EH_PE_PCREL, DW_EH_PE_TEXTREL] at h
    | datarel =>
      simp [he, Application.code, DW_EH_PE_PCREL, DW_EH_PE_TEXTREL, DW_EH_PE_DATAREL] at h
    | funcrel =>
      simp [he, Application.code, DW_EH_PE_PCREL, DW_EH_PE_TEXTREL, DW_EH_PE_DATAREL,
        DW_EH_PE_FUNCREL] at h
  · intro h
    have habs : enc &&& DW_EH_PE_APP_MASK ≠ 0 := h .absolute
    have hpc : enc &&& DW_EH_PE_APP_MASK ≠ DW_EH_PE_PCREL := h .pcrel
    have htext : enc &&& DW_EH_PE_APP_MASK ≠ DW_EH_PE_TEXTREL := h .textrel
    have hdata : enc &&& DW_EH_PE_APP_MASK ≠ DW_EH_PE_DATAREL := h .datarel
    have hfunc : enc &&& DW_EH_PE_APP_MASK ≠ DW_EH_PE_FUNCREL := h .funcrel
    rw [if_neg habs, if_neg hpc, if_neg htext, if_neg hdata, if_neg hfunc]

/-- In front of a complete operand, the reader fails with the rejection or returns. -/
theorem readEncoded_operand {enc : UInt8} {c : Cursor} {bs : List UInt8} (h : OperandAt enc c bs)
    (b : Bases) :
    (∃ offset kind c', rejection enc (operandRaw enc bs) = some kind ∧
      readEncoded enc b c = (.err ⟨offset, kind⟩, c')) ∨
    ∃ v c', rejection enc (operandRaw enc bs) = none ∧ readEncoded enc b c = (.ok v, c') := by
  unfold rejection readEncoded
  by_cases homit : enc = DW_EH_PE_OMIT
  · rw [readEncodedImpl, if_pos homit, if_pos homit]
    exact Or.inl ⟨_, _, _, rfl, fail_apply _ c⟩
  by_cases hind : enc &&& DW_EH_PE_INDIRECT ≠ 0
  · rw [readEncodedImpl, if_neg homit, if_neg homit, if_pos hind, if_pos (by simpa using hind)]
    exact Or.inl ⟨_, _, _, rfl, fail_apply _ c⟩
  rw [if_neg homit, if_neg hind, readEncodedImpl_eq homit (fun hc => hind hc.1),
    StateRes.bind_of_ok (cursor_apply c)]
  cases hf : Format.ofEnc enc with
  | none =>
    rw [if_pos rfl]
    exact Or.inl ⟨_, _, _, rfl, StateRes.bind_of_err (fail_apply _ c)⟩
  | some f =>
    have hshape := h.shape f hf
    have hv := h.valid hf
    have hread := (f.reads hv h.ahead.rest hshape).2
    have hraw : operandRaw enc bs = f.raw bs := by
      rw [operandRaw, hf, Option.map_some, Option.getD_some]
    rw [if_neg (by simp), StateRes.bind_of_ok hread, hraw, resolve, if_neg hind]
    by_cases hz : f.raw bs = 0
    · rw [if_pos hz, if_neg (fun hc => hc.1 hz)]
      exact Or.inr ⟨0, _, rfl, rfl⟩
    · rw [if_neg hz]
      cases happ : applied enc (f.raw bs) c.currentAvma b with
      | none =>
        rw [if_pos ⟨hz, applied_eq_none.mpr (applied_eq_none.mp happ)⟩]
        exact Or.inl ⟨_, _, _, rfl, fail_apply _ _⟩
      | some v =>
        rw [if_neg]
        · exact Or.inr ⟨v, _, rfl, rfl⟩
        · intro hc
          rw [applied_eq_none.mpr (applied_eq_none.mp hc.2)] at happ
          cases happ

theorem failsWith_iff {enc : UInt8} {c : Cursor} {bs : List UInt8} (h : OperandAt enc c bs)
    (b : Bases) (kind : DwarfParseErrorKind) :
    FailsWith enc b c kind ↔ rejection enc (operandRaw enc bs) = some kind := by
  unfold FailsWith
  rcases readEncoded_operand h b with ⟨offset, kind', c', hr, he⟩ | ⟨v, c', hr, he⟩
  · rw [he, hr]
    constructor
    · intro hf
      obtain ⟨_, _, hf⟩ := hf
      cases hf
      rfl
    · intro hk
      cases hk
      exact ⟨offset, c', rfl⟩
  · rw [he, hr]
    constructor
    · intro hf
      obtain ⟨_, _, hf⟩ := hf
      cases hf
    · intro hk
      cases hk

/-- Only whether it is zero can decide what becomes of an operand. -/
theorem rejection_eq_iff (enc : UInt8) (raw raw' : UInt64) :
    rejection enc raw = rejection enc raw' ↔
      ¬ UnsupportedApplication enc ∨ (raw = 0 ↔ raw' = 0) := by
  unfold rejection
  by_cases homit : enc = DW_EH_PE_OMIT
  · rw [if_pos homit, if_pos homit]
    exact iff_of_true rfl (Or.inl (fun h => h.1 homit))
  by_cases hind : enc &&& DW_EH_PE_INDIRECT ≠ 0
  · rw [if_neg homit, if_pos hind, if_neg homit, if_pos hind]
    exact iff_of_true rfl (Or.inl (fun h => hind h.2.1))
  by_cases hf : Format.ofEnc enc = none
  · rw [if_neg homit, if_neg hind, if_pos hf, if_neg homit, if_neg hind, if_pos hf]
    exact iff_of_true rfl (Or.inl (fun h => Option.isSome_iff_ne_none.mp h.2.2.1 hf))
  rw [if_neg homit, if_neg hind, if_neg hf, if_neg homit, if_neg hind, if_neg hf]
  by_cases happ : ∀ a : Application, enc &&& DW_EH_PE_APP_MASK ≠ a.code
  · have hunsupported : UnsupportedApplication enc :=
      ⟨homit, not_not.mp hind, Option.isSome_iff_ne_none.mpr hf, happ⟩
    have hnone : ∀ r, applied enc r 0 ⟨0, 0, 0⟩ = none := fun r => applied_eq_none.mpr happ
    by_cases hz : raw = 0
    · by_cases hz' : raw' = 0
      · simp [hz, hz']
      · simp [hz, hz', hnone, hunsupported]
    · by_cases hz' : raw' = 0
      · simp [hz, hz', hnone, hunsupported]
      · simp [hz, hz', hnone]
  · have hsome : ∀ r, applied enc r 0 ⟨0, 0, 0⟩ ≠ none := fun r h => happ (applied_eq_none.mp h)
    rw [if_neg (fun h => hsome _ h.2), if_neg (fun h => hsome _ h.2)]
    exact iff_of_true rfl (Or.inl (fun h => happ h.2.2.2))

/-- Two operands get an encoding rejected alike exactly if its application is
supported, or it is rejected before they are read, or both or neither are zero. -/
theorem sameRejection_iff (enc : UInt8) (b : Bases) (c c' : Cursor) (bs bs' : List UInt8)
    (h : OperandAt enc c bs) (h' : OperandAt enc c' bs') :
    SameRejection enc b c c' ↔
      ¬ UnsupportedApplication enc ∨ (operandRaw enc bs = 0 ↔ operandRaw enc bs' = 0) := by
  rw [← rejection_eq_iff]
  constructor
  · intro hs
    apply Option.ext
    intro kind
    rw [← failsWith_iff h b, ← failsWith_iff h' b]
    by_cases hk : IsRejection kind
    · exact hs kind hk
    · rw [failsWith_iff h, failsWith_iff h']
      exact iff_of_false (fun he => hk (rejection_isRejection he))
        (fun he => hk (rejection_isRejection he))
  · intro he kind _
    rw [failsWith_iff h, failsWith_iff h', he]

/-- A cursor in front of four bytes. -/
def fourBytes (b : UInt8) : Cursor := ⟨⟨[b, 0, 0, 0], by simp⟩, 0, 0⟩

theorem fourBytes_operand (b : UInt8) :
    OperandAt (DW_EH_PE_ALIGNED ||| DW_EH_PE_UDATA4) (fourBytes b) [b, 0, 0, 0] where
  ahead := rfl
  shape f hf := by
    obtain rfl : Format.udata4 = f := Option.some.inj hf
    rfl

/-- An aligned pointer is accepted for its zero operand and rejected for another. -/
theorem aligned_zero_accepted :
    (readEncoded (DW_EH_PE_ALIGNED ||| DW_EH_PE_UDATA4) ⟨0, 0, 0⟩ (fourBytes 0)).1 = .ok 0 ∧
    (readEncoded (DW_EH_PE_ALIGNED ||| DW_EH_PE_UDATA4) ⟨0, 0, 0⟩ (fourBytes 1)).1 =
      .err ⟨4, .unsupportedPointerApplication (DW_EH_PE_ALIGNED ||| DW_EH_PE_UDATA4)⟩ ∧
    ¬ SameRejection (DW_EH_PE_ALIGNED ||| DW_EH_PE_UDATA4) ⟨0, 0, 0⟩ (fourBytes 0)
      (fourBytes 1) := by
  refine ⟨by decide +kernel, by decide +kernel, ?_⟩
  intro h
  have hfails : FailsWith (DW_EH_PE_ALIGNED ||| DW_EH_PE_UDATA4) ⟨0, 0, 0⟩ (fourBytes 1)
      (.unsupportedPointerApplication (DW_EH_PE_ALIGNED ||| DW_EH_PE_UDATA4)) :=
    (failsWith_iff (fourBytes_operand 1) ⟨0, 0, 0⟩ _).mpr (by decide +kernel)
  have hsame := (h (.unsupportedPointerApplication _) trivial).mpr hfails
  have hzero := (failsWith_iff (fourBytes_operand 0) ⟨0, 0, 0⟩ _).mp hsame
  exact absurd hzero (by decide +kernel)

theorem aligned_nonzero_rejected :
    SameRejection (DW_EH_PE_ALIGNED ||| DW_EH_PE_UDATA4) ⟨0, 0, 0⟩ (fourBytes 1) (fourBytes 2) :=
  (sameRejection_iff _ _ _ _ _ _ (fourBytes_operand 1) (fourBytes_operand 2)).mpr
    (Or.inr (by decide +kernel))

end Unwinder.Dwarf
