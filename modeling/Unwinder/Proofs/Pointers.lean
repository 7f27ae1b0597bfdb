import Unwinder.Dwarf.Layout
import Unwinder.Proofs.Operands

namespace Unwinder.Dwarf
open Lib

def Format.read : Format → Parse UInt64
  | absptr | udata8 => readU64
  | udata2 => UInt16.toUInt64 <$> readU16
  | udata4 => UInt32.toUInt64 <$> readU32
  | sdata2 => (fun v => v.toInt16.toInt64.toUInt64) <$> readU16
  | sdata4 => (fun v => v.toInt32.toInt64.toUInt64) <$> readU32
  | sdata8 => (fun v => v.toInt64.toUInt64) <$> readU64
  | uleb128 => readUleb128
  | sleb128 => Int64.toUInt64 <$> readSleb128

theorem direct_format (enc : UInt8) :
    enc &&& ~~~DW_EH_PE_INDIRECT &&& DW_EH_PE_FORMAT_MASK = enc &&& DW_EH_PE_FORMAT_MASK := by
  cases enc with | ofBitVec v => revert v; decide +kernel

theorem direct_app (enc : UInt8) :
    enc &&& ~~~DW_EH_PE_INDIRECT &&& DW_EH_PE_APP_MASK = enc &&& DW_EH_PE_APP_MASK := by
  cases enc with | ofBitVec v => revert v; decide +kernel

/-- The format switch of the source is the lookup of the format. -/
theorem readRaw_eq (enc : UInt8) :
    readRaw enc (enc &&& ~~~DW_EH_PE_INDIRECT) =
      match Format.ofEnc enc with
      | some f => f.read
      | none => fail (.unsupportedPointerEncoding enc) := by
  unfold readRaw Format.ofEnc
  simp only [direct_format]
  generalize enc &&& DW_EH_PE_FORMAT_MASK = m
  simp only [Format.all, List.find?_cons, List.find?_nil, Format.code, eq_comm (b := m)]
  by_cases h0 : m = DW_EH_PE_ABSPTR
  · simp [h0, Format.read]
  by_cases h1 : m = DW_EH_PE_UDATA2
  · subst h1; rfl
  by_cases h2 : m = DW_EH_PE_UDATA4
  · subst h2; rfl
  by_cases h3 : m = DW_EH_PE_UDATA8
  · subst h3; rfl
  by_cases h4 : m = DW_EH_PE_SDATA2
  · subst h4; rfl
  by_cases h5 : m = DW_EH_PE_SDATA4
  · subst h5; rfl
  by_cases h6 : m = DW_EH_PE_SDATA8
  · subst h6; rfl
  by_cases h7 : m = DW_EH_PE_ULEB128
  · subst h7; rfl
  by_cases h8 : m = DW_EH_PE_SLEB128
  · subst h8; rfl
  simp [h0, h1, h2, h3, h4, h5, h6, h7, h8]

theorem applyBase_eq (enc : UInt8) (raw pcrel : UInt64) (b : Bases) :
    applyBase enc (enc &&& ~~~DW_EH_PE_INDIRECT) raw pcrel b =
      match applied enc raw pcrel b with
      | some v => pure v
      | none => fail (.unsupportedPointerApplication enc) := by
  unfold applyBase applied
  simp only [direct_app]
  repeat' split
  all_goals first | rfl | simp_all

theorem Format.safe (f : Format) : Safe f.read := by
  cases f with
  | absptr => exact safe_readU64
  | udata8 => exact safe_readU64
  | udata2 => exact safe_readU16.map _
  | udata4 => exact safe_readU32.map _
  | sdata2 => exact safe_readU16.map _
  | sdata4 => exact safe_readU32.map _
  | sdata8 => exact safe_readU64.map _
  | uleb128 => exact safe_readUleb128
  | sleb128 => exact safe_readSleb128.map _

theorem zext16 {bs : List UInt8} (h : bs.length = 2) :
    (UInt16.ofNat (leValue bs)).toUInt64 = UInt64.ofNat (leValue bs) := by
  have := leValue_lt bs
  rw [h] at this
  apply UInt64.toNat.inj
  simp only [UInt16.toNat_toUInt64, UInt16.toNat_ofNat', UInt64.toNat_ofNat']
  omega

theorem zext32 {bs : List UInt8} (h : bs.length = 4) :
    (UInt32.ofNat (leValue bs)).toUInt64 = UInt64.ofNat (leValue bs) := by
  have := leValue_lt bs
  rw [h] at this
  apply UInt64.toNat.inj
  simp only [UInt32.toNat_toUInt64, UInt32.toNat_ofNat', UInt64.toNat_ofNat']
  omega

theorem Format.reads {f : Format} {c : Cursor} {bs tl : List UInt8} (hv : c.Valid)
    (h : c.rest = bs ++ tl) (hs : f.Shape bs) : Reads f.read c bs (f.raw bs) := by
  cases f with
  | absptr => exact (reads_readFixed hv h hs (by omega)).map _
  | udata8 => exact (reads_readFixed hv h hs (by omega)).map _
  | sdata8 => exact ((reads_readFixed hv h hs (by omega)).map _).map _
  | udata2 =>
    rw [show Format.raw .udata2 bs = UInt64.ofNat (leValue bs) from rfl, ← zext16 hs]
    exact ((reads_readFixed hv h hs (by omega)).map _).map _
  | udata4 =>
    rw [show Format.raw .udata4 bs = UInt64.ofNat (leValue bs) from rfl, ← zext32 hs]
    exact ((reads_readFixed hv h hs (by omega)).map _).map _
  | sdata2 => exact ((reads_readFixed hv h hs (by omega)).map _).map _
  | sdata4 => exact ((reads_readFixed hv h hs (by omega)).map _).map _
  | uleb128 => exact reads_readUleb128 hv h hs.1 hs.2
  | sleb128 => exact (reads_readSleb128 hv h hs.1 hs.2).map _

/-- A read of a fixed-width word took that many bytes. -/
theorem Reads.width {α : Type} {c : Cursor} {n : Nat} {bs : List UInt8} {f : List UInt8 → α} {v : α}
    (h : Reads (f <$> readFixed n) c bs v) (hv : c.Valid) (hn : n < 2 ^ 63) : bs.length = n := by
  obtain ⟨_, hr, _⟩ := h.of_map
  exact (hr.fixed hv hn).1

theorem Reads.shape {f : Format} {c : Cursor} {bs : List UInt8} {v : UInt64}
    (h : Reads f.read c bs v) (hv : c.Valid) : f.Shape bs := by
  cases f with
  | absptr => exact h.width hv (by omega)
  | udata8 => exact h.width hv (by omega)
  | udata2 => obtain ⟨_, hr, _⟩ := h.of_map; exact hr.width hv (by omega)
  | udata4 => obtain ⟨_, hr, _⟩ := h.of_map; exact hr.width hv (by omega)
  | sdata2 => obtain ⟨_, hr, _⟩ := h.of_map; exact hr.width hv (by omega)
  | sdata4 => obtain ⟨_, hr, _⟩ := h.of_map; exact hr.width hv (by omega)
  | sdata8 => obtain ⟨_, hr, _⟩ := h.of_map; exact hr.width hv (by omega)
  | uleb128 => exact h.uleb hv
  | sleb128 => obtain ⟨_, hr, _⟩ := h.of_map; exact hr.sleb hv

/-- No format has an empty operand. -/
theorem Format.Shape.ne_nil {f : Format} {bs : List UInt8} (h : f.Shape bs) : bs ≠ [] := by
  rintro rfl
  cases f with
  | uleb128 => exact absurd h.1 (by simp [IsLeb])
  | sleb128 => exact absurd h.1 (by simp [IsLeb])
  | _ => cases h

/-- A routine reads one value from given bytes. -/
theorem Reads.unique {α : Type} {p : Parse α} {c : Cursor} {bs : List UInt8} {a b : α}
    (ha : Reads p c bs a) (hb : Reads p c bs b) : a = b := by
  have := ha.2.symm.trans hb.2
  simpa using this

theorem safe_readRaw (enc : UInt8) : Safe (readRaw enc (enc &&& ~~~DW_EH_PE_INDIRECT)) := by
  rw [readRaw_eq]
  cases Format.ofEnc enc with
  | none => exact safe_fail _
  | some f => exact f.safe

theorem safe_applyBase (enc : UInt8) (raw pcrel : UInt64) (b : Bases) :
    Safe (applyBase enc (enc &&& ~~~DW_EH_PE_INDIRECT) raw pcrel b) := by
  rw [applyBase_eq]
  cases applied enc raw pcrel b with
  | none => exact safe_fail _
  | some v => exact Safe.pure v

theorem safe_readEncodedImpl (enc : UInt8) (b : Bases) (ok : Bool) :
    Safe (readEncodedImpl enc b ok) := by
  unfold readEncodedImpl
  refine Safe.ite (safe_fail _) (Safe.ite (safe_fail _) ?_)
  refine safe_cursor.bind (fun c => (safe_readRaw enc).bind (fun raw => ?_))
  exact Safe.ite (Safe.pure 0) (Safe.ite (Safe.pure 0) (safe_applyBase enc raw _ b))

theorem fail_apply {α : Type} (kind : DwarfParseErrorKind) (c : Cursor) :
    (fail kind : Parse α) c = (.err ⟨c.pos, kind⟩, c) := rfl

theorem not_reads_fail {α : Type} {kind : DwarfParseErrorKind} {c : Cursor} {bs : List UInt8} {a : α} :
    ¬ Reads (fail kind) c bs a := by
  intro h
  simpa [fail_apply] using h.2

/-- A sequence whose second part only decides reads what its first part reads. -/
theorem reads_bind_orFail {α β : Type} {x : Parse α} {g : α → Option β}
    {kind : DwarfParseErrorKind} {c : Cursor} {bs : List UInt8} {v : β} :
    Reads (x >>= fun a => orFail kind (g a)) c bs v ↔ ∃ a, Reads x c bs a ∧ g a = some v := by
  constructor
  · intro h
    obtain ⟨a, t, hx, hr⟩ := StateRes.bind_eq_ok.mp h.2
    cases hg : g a with
    | none => simp [hg, orFail, fail_apply] at hr
    | some w =>
      simp only [hg, orFail, StateRes.pure_apply, Prod.mk.injEq, Res.ok.injEq] at hr
      obtain ⟨rfl, rfl⟩ := hr
      exact ⟨a, ⟨h.1, hx⟩, hg⟩
  · intro h
    obtain ⟨a, hx, hg⟩ := h
    have htail : Reads (orFail kind (g a)) (c.advance bs.length) [] v := by
      rw [hg]
      exact reads_pure v _
    simpa using Reads.bind (f := fun a => orFail kind (g a)) hx htail

/-- What becomes of a raw operand. -/
def resolve (enc : UInt8) (raw pcrel : UInt64) (b : Bases) : Option UInt64 :=
  if enc &&& DW_EH_PE_INDIRECT ≠ 0 then some 0
  else if raw = 0 then some 0
  else applied enc raw pcrel b

theorem readEncodedImpl_eq {enc : UInt8} {b : Bases} {ok : Bool} (homit : enc ≠ DW_EH_PE_OMIT)
    (hind : ¬ (enc &&& DW_EH_PE_INDIRECT ≠ 0 ∧ ok = false)) :
    readEncodedImpl enc b ok = cursor >>= fun c =>
      (match Format.ofEnc enc with
        | some f => f.read
        | none => fail (.unsupportedPointerEncoding enc)) >>= fun raw =>
      orFail (.unsupportedPointerApplication enc) (resolve enc raw c.currentAvma b) := by
  unfold readEncodedImpl
  rw [if_neg homit, if_neg (by simpa using hind)]
  simp only [readRaw_eq, applyBase_eq]
  congr 1
  funext c
  congr 1
  funext raw
  unfold resolve
  simp only [decide_eq_true_eq]
  split
  · rfl
  · split
    · rfl
    · cases applied enc raw c.currentAvma b <;> rfl

theorem pointerValue_eq {enc : UInt8} {b : Bases} {ok : Bool} {pcrel : UInt64} {bs : List UInt8}
    (homit : enc ≠ DW_EH_PE_OMIT) (hind : ¬ (enc &&& DW_EH_PE_INDIRECT ≠ 0 ∧ ok = false)) :
    pointerValue enc ok b pcrel bs = (Format.ofEnc enc).bind (fun f =>
      if f.Shape bs then resolve enc (f.raw bs) pcrel b else none) := by
  unfold pointerValue resolve
  rw [if_neg homit, if_neg hind]
  cases Format.ofEnc enc with
  | none => rfl
  | some f =>
    simp only [Option.bind_some]
    by_cases hs : f.Shape bs <;> simp [hs]

/-- Reading an encoded pointer returns exactly the address its bytes stand for. -/
theorem reads_readEncodedImpl {enc : UInt8} {b : Bases} {ok : Bool} {c : Cursor}
    {bs : List UInt8} {v : UInt64} (hv : c.Valid) :
    Reads (readEncodedImpl enc b ok) c bs v ↔
      c.rest.take bs.length = bs ∧ pointerValue enc ok b c.currentAvma bs = some v := by
  by_cases homit : enc = DW_EH_PE_OMIT
  · simp only [readEncodedImpl, pointerValue, homit, if_pos]
    exact ⟨fun h => absurd h not_reads_fail, by simp⟩
  by_cases hind : enc &&& DW_EH_PE_INDIRECT ≠ 0 ∧ ok = false
  · unfold readEncodedImpl pointerValue
    rw [if_neg homit, if_neg homit, if_pos hind, if_pos (by simp [hind.1, hind.2])]
    exact ⟨fun h => absurd h not_reads_fail, by simp⟩
  rw [readEncodedImpl_eq homit hind, pointerValue_eq homit hind]
  have hcur : ∀ (k : Cursor → Parse UInt64),
      Reads (cursor >>= k) c bs v ↔ Reads (k c) c bs v := fun k => Iff.rfl
  rw [hcur, reads_bind_orFail]
  cases Format.ofEnc enc with
  | none => exact ⟨fun ⟨_, h, _⟩ => absurd h not_reads_fail, by simp⟩
  | some f =>
    simp only [Option.bind_some]
    constructor
    · intro h
      obtain ⟨raw, hr, hres⟩ := h
      have hs := hr.shape hv
      have he : raw = f.raw bs := hr.unique (f.reads hv hr.rest hs)
      rw [if_pos hs, ← he]
      exact ⟨hr.1, hres⟩
    · intro h
      obtain ⟨hp, hres⟩ := h
      by_cases hs : f.Shape bs
      · rw [if_pos hs] at hres
        have hrest : c.rest = bs ++ c.rest.drop bs.length := by
          rw [← List.take_append_drop bs.length c.rest, hp]
          simp
        exact ⟨_, f.reads hv hrest hs, hres⟩
      · simp [hs] at hres

end Unwinder.Dwarf
