import Unwinder.Lib.Runs
import Unwinder.Proofs.Pointers

namespace Unwinder.Dwarf
open Lib

/-- The reads that a cursor offers. -/
inductive CursorOp where
  | readU8
  | readU16
  | readU32
  | readU64
  | readUleb128
  | readSleb128
  | readEncoded (enc : UInt8) (b : Bases)
  | readEncodedPersonality (enc : UInt8) (b : Bases)

namespace CursorOp

def Value : CursorOp → Type
  | readU8 => UInt8
  | readU16 => UInt16
  | readU32 => UInt32
  | readSleb128 => Int64
  | readU64 | readUleb128 | readEncoded _ _ | readEncodedPersonality _ _ => UInt64

def run : (op : CursorOp) → Parse op.Value
  | readU8 => Dwarf.readU8
  | readU16 => Dwarf.readU16
  | readU32 => Dwarf.readU32
  | readU64 => Dwarf.readU64
  | readUleb128 => Dwarf.readUleb128
  | readSleb128 => Dwarf.readSleb128
  | readEncoded enc b => Dwarf.readEncoded enc b
  | readEncodedPersonality enc b => Dwarf.readEncodedPersonality enc b

/-- The reads of a width that does not depend on the bytes. -/
def FixedWidth : CursorOp → Prop
  | readU8 | readU16 | readU32 | readU64 => True
  | _ => False

/-- The cursor behind a read, whether or not it succeeded. -/
def step (c : Cursor) (op : CursorOp) : Cursor := (op.run c).2

end CursorOp

/-- What is reported as truncated is the slice, and more than it has was needed. -/
def TruthfulError (s : Slice) (e : DwarfParseError) : Prop :=
  ∀ needed len, e.kind = .truncated needed len → len = s.len ∧ len < needed

/-- Where reading from a cursor may lead: forward, and not out of the slice. -/
structure Cursor.Reaches (c d : Cursor) : Prop where
  slice : d.bytes = c.bytes
  forward : c.pos ≤ d.pos
  inside : d.pos ≤ c.bytes.len

/-- A read at a cursor stays in its slice. A failed bounds check, a position that
overflows and a shift by 64 bits or more would each be a panic. -/
structure InBounds (c : Cursor) (op : CursorOp) : Prop where
  noPanic : (op.run c).1 ≠ .panic
  reaches : c.Reaches (op.step c)
  consumes : ∀ v, (op.run c).1 = .ok v → c.pos < (op.step c).pos
  keeps : op.FixedWidth → ∀ e, (op.run c).1 = .err e → op.step c = c
  truthful : ∀ e, (op.run c).1 = .err e → TruthfulError c.bytes e

section Truthful

variable {α : Type}

abbrev Truthful (p : Parse α) : Prop := Errors TruthfulError p

theorem truthful_fail {kind : DwarfParseErrorKind}
    (hk : ∀ needed len, kind ≠ .truncated needed len) : Truthful (fail kind : Parse α) :=
  errors_fail (fun _ _ needed len he => absurd he (hk needed len))

theorem truthful_truncated (s : Slice) (offset needed : Nat) (h : s.len < needed) :
    TruthfulError s ⟨offset, .truncated needed s.len⟩ := by
  intro needed' len he
  cases he
  exact ⟨rfl, h⟩

theorem truthful_readU8 : Truthful readU8 := by
  intro c c' e hv h
  cases hr : c.rest with
  | nil =>
    rw [readU8_nil hv hr] at h
    have hlen := Cursor.rest_length hv
    rw [hr, List.length_nil] at hlen
    cases h
    exact truthful_truncated c.bytes c.pos _ (by omega)
  | cons b tl =>
    rw [readU8_cons hv hr] at h
    cases h

theorem truthful_lebLoop {finish : UInt64 → UInt8 → Nat → Res DwarfParseError α}
    (hfin : ∀ r b s, ∃ a, finish r b s = .ok a) (r : UInt64) (s : Nat) (hs : s < 64) :
    Truthful (lebLoop finish r s) := by
  induction hm : 64 - s using Nat.strongRecOn generalizing r s with
  | ind m ih =>
    subst hm
    rw [lebLoop]
    refine truthful_readU8.bind safe_readU8 (fun b => ?_)
    rw [shl64_of_lt hs, StateRes.lift_ok_bind]
    refine Errors.ite ?_ ?_
    · obtain ⟨a, ha⟩ := hfin (r ||| (b &&& 0x7f).toUInt64 <<< UInt64.ofNat s) b (s + 7)
      rw [ha]
      exact Errors.pure a
    · by_cases hover : 64 ≤ s + 7
      · rw [if_pos hover]
        exact truthful_fail (by simp)
      · rw [if_neg hover]
        exact ih (64 - (s + 7)) (by omega) _ _ (by omega) rfl

theorem Format.truthful (f : Format) : Truthful f.read := by
  have h16 : Truthful readU16 := errors_readU16 truthful_truncated
  have h32 : Truthful readU32 := errors_readU32 truthful_truncated
  have h64 : Truthful readU64 := errors_readU64 truthful_truncated
  cases f with
  | absptr => exact h64
  | udata8 => exact h64
  | udata2 => exact h16.map _ safe_readU16
  | udata4 => exact h32.map _ safe_readU32
  | sdata2 => exact h16.map _ safe_readU16
  | sdata4 => exact h32.map _ safe_readU32
  | sdata8 => exact h64.map _ safe_readU64
  | uleb128 => exact truthful_lebLoop (fun r _ _ => ⟨r, rfl⟩) 0 0 (by omega)
  | sleb128 => exact (truthful_lebLoop signExtend_ok 0 0 (by omega)).map _ safe_readSleb128

theorem truthful_readRaw (enc : UInt8) :
    Truthful (readRaw enc (enc &&& ~~~DW_EH_PE_INDIRECT)) := by
  rw [readRaw_eq]
  cases Format.ofEnc enc with
  | none => exact truthful_fail (by simp)
  | some f => exact f.truthful

theorem truthful_applyBase (enc : UInt8) (raw pcrel : UInt64) (b : Bases) :
    Truthful (applyBase enc (enc &&& ~~~DW_EH_PE_INDIRECT) raw pcrel b) := by
  rw [applyBase_eq]
  cases applied enc raw pcrel b with
  | none => exact truthful_fail (by simp)
  | some v => exact Errors.pure v

theorem truthful_readEncodedImpl (enc : UInt8) (b : Bases) (ok : Bool) :
    Truthful (readEncodedImpl enc b ok) := by
  unfold readEncodedImpl
  refine Errors.ite (truthful_fail (by simp)) (Errors.ite (truthful_fail (by simp)) ?_)
  refine errors_cursor.bind safe_cursor (fun c => ?_)
  refine (truthful_readRaw enc).bind (safe_readRaw enc) (fun raw => ?_)
  exact Errors.ite (Errors.pure 0) (Errors.ite (Errors.pure 0)
    (truthful_applyBase enc raw _ b))

end Truthful

/-- An address stands for bytes that are there. -/
theorem pointerValue_ne_nil {enc : UInt8} {ok : Bool} {b : Bases} {pcrel v : UInt64}
    {bs : List UInt8} (h : pointerValue enc ok b pcrel bs = some v) : bs ≠ [] := by
  unfold pointerValue at h
  split at h
  · cases h
  split at h
  · cases h
  split at h
  · cases h
  · next f hf =>
    split at h
    · cases h
    · next hshape => exact (not_not.mp hshape).ne_nil

theorem readFixed_keeps {α : Type} {f : List UInt8 → α} {n : Nat} {c c' : Cursor}
    {e : DwarfParseError} (hv : c.Valid) (hn : n < 2 ^ 63)
    (h : (f <$> readFixed n) c = (.err e, c')) : c' = c := by
  rcases readFixed_cases hv hn with ⟨bs, hr, -⟩ | ⟨he, -⟩
  · cases (hr.map f).2.symm.trans h
  · cases (StateRes.bind_of_err he).symm.trans h
    rfl

namespace CursorOp

variable {c : Cursor}

theorem safe (op : CursorOp) : Safe op.run := by
  cases op with
  | readU8 => exact safe_readU8
  | readU16 => exact safe_readU16
  | readU32 => exact safe_readU32
  | readU64 => exact safe_readU64
  | readUleb128 => exact safe_readUleb128
  | readSleb128 => exact safe_readSleb128
  | readEncoded enc b => exact safe_readEncodedImpl enc b false
  | readEncodedPersonality enc b => exact safe_readEncodedImpl enc b true

theorem truthful (op : CursorOp) : Truthful op.run := by
  cases op with
  | readU8 => exact truthful_readU8
  | readU16 => exact errors_readU16 truthful_truncated
  | readU32 => exact errors_readU32 truthful_truncated
  | readU64 => exact errors_readU64 truthful_truncated
  | readUleb128 => exact truthful_lebLoop (fun r _ _ => ⟨r, rfl⟩) 0 0 (by omega)
  | readSleb128 => exact truthful_lebLoop signExtend_ok 0 0 (by omega)
  | readEncoded enc b => exact truthful_readEncodedImpl enc b false
  | readEncodedPersonality enc b => exact truthful_readEncodedImpl enc b true

/-- No read succeeds on no bytes. -/
theorem reads_ne_nil {op : CursorOp} {bs : List UInt8} {v : op.Value} (h : Reads op.run c bs v)
    (hv : c.Valid) : bs ≠ [] := by
  cases op with
  | readU8 =>
    rw [h.byte hv]
    simp
  | readU16 => exact List.ne_nil_of_length_pos (by rw [h.width hv (by omega)]; omega)
  | readU32 => exact List.ne_nil_of_length_pos (by rw [h.width hv (by omega)]; omega)
  | readU64 => exact List.ne_nil_of_length_pos (by rw [h.width hv (by omega)]; omega)
  | readUleb128 => exact Format.Shape.ne_nil (f := .uleb128) (h.uleb hv)
  | readSleb128 => exact Format.Shape.ne_nil (f := .sleb128) (h.sleb hv)
  | readEncoded enc b => exact pointerValue_ne_nil ((reads_readEncodedImpl hv).mp h).2
  | readEncodedPersonality enc b => exact pointerValue_ne_nil ((reads_readEncodedImpl hv).mp h).2

theorem fixedWidth_keeps {op : CursorOp} {c' : Cursor} {e : DwarfParseError}
    (hf : op.FixedWidth) (hv : c.Valid) (h : op.run c = (.err e, c')) : c' = c := by
  cases op with
  | readU8 =>
    cases hr : c.rest with
    | nil =>
      cases (readU8_nil hv hr).symm.trans h
      rfl
    | cons b tl => cases (readU8_cons hv hr).symm.trans h
  | readU16 => exact readFixed_keeps hv (by omega) h
  | readU32 => exact readFixed_keeps hv (by omega) h
  | readU64 => exact readFixed_keeps hv (by omega) h
  | _ => exact hf.elim

/-- Each read at a position in the slice stays in the slice. -/
theorem inBounds (op : CursorOp) (hv : c.Valid) : InBounds c op := by
  obtain ⟨r, n, hrun, hvalid, hpanic⟩ := op.safe c hv
  have hstep : op.step c = c.advance n := congrArg Prod.snd hrun
  have hres : (op.run c).1 = r := congrArg Prod.fst hrun
  refine ⟨by rwa [hres], ?_, ?_, ?_, ?_⟩
  · rw [hstep]
    exact ⟨rfl, Nat.le_add_right _ _, hvalid⟩
  · intro v h
    rw [hres] at h
    rw [h] at hrun
    obtain ⟨bs, hreads, hadv, -⟩ := op.safe.reads hv hrun
    have hpos := List.length_pos_iff.mpr (reads_ne_nil hreads hv)
    rw [hstep, hadv, Cursor.advance_pos]
    omega
  · intro hf e h
    exact fixedWidth_keeps hf hv (Prod.ext h rfl)
  · intro e h
    exact op.truthful c _ e hv (Prod.ext h rfl)

end CursorOp

theorem Cursor.Reaches.valid {c d : Cursor} (h : c.Reaches d) : d.Valid := by
  unfold Cursor.Valid
  rw [h.slice]
  exact h.inside

theorem Cursor.Reaches.step {c d : Cursor} (h : c.Reaches d) (op : CursorOp) :
    c.Reaches (op.step d) := by
  obtain ⟨hslice, hforward, hinside⟩ := (op.inBounds h.valid).reaches
  rw [h.slice] at hslice hinside
  exact ⟨hslice, Nat.le_trans h.forward hforward, hinside⟩

/-- Whatever is read in whatever order, each read stays in the slice, and the position
only moves forward in it. -/
theorem cursor_inBounds (c : Cursor) (hv : c.Valid) (ops : List CursorOp) :
    EachStep CursorOp.step InBounds c ops ∧ Always CursorOp.step c.Reaches c ops := by
  have hstart : c.Reaches c := ⟨rfl, Nat.le_refl _, hv⟩
  constructor
  · exact eachStep_of_inv (I := c.Reaches) (fun d op h => h.step op)
      (fun d op h => op.inBounds h.valid) hstart
  · rw [always_iff_shorter]
    intro shorter _
    exact runFrom_inv (fun d op _ h => h.step op) hstart

/-- Seven bytes that end inside a number. -/
def cutNumber : Cursor := ⟨⟨[5, 1, 0, 0, 0, 0x80, 0x80], by simp⟩, 0, 0⟩

/-- Reads that fail before, behind and inside of what they read. -/
def failingReads : List CursorOp :=
  [.readU64, .readU8, .readEncoded (DW_EH_PE_ALIGNED ||| DW_EH_PE_UDATA4) ⟨0, 0, 0⟩, .readSleb128,
    .readU8]

theorem failingReads_inBounds :
    (EachStep CursorOp.step InBounds cutNumber failingReads ∧
      Always CursorOp.step cutNumber.Reaches cutNumber failingReads) ∧
    (runFrom CursorOp.step cutNumber failingReads).pos = 7 :=
  ⟨cursor_inBounds cutNumber (by unfold Cursor.Valid; decide) failingReads, by decide +kernel⟩

end Unwinder.Dwarf
