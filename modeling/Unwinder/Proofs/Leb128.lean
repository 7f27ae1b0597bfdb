import Mathlib.Data.List.Basic
import Unwinder.Proofs.Fields

namespace Unwinder.Dwarf
open Lib

/-- At this cursor a LEB128 reader returns the number that the bytes it consumes
spell, and reports an error for a number that does not fit. -/
structure LebExact {α : Type} (read : Parse α) (value : List UInt8 → Int) (toInt : α → Int)
    (fits : Int → Prop) (c : Cursor) : Prop where
  exact : ∀ v c', read c = (.ok v, c') → toInt v = value (c.rest.take (c'.pos - c.pos))
  rejects : ∀ bs tl, c.rest = bs ++ tl → IsLeb bs → ¬ fits (value bs) →
    ∃ e c', read c = (.err e, c') ∧ IsLebError e

def FitsU64 (n : Int) : Prop := 0 ≤ n ∧ n < 2 ^ 64

def FitsI64 (n : Int) : Prop := -2 ^ 63 ≤ n ∧ n < 2 ^ 63

def UlebExact : Cursor → Prop :=
  LebExact readUleb128 (fun bs => ulebValue bs) (fun v => v.toNat) FitsU64

def SlebExact : Cursor → Prop := LebExact readSleb128 slebValue Int64.toInt FitsI64

section Loop

variable {α : Type} {finish : UInt64 → UInt8 → Nat → Res DwarfParseError α} {c : Cursor}

/-- Without a byte left nothing is read, wherever the cursor stands. -/
theorem lebLoop_nil (r : UInt64) (s : Nat) (h : c.rest = []) (v : α) (c' : Cursor) :
    lebLoop finish r s c ≠ (.ok v, c') := by
  have hnone : c.bytes.data[c.pos]? = none := by
    rw [← List.head?_drop]
    exact congrArg List.head? h
  intro hr
  rw [lebLoop, StateRes.bind_eq_ok] at hr
  obtain ⟨b, t, hbyte, -⟩ := hr
  unfold readU8 at hbyte
  rw [StateRes.bind_of_ok (cursor_apply c), hnone] at hbyte
  obtain ⟨n, t', -, hfail⟩ := StateRes.bind_eq_ok.mp hbyte
  cases hfail

/-- A reader is exact where no number of up to ten bytes comes next that does not
fit: these it accepts, and what they spell is cut to 64 bits. -/
theorem lebExact_iff (wrap : List UInt8 → α) {value : List UInt8 → Int} {toInt : α → Int}
    {fits : Int → Prop}
    (hreads : ∀ bs tl, c.Valid → c.rest = bs ++ tl → IsLeb bs → bs.length ≤ 10 →
      Reads (lebLoop finish 0 0) c bs (wrap bs))
    (hwrap : ∀ bs, toInt (wrap bs) = value bs ↔ fits (value bs)) :
    LebExact (lebLoop finish 0 0) value toInt fits c ↔
      ∀ bs tl, c.rest = bs ++ tl → IsLeb bs → bs.length ≤ 10 → fits (value bs) := by
  constructor
  · intro h bs tl hrest hl hlen
    have hv : c.Valid := by
      cases bs with
      | nil => exact absurd hl (by simp [IsLeb])
      | cons b bs => exact Cursor.valid_of_rest hrest
    obtain ⟨htake, hread⟩ := hreads bs tl hv hrest hl hlen
    have he := h.exact _ _ hread
    rw [Cursor.advance_pos, Nat.add_sub_cancel_left, htake] at he
    exact (hwrap bs).mp he
  · intro h
    cases hrest : c.rest with
    | nil =>
      refine ⟨fun v c' hr => absurd hr (lebLoop_nil 0 0 hrest v c'), ?_⟩
      intro bs tl he hl
      rw [hrest, eq_comm, List.append_eq_nil_iff] at he
      rw [he.1] at hl
      exact absurd hl (by simp [IsLeb])
    | cons b tl =>
      have hv := Cursor.valid_of_rest hrest
      rcases lebLoop_cases finish 0 0 hv (by omega) with
        ⟨bs, tl, hrest, hl, hlen⟩ | ⟨e, n, herr, -, hkind⟩
      · obtain ⟨htake, hread⟩ := hreads bs tl hv hrest hl (by omega)
        refine ⟨?_, ?_⟩
        · intro v c' hr
          cases hread.symm.trans hr
          rw [Cursor.advance_pos, Nat.add_sub_cancel_left, htake]
          exact (hwrap bs).mpr (h bs tl hrest hl (by omega))
        · intro bs' tl' hrest' hl' hbig
          have hsame := hl.unique hl' (hrest.symm.trans hrest')
          rw [← hsame] at hbig
          exact absurd (h bs tl hrest hl (by omega)) hbig
      · refine ⟨?_, fun _ _ _ _ _ => ⟨e, _, herr, hkind⟩⟩
        intro v c' hr
        cases herr.symm.trans hr

end Loop

/-- A number of ten bytes comes next, and this is its last byte. -/
def TenthByte (c : Cursor) (b : UInt8) : Prop :=
  ∃ init tl, c.rest = init ++ b :: tl ∧ init.length = 9 ∧ IsLeb (init ++ [b])

theorem init_lt {init : List UInt8} (h : init.length = 9) : ulebValue init < 2 ^ 63 := by
  have hlt := ulebValue_lt init
  rwa [h] at hlt

theorem ulebValue_ten {init : List UInt8} {b : UInt8} (h : init.length = 9)
    (hl : IsLeb (init ++ [b])) : ulebValue (init ++ [b]) = ulebValue init + 2 ^ 63 * b.toNat := by
  have hb := hl.last_lt
  rw [ulebValue_append, h, ulebValue, ulebValue, Nat.mod_eq_of_lt hb]
  norm_num

theorem fitsU64_ten {init : List UInt8} {b : UInt8} (h : init.length = 9)
    (hl : IsLeb (init ++ [b])) : FitsU64 (ulebValue (init ++ [b]) : Nat) ↔ b.toNat ≤ 1 := by
  have hinit := init_lt h
  rw [ulebValue_ten h hl, FitsU64]
  omega

theorem fitsI64_ten {init : List UInt8} {b : UInt8} (h : init.length = 9)
    (hl : IsLeb (init ++ [b])) :
    FitsI64 (slebValue (init ++ [b])) ↔ b.toNat = 0 ∨ b.toNat = 0x7f := by
  have hinit := init_lt h
  have hb := hl.last_lt
  have hlen : (init ++ [b]).length = 10 := by rw [List.length_append, h, List.length_singleton]
  rw [slebValue, ulebValue_ten h hl, hlen, List.getLast?_concat, Option.getD_some,
    Nat.mod_eq_of_lt hb, FitsI64]
  split
  · omega
  · omega

/-- A number of up to nine bytes fits. -/
theorem fitsU64_short {bs : List UInt8} (h : bs.length ≤ 9) : FitsU64 (ulebValue bs : Nat) := by
  have hlt := ulebValue_lt bs
  have hle : 2 ^ (7 * bs.length) ≤ 2 ^ 63 := Nat.pow_le_pow_right (by omega) (by omega)
  rw [FitsU64]
  omega

theorem fitsI64_short {bs : List UInt8} (h : bs.length ≤ 9) : FitsI64 (slebValue bs) := by
  have hlt := ulebValue_lt bs
  have hle : 2 ^ (7 * bs.length) ≤ 2 ^ 63 := Nat.pow_le_pow_right (by omega) (by omega)
  rw [slebValue, pow_128, FitsI64]
  split
  · omega
  · omega

/-- Only the last byte of a ten-byte number can make it too large. -/
theorem fits_iff_tenthByte {c : Cursor} {fits : List UInt8 → Prop} {ok : UInt8 → Prop}
    (hshort : ∀ bs, bs.length ≤ 9 → fits bs)
    (hten : ∀ init b, init.length = 9 → IsLeb (init ++ [b]) → (fits (init ++ [b]) ↔ ok b)) :
    (∀ bs tl, c.rest = bs ++ tl → IsLeb bs → bs.length ≤ 10 → fits bs) ↔
      ∀ b, TenthByte c b → ok b := by
  constructor
  · intro h b hb
    obtain ⟨init, tl, hrest, hlen, hl⟩ := hb
    refine (hten init b hlen hl).mp (h (init ++ [b]) tl ?_ hl ?_)
    · rw [hrest, List.append_assoc, List.singleton_append]
    · rw [List.length_append, hlen, List.length_singleton]
  · intro h bs tl hrest hl hlen
    by_cases hnine : bs.length ≤ 9
    · exact hshort bs hnine
    · obtain ⟨init, b, rfl⟩ : ∃ init b, bs = init ++ [b] :=
        (List.eq_nil_or_concat' bs).resolve_left (fun he => hnine (by simp [he]))
      rw [List.length_append, List.length_singleton] at hlen hnine
      have hinit : init.length = 9 := by omega
      refine (hten init b hinit hl).mpr (h b ⟨init, tl, ?_, hinit, hl⟩)
      rw [hrest, List.append_assoc, List.singleton_append]

theorem ulebExact_iff (c : Cursor) : UlebExact c ↔ ∀ b, TenthByte c b → b.toNat ≤ 1 := by
  refine (lebExact_iff (fun bs => UInt64.ofNat (ulebValue bs)) ?_ ?_).trans
    (fits_iff_tenthByte (fun bs => fitsU64_short) (fun init b => fitsU64_ten))
  · intro bs tl hv h hl hlen
    exact reads_readUleb128 hv h hl hlen
  · intro bs
    rw [UInt64.toNat_ofNat', FitsU64]
    omega

theorem slebExact_iff (c : Cursor) :
    SlebExact c ↔ ∀ b, TenthByte c b → b.toNat = 0 ∨ b.toNat = 0x7f := by
  refine (lebExact_iff (fun bs => Int64.ofInt (slebValue bs)) ?_ ?_).trans
    (fits_iff_tenthByte (fun bs => fitsI64_short) (fun init b => fitsI64_ten))
  · intro bs tl hv h hl hlen
    exact reads_readSleb128 hv h hl hlen
  · intro bs
    rw [Int64.toInt_ofInt, FitsI64]
    constructor
    · intro he
      rw [← he]
      exact ⟨Int.le_bmod (by decide), Int.bmod_lt (by decide)⟩
    · intro hf
      exact Int.bmod_eq_of_le hf.1 hf.2

/-- Both readers are exact but for a tenth byte with bits that 64 bits do not hold. -/
theorem leb128_exact_iff (c : Cursor) :
    (UlebExact c ↔ ∀ b, TenthByte c b → b.toNat ≤ 1) ∧
    (SlebExact c ↔ ∀ b, TenthByte c b → b.toNat = 0 ∨ b.toNat = 0x7f) :=
  ⟨ulebExact_iff c, slebExact_iff c⟩

/-- Nine groups of zeros and a tenth byte: two to the power of 64 with a two, two
to the power of 63 with a one. -/
def tenBytes (b : UInt8) : Cursor :=
  ⟨⟨List.replicate 9 0x80 ++ [b], by simp⟩, 0, 0⟩

theorem tenBytes_cut :
    ¬ UlebExact (tenBytes 2) ∧ (readUleb128 (tenBytes 2)).1 = .ok 0 ∧
      ulebValue (tenBytes 2).rest = 2 ^ 64 ∧
    ¬ SlebExact (tenBytes 1) ∧ (readSleb128 (tenBytes 1)).1 = .ok (-2 ^ 63) ∧
      slebValue (tenBytes 1).rest = 2 ^ 63 := by
  refine ⟨?_, by decide +kernel, by decide +kernel, ?_, by decide +kernel, by decide +kernel⟩
  · intro h
    have hb := (ulebExact_iff _).mp h 2 ⟨List.replicate 9 0x80, [], rfl, rfl, by decide⟩
    exact absurd hb (by decide)
  · intro h
    have hb := (slebExact_iff _).mp h 1 ⟨List.replicate 9 0x80, [], rfl, rfl, by decide⟩
    exact absurd hb (by decide)

end Unwinder.Dwarf
