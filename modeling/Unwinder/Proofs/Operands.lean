import Unwinder.Proofs.Cursor

namespace Unwinder.Dwarf
open Lib

theorem byte_continues (b : UInt8) : b &&& 0x80 = 0 ↔ b.toNat < 128 := by
  cases b with | ofBitVec v => revert v; decide +kernel

theorem byte_payload (b : UInt8) : (b &&& 0x7f).toNat = b.toNat % 128 := by
  cases b with | ofBitVec v => revert v; decide +kernel

theorem byte_sign (b : UInt8) : b &&& 0x40 ≠ 0 ↔ 64 ≤ b.toNat % 128 := by
  cases b with | ofBitVec v => revert v; decide +kernel

theorem shl64_of_lt {ε : Type} {v : UInt64} {s : Nat} (h : s < 64) :
    (shl64 v s : Res ε UInt64) = .ok (v <<< UInt64.ofNat s) := if_pos h

/-- One group of seven bits added to the accumulator. -/
theorem group_toNat {r : UInt64} {s : Nat} (b : UInt8) (hs : s < 64) (hr : r.toNat < 2 ^ s) :
    (r ||| (b &&& 0x7f).toUInt64 <<< UInt64.ofNat s).toNat =
      (r.toNat + b.toNat % 128 * 2 ^ s) % 2 ^ 64 := by
  rw [or_shl_toNat hs hr, UInt8.toNat_toUInt64, byte_payload]

/-- While another group can follow, the accumulator has room for it. -/
theorem group_lt {r : UInt64} {s : Nat} (b : UInt8) (hr : r.toNat < 2 ^ s) :
    r.toNat + b.toNat % 128 * 2 ^ s < 2 ^ (s + 7) := by
  have hb : b.toNat % 128 < 128 := Nat.mod_lt _ (by omega)
  calc r.toNat + b.toNat % 128 * 2 ^ s < 2 ^ s + b.toNat % 128 * 2 ^ s := by omega
    _ = (b.toNat % 128 + 1) * 2 ^ s := by ring
    _ ≤ 128 * 2 ^ s := Nat.mul_le_mul_right _ hb
    _ = 2 ^ (s + 7) := by rw [Nat.pow_add]; ring

/-- The accumulator behind a group that is not the last one. -/
theorem group_next {r : UInt64} {s : Nat} (b : UInt8) (hs : s + 7 < 64) (hr : r.toNat < 2 ^ s) :
    (r ||| (b &&& 0x7f).toUInt64 <<< UInt64.ofNat s).toNat = r.toNat + b.toNat % 128 * 2 ^ s ∧
    (r ||| (b &&& 0x7f).toUInt64 <<< UInt64.ofNat s).toNat < 2 ^ (s + 7) := by
  have hlt := group_lt b hr
  have hpow : (2 : Nat) ^ (s + 7) ≤ 2 ^ 64 := Nat.pow_le_pow_right (by omega) (by omega)
  rw [group_toNat b (by omega) hr, Nat.mod_eq_of_lt (by omega)]
  exact ⟨rfl, hlt⟩

section Leb

variable {α : Type} {finish : UInt64 → UInt8 → Nat → Res DwarfParseError α}

/-- The loop hands the finished accumulator, the last byte and the shift behind
it to `finish`. -/
theorem reads_lebLoop {bs tl : List UInt8} {c : Cursor} {r : UInt64} {s : Nat} {a : α}
    (hv : c.Valid) (h : c.rest = bs ++ tl) (hl : IsLeb bs) (hs : s + 7 * bs.length ≤ 70)
    (hr : r.toNat < 2 ^ s)
    (hf : finish (UInt64.ofNat (r.toNat + ulebValue bs * 2 ^ s)) (bs.getLast?.getD 0)
      (s + 7 * bs.length) = .ok a) :
    Reads (lebLoop finish r s) c bs a := by
  induction bs generalizing c r s with
  | nil => exact absurd hl (by simp [IsLeb])
  | cons b bs ih =>
    have hlen : (b :: bs).length = bs.length + 1 := rfl
    have hbyte := reads_readU8 hv (show c.rest = b :: (bs ++ tl) from h)
    rw [lebLoop]
    refine Reads.bind hbyte ?_
    rw [shl64_of_lt (by omega), StateRes.lift_ok_bind]
    by_cases hb : b.toNat < 128
    · -- the last byte
      have hnil : bs = [] := by simpa [IsLeb, hb] using hl
      subst hnil
      have hval : UInt64.ofNat (r.toNat + ulebValue [b] * 2 ^ s) =
          r ||| (b &&& 0x7f).toUInt64 <<< UInt64.ofNat s := by
        apply UInt64.toNat.inj
        rw [group_toNat b (by omega) hr, UInt64.toNat_ofNat']
        simp [ulebValue]
      rw [if_pos ((byte_continues b).mpr hb)]
      rw [hval] at hf
      exact ⟨rfl, congrArg (fun x => (x, c.advance 1)) hf⟩
    · have hrest : IsLeb bs := by simpa [IsLeb, hb] using hl
      have hne : bs ≠ [] := by
        intro he
        simp [he, IsLeb] at hrest
      have hpos : 0 < bs.length := List.length_pos_iff.mpr hne
      rw [if_neg (fun he => hb ((byte_continues b).mp he)), if_neg (by omega)]
      obtain ⟨hn, hlt⟩ := group_next b (by omega) hr
      refine ih (hbyte.valid hv) (Cursor.rest_advance (show c.rest = [b] ++ (bs ++ tl) from h)) hrest (by omega) hlt ?_
      have hval : r.toNat + ulebValue (b :: bs) * 2 ^ s =
          (r ||| (b &&& 0x7f).toUInt64 <<< UInt64.ofNat s).toNat + ulebValue bs * 2 ^ (s + 7) := by
        rw [hn, ulebValue, Nat.pow_add]
        ring
      obtain ⟨d, ds, rfl⟩ := List.exists_cons_of_ne_nil hne
      rw [hval, List.getLast?_cons_cons, hlen] at hf
      rw [show s + 7 + 7 * (d :: ds).length = s + 7 * ((d :: ds).length + 1) by ring]
      exact hf

/-- The errors of the LEB128 loops. -/
def IsLebError (e : DwarfParseError) : Prop :=
  e.kind = .leb128Overflow ∨ ∃ needed len, e.kind = .truncated needed len

/-- Either a LEB128 number of at most the bytes the shift leaves room for comes
next, or the loop fails inside the slice. -/
theorem lebLoop_cases (finish : UInt64 → UInt8 → Nat → Res DwarfParseError α) {c : Cursor}
    (r : UInt64) (s : Nat) (hv : c.Valid) (hs : s < 64) :
    (∃ bs tl, c.rest = bs ++ tl ∧ IsLeb bs ∧ s + 7 * bs.length ≤ 70) ∨
      ∃ e n, lebLoop finish r s c = (.err e, c.advance n) ∧ (c.advance n).Valid ∧ IsLebError e := by
  induction hm : 64 - s using Nat.strongRecOn generalizing c r s with
  | ind m ih =>
    subst hm
    cases hr : c.rest with
    | nil =>
      have he : lebLoop finish r s c = (.err ⟨c.pos, .truncated (c.pos + 1) c.bytes.len⟩, c) := by
        rw [lebLoop, StateRes.bind_of_err (readU8_nil hv hr)]
      exact Or.inr ⟨_, 0, he, hv, Or.inr ⟨_, _, rfl⟩⟩
    | cons b tl =>
      by_cases hb : b.toNat < 128
      · refine Or.inl ⟨[b], tl, rfl, by simp [IsLeb, hb], ?_⟩
        simp only [List.length_singleton]
        omega
      · have hcons : c.rest = [b] ++ tl := hr
        have hval := Cursor.valid_advance hv hcons
        have hstep : lebLoop finish r s c = (if 64 ≤ s + 7 then fail .leb128Overflow
            else lebLoop finish (r ||| (b &&& 0x7f).toUInt64 <<< UInt64.ofNat s) (s + 7))
              (c.advance 1) := by
          rw [lebLoop, StateRes.bind_of_ok (readU8_cons hv hr), shl64_of_lt hs,
            StateRes.lift_ok_bind, if_neg (fun he => hb ((byte_continues b).mp he))]
        by_cases hover : 64 ≤ s + 7
        · exact Or.inr ⟨_, 1, by rw [hstep, if_pos hover]; rfl, hval, Or.inl rfl⟩
        · rw [if_neg hover] at hstep
          rcases ih (64 - (s + 7)) (by omega) _ (s + 7) hval (by omega) rfl with
            hleb | ⟨e, n, he, hn, hkind⟩
          · obtain ⟨bs, tl', hrest, hl, hlen⟩ := hleb
            refine Or.inl ⟨b :: bs, tl', ?_, by simpa [IsLeb, hb] using hl, ?_⟩
            · rw [List.cons_append, ← hrest, Cursor.rest_advance hcons]
            · simp only [List.length_cons]
              omega
          · rw [Cursor.advance_advance] at he hn
            exact Or.inr ⟨e, 1 + n, hstep.trans he, hn, hkind⟩

/-- Reading with a finisher that always succeeds accepts exactly the numbers of
at most ten bytes. -/
theorem lebLoop_safe_inv (hfin : ∀ r b s, ∃ a, finish r b s = .ok a) :
    Safe (lebLoop finish 0 0) ∧ ∀ c bs a, c.Valid → Reads (lebLoop finish 0 0) c bs a →
      IsLeb bs ∧ bs.length ≤ 10 := by
  have hread : ∀ c bs tl, c.Valid → c.rest = bs ++ tl → IsLeb bs → bs.length ≤ 10 →
      ∃ a, Reads (lebLoop finish 0 0) c bs a := by
    intro c bs tl hv h hl hlen
    obtain ⟨a, ha⟩ := hfin (UInt64.ofNat ((0 : UInt64).toNat + ulebValue bs * 2 ^ 0))
      (bs.getLast?.getD 0) (0 + 7 * bs.length)
    exact ⟨a, reads_lebLoop hv h hl (by omega) (by simp) ha⟩
  constructor
  · intro c hv
    rcases lebLoop_cases finish 0 0 hv (by omega) with
      ⟨bs, tl, h, hl, hlen⟩ | ⟨e, n, he, hn, -⟩
    · obtain ⟨a, ha⟩ := hread c bs tl hv h hl (by omega)
      exact ⟨.ok a, bs.length, ha.2, ha.valid hv, by simp⟩
    · exact ⟨.err e, n, he, hn, by simp⟩
  · intro c bs a hv hr
    rcases lebLoop_cases finish 0 0 hv (by omega) with
      ⟨xs, tl, h, hl, hlen⟩ | ⟨e, n, he, -⟩
    · obtain ⟨a', ha⟩ := hread c xs tl hv h hl (by omega)
      have hpos := congrArg (fun r => r.2.pos) (ha.2.symm.trans hr.2)
      simp only [Cursor.advance_pos, Nat.add_left_cancel_iff] at hpos
      have hbs : bs = xs := by rw [← hr.1, ← ha.1, hpos]
      subst hbs
      exact ⟨hl, by omega⟩
    · have := hr.2
      rw [he] at this
      simp at this

end Leb

theorem reads_readUleb128 {bs tl : List UInt8} {c : Cursor} (hv : c.Valid) (h : c.rest = bs ++ tl)
    (hl : IsLeb bs) (hs : bs.length ≤ 10) :
    Reads readUleb128 c bs (UInt64.ofNat (ulebValue bs)) :=
  reads_lebLoop hv h hl (by omega) (by simp) (by simp)

/-- A word read as a signed number is any number that it is modulo two to the
power of 64. -/
theorem toInt64_eq_ofInt {v : UInt64} {i : Int} (h : (v.toNat : Int) = i % 2 ^ 64) :
    v.toInt64 = Int64.ofInt i := by
  apply Int64.toBitVec.inj
  apply BitVec.eq_of_toNat_eq
  change v.toNat = _
  rw [Int64.toBitVec_ofInt, BitVec.toNat_ofInt]
  omega

/-- Sign extension turns the gathered bits into the signed value, also when the
ten bytes of the encoding leave no bit to extend. -/
theorem signExtend_leb (bs : List UInt8) :
    signExtend (UInt64.ofNat (ulebValue bs)) (bs.getLast?.getD 0) (7 * bs.length) =
      .ok (Int64.ofInt (slebValue bs)) := by
  unfold signExtend
  by_cases hsign : 64 ≤ (bs.getLast?.getD 0).toNat % 128
  · have hval : slebValue bs = ulebValue bs - (2 ^ (7 * bs.length) : Nat) := by
      rw [slebValue, if_pos hsign, pow_128]
    by_cases hshift : 7 * bs.length < 64
    · rw [if_pos ⟨hshift, (byte_sign _).mpr hsign⟩, shl64_of_lt hshift]
      simp only [Res.ok_bind, Res.pure_eq, Res.ok.injEq]
      have hlow := ulebValue_lt bs
      have hle : (2 : Nat) ^ (7 * bs.length) ≤ 2 ^ 63 := Nat.pow_le_pow_right (by omega) (by omega)
      have hbits : (UInt64.ofNat (ulebValue bs)).toNat = ulebValue bs := by
        rw [UInt64.toNat_ofNat', Nat.mod_eq_of_lt (by omega)]
      have hm1 : (-1 : Int64).toUInt64.toNat = 2 ^ 64 - 1 := by decide
      apply toInt64_eq_ofInt
      rw [or_shl_toNat hshift (by omega), hbits, hm1, hval]
      generalize 2 ^ (7 * bs.length) = p at *
      omega
    · rw [if_neg (fun he => hshift he.1)]
      congr 1
      apply toInt64_eq_ofInt
      obtain ⟨k, hk⟩ : ∃ k, 7 * bs.length = 64 + k := ⟨7 * bs.length - 64, by omega⟩
      rw [UInt64.toNat_ofNat', hval, hk, Nat.pow_add]
      generalize 2 ^ k = p
      omega
  · have hval : slebValue bs = ulebValue bs := by
      rw [slebValue, if_neg hsign, sub_zero]
    rw [if_neg (fun he => hsign ((byte_sign _).mp he.2)), hval]
    rfl

theorem reads_readSleb128 {bs tl : List UInt8} {c : Cursor} (hv : c.Valid) (h : c.rest = bs ++ tl)
    (hl : IsLeb bs) (hs : bs.length ≤ 10) :
    Reads readSleb128 c bs (Int64.ofInt (slebValue bs)) :=
  reads_lebLoop hv h hl (by omega) (by simp) (by simpa using signExtend_leb bs)

theorem signExtend_ok (r : UInt64) (b : UInt8) (s : Nat) : ∃ a, signExtend r b s = .ok a := by
  unfold signExtend
  split
  · next h => exact ⟨_, by rw [shl64_of_lt h.1]; rfl⟩
  · exact ⟨_, rfl⟩

theorem safe_readUleb128 : Safe readUleb128 :=
  (lebLoop_safe_inv (fun r _ _ => ⟨r, rfl⟩)).1

theorem safe_readSleb128 : Safe readSleb128 := (lebLoop_safe_inv signExtend_ok).1

theorem Reads.uleb {c : Cursor} {bs : List UInt8} {v : UInt64} (h : Reads readUleb128 c bs v)
    (hv : c.Valid) : IsLeb bs ∧ bs.length ≤ 10 :=
  (lebLoop_safe_inv (fun r _ _ => ⟨r, rfl⟩)).2 c bs v hv h

theorem Reads.sleb {c : Cursor} {bs : List UInt8} {v : Int64} (h : Reads readSleb128 c bs v)
    (hv : c.Valid) : IsLeb bs ∧ bs.length ≤ 10 :=
  (lebLoop_safe_inv signExtend_ok).2 c bs v hv h

end Unwinder.Dwarf
