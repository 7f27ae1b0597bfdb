import Mathlib.Data.Nat.Bitwise
import Unwinder.Native.ExprTree

namespace Unwinder.Native
open Lib

section Signed

variable {x y v : UInt64}

theorem signed_eq (x : UInt64) :
    signed x = if x.toNat < 2 ^ 63 then (x.toNat : Int) else x.toNat - 2 ^ 64 := by
  have hbits : signed x = x.toBitVec.toInt := rfl
  have hnat : x.toBitVec.toNat = x.toNat := rfl
  rw [hbits, BitVec.toInt_eq_toNat_cond, hnat]
  split <;> split <;> omega

theorem ofInt_signed (x : UInt64) : UInt64.ofInt (signed x) = x := by
  have hx := x.toNat_lt
  apply UInt64.toNat.inj
  rw [UInt64.ofInt, UInt64.toNat_ofNat', signed_eq]
  split <;> omega

/-- A word from a number that agrees with it modulo the size of a word. -/
theorem ofInt_natCast {n : Nat} (h : v.toNat = n % 2 ^ 64) : UInt64.ofInt n = v := by
  apply UInt64.toNat.inj
  rw [UInt64.ofInt, UInt64.toNat_ofNat', h]
  omega

theorem signBit_iff_signed (x : UInt64) : x &&& ((1 : UInt64) <<< 63) ≠ 0 ↔ signed x < 0 := by
  have hx := x.toNat_lt
  have hbit : x.toNat.testBit 63 = decide (2 ^ 63 ≤ x.toNat) := by
    rw [Nat.testBit_eq_decide_div_mod_eq]
    simp only [decide_eq_decide]
    omega
  have hsign : ((1 : UInt64) <<< 63).toNat = 2 ^ 63 := rfl
  rw [ne_eq, ← UInt64.toNat_inj, UInt64.toNat_and, hsign, Nat.and_two_pow, UInt64.toNat_zero, hbit,
    signed_eq]
  by_cases hle : 2 ^ 63 ≤ x.toNat
  · simp only [hle, decide_true, Bool.toNat_true]
    rw [if_neg (not_lt.mpr hle)]
    omega
  · simp only [hle, decide_false, Bool.toNat_false]
    rw [if_pos (not_le.mp hle)]
    omega

theorem ofInt_neg_signed (x : UInt64) : UInt64.ofInt (-signed x) = ~~~x + 1 := by
  rw [UInt64.ofInt_neg, ofInt_signed, UInt64.neg_eq_not_add]

/-- A quotient that fits is no quotient that overflows. -/
theorem quotient_fits (h : (signed x).tdiv (signed y) < 2 ^ 63) :
    ¬ (x.toInt64 = Int64.minValue ∧ y.toInt64 = -1) := by
  rintro ⟨hx, hy⟩
  unfold signed at h
  rw [hx, hy] at h
  exact absurd h (by decide)

theorem signed_quotient (h : (signed x).tdiv (signed y) < 2 ^ 63) :
    (x.toInt64 / y.toInt64).toInt = (signed x).tdiv (signed y) := by
  by_cases hmin : x.toInt64 = Int64.minValue
  · exact Int64.toInt_div_of_ne_right _ _ (fun hy => quotient_fits h ⟨hmin, hy⟩)
  · exact Int64.toInt_div_of_ne_left _ _ hmin

theorem signed_shiftRight (h : y.toNat < 64) :
    (x.toInt64 >>> y.toInt64).toInt = signed x / 2 ^ y.toNat := by
  have hmod : y.toBitVec.smod 64 = y.toBitVec := by
    apply BitVec.eq_of_toInt_eq
    have hsmall : y.toBitVec.toInt = (y.toNat : Int) := by
      have hy : signed y = y.toBitVec.toInt := rfl
      rw [← hy, signed_eq, if_pos (by omega)]
    rw [BitVec.toInt_smod, hsmall]
    exact Int.fmod_eq_of_lt (by omega) (by change (y.toNat : Int) < 64; omega)
  change (x.toBitVec.sshiftRight' (y.toBitVec.smod 64)).toInt = _
  rw [hmod, BitVec.toInt_sshiftRight', Int.shiftRight_eq_div_pow]
  rfl

end Signed

/-- The operators compute what they mean. -/
theorem UnaryOp.apply_eq (op : UnaryOp) (x : UInt64) :
    op.apply x = UInt64.ofInt (op.meaning (signed x)) := by
  cases op with
  | abs =>
    simp only [apply, meaning]
    by_cases h : x &&& ((1 : UInt64) <<< 63) ≠ 0
    · rw [if_pos h, abs_of_neg ((signBit_iff_signed x).mp h), ofInt_neg_signed]
    · rw [if_neg h, abs_of_nonneg (not_lt.mp (mt (signBit_iff_signed x).mpr h)), ofInt_signed]
  | neg => exact (ofInt_neg_signed x).symm
  | not =>
    simp only [apply, meaning]
    rw [Int.sub_eq_add_neg, UInt64.ofInt_add, ofInt_neg_signed, UInt64.ofInt_neg_one, UInt64.add_assoc]
    exact (UInt64.add_zero _).symm

theorem BinaryOp.truth_eq {p : Prop} [Decidable p] {b : Bool} (h : b = true ↔ p) :
    truth b = UInt64.ofInt (if p then 1 else 0) := by
  cases b with
  | true =>
    rw [if_pos (h.mp rfl)]
    rfl
  | false =>
    rw [if_neg (fun hp => Bool.false_ne_true (h.mpr hp))]
    rfl

theorem BinaryOp.apply_of_meaning {op : BinaryOp} {x y : UInt64} {n : Int}
    (h : op.meaning x y = some n) : op.apply y x = some (UInt64.ofInt n) := by
  have hnonzero : ∀ y : UInt64, y.toNat ≠ 0 → y ≠ 0 := by
    rintro y hy rfl
    exact hy rfl
  have hlt : ∀ y : UInt64, y.toNat < 64 → y < 64 := fun y hy => UInt64.lt_iff_toNat_lt.mpr hy
  cases op with
  | and =>
    cases h
    refine congrArg some (ofInt_natCast ?_).symm
    rw [UInt64.toNat_and, Nat.and_comm, ← UInt64.toNat_and, Nat.mod_eq_of_lt (UInt64.toNat_lt _)]
  | or =>
    cases h
    refine congrArg some (ofInt_natCast ?_).symm
    rw [UInt64.toNat_or, Nat.or_comm, ← UInt64.toNat_or, Nat.mod_eq_of_lt (UInt64.toNat_lt _)]
  | xor =>
    cases h
    refine congrArg some (ofInt_natCast ?_).symm
    rw [UInt64.toNat_xor, Nat.xor_comm, ← UInt64.toNat_xor, Nat.mod_eq_of_lt (UInt64.toNat_lt _)]
  | plus =>
    cases h
    rw [UInt64.ofInt_add, ofInt_signed, ofInt_signed, UInt64.add_comm]
    rfl
  | minus =>
    cases h
    rw [Int.sub_eq_add_neg, UInt64.ofInt_add, UInt64.ofInt_neg, ofInt_signed, ofInt_signed,
      ← UInt64.sub_eq_add_neg]
    rfl
  | mul =>
    cases h
    rw [UInt64.ofInt_mul, ofInt_signed, ofInt_signed]
    simp only [apply]
    split
    · next hz => rw [hz, UInt64.mul_zero]
    · rfl
  | div =>
    simp only [meaning, Option.ite_none_right_eq_some] at h
    obtain ⟨⟨hy, hfits⟩, hn⟩ := h
    obtain rfl := Option.some.inj hn
    have hy' : y ≠ 0 := by
      rintro rfl
      exact hy rfl
    simp only [apply]
    rw [if_neg hy', if_neg (quotient_fits hfits), ← signed_quotient hfits]
    exact congrArg some (ofInt_signed _).symm
  | mod =>
    simp only [meaning, Option.ite_none_right_eq_some] at h
    obtain ⟨hy, hn⟩ := h
    obtain rfl := Option.some.inj hn
    simp only [apply]
    rw [if_neg (hnonzero y hy)]
    refine congrArg some (ofInt_natCast ?_).symm
    rw [UInt64.toNat_mod, ← UInt64.toNat_mod, Nat.mod_eq_of_lt (UInt64.toNat_lt _)]
  | shl =>
    simp only [meaning, Option.ite_none_right_eq_some] at h
    obtain ⟨hy, hn⟩ := h
    obtain rfl := Option.some.inj hn
    simp only [apply]
    rw [if_pos (hlt y hy)]
    refine congrArg some (ofInt_natCast ?_).symm
    rw [UInt64.toNat_shiftLeft, Nat.mod_eq_of_lt hy, Nat.shiftLeft_eq]
  | shr =>
    simp only [meaning, Option.ite_none_right_eq_some] at h
    obtain ⟨hy, hn⟩ := h
    obtain rfl := Option.some.inj hn
    have hx := x.toNat_lt
    have hdiv := Nat.div_le_self x.toNat (2 ^ y.toNat)
    simp only [apply]
    rw [if_pos (hlt y hy)]
    refine congrArg some (ofInt_natCast ?_).symm
    rw [UInt64.toNat_shiftRight, Nat.mod_eq_of_lt hy, Nat.shiftRight_eq_div_pow,
      Nat.mod_eq_of_lt (by omega)]
  | shra =>
    simp only [meaning, Option.ite_none_right_eq_some] at h
    obtain ⟨hy, hn⟩ := h
    obtain rfl := Option.some.inj hn
    simp only [apply]
    rw [if_pos (hlt y hy), ← signed_shiftRight hy]
    exact congrArg some (ofInt_signed _).symm
  | le | ge =>
    cases h
    refine congrArg some (truth_eq ?_)
    rw [decide_eq_true_iff, Int64.le_iff_toInt_le]
    rfl
  | lt | gt =>
    cases h
    refine congrArg some (truth_eq ?_)
    rw [decide_eq_true_iff, Int64.lt_iff_toInt_lt]
    rfl
  | eq =>
    cases h
    refine congrArg some (truth_eq ?_)
    rw [decide_eq_true_iff, ← Int64.toInt_inj]
    rfl
  | ne =>
    cases h
    refine congrArg some (truth_eq ?_)
    rw [decide_eq_true_iff, ne_eq, ← Int64.toInt_inj]
    rfl

end Unwinder.Native
