import Mathlib.Order.Defs.LinearOrder
import Mathlib.Tactic.Ring
import Unwinder.Lib.Res

namespace Unwinder.Lib

instance linearOrderUInt64 : LinearOrder UInt64 where
  le_refl := UInt64.le_refl
  le_trans _ _ _ := UInt64.le_trans
  lt_iff_le_not_ge a b := by simp only [UInt64.le_iff_toNat_le, UInt64.lt_iff_toNat_lt]; omega
  le_antisymm _ _ := UInt64.le_antisymm
  le_total := UInt64.le_total
  toDecidableLE := inferInstance
  min_def _ _ := rfl
  max_def _ _ := rfl

/-- Addition of machine-word sizes, with the overflow check. -/
def usizeAdd {ε : Type} (a b : Nat) : Res ε Nat :=
  if a + b < 2 ^ 64 then .ok (a + b) else .panic

/-- Subtraction of machine-word sizes, with the underflow check. -/
def usizeSub {ε : Type} (a b : Nat) : Res ε Nat :=
  if b ≤ a then .ok (a - b) else .panic

theorem usizeAdd_of_lt {ε : Type} {a b : Nat} (h : a + b < 2 ^ 64) :
    (usizeAdd a b : Res ε Nat) = .ok (a + b) := if_pos h

/-- Multiplication of machine-word sizes, with the overflow check. -/
def usizeMul {ε : Type} (a b : Nat) : Res ε Nat :=
  if a * b < 2 ^ 64 then .ok (a * b) else .panic

/-- Addition that stops at the largest word. -/
def saturatingAdd (a b : UInt64) : UInt64 :=
  if a.toNat + b.toNat < 2 ^ 64 then a + b else UInt64.ofNat (2 ^ 64 - 1)

/-- Addition that reports an overflow. -/
def checkedAdd64 (a b : UInt64) : Option UInt64 :=
  if a.toNat + b.toNat < 2 ^ 64 then some (a + b) else none

/-- Subtraction that reports an underflow. -/
def checkedSub64 (a b : UInt64) : Option UInt64 := if b ≤ a then some (a - b) else none

theorem saturatingAdd_toNat (a b : UInt64) :
    (saturatingAdd a b).toNat = min (a.toNat + b.toNat) (2 ^ 64 - 1) := by
  unfold saturatingAdd
  have ha := a.toNat_lt
  have hb := b.toNat_lt
  split
  · next h =>
    rw [UInt64.toNat_add, Nat.mod_eq_of_lt h]
    omega
  · next h =>
    rw [UInt64.toNat_ofNat']
    omega

theorem checkedAdd64_eq_some {a b c : UInt64} :
    checkedAdd64 a b = some c ↔ c.toNat = a.toNat + b.toNat := by
  unfold checkedAdd64
  have hc := c.toNat_lt
  split
  · next h =>
    rw [Option.some.injEq, ← UInt64.toNat_inj, UInt64.toNat_add, Nat.mod_eq_of_lt h]
    exact eq_comm
  · next h =>
    constructor
    · intro hn
      cases hn
    · intro he
      omega

theorem eq_add_of_checkedAdd64 {a b c : UInt64} (h : checkedAdd64 a b = some c) : c = a + b := by
  unfold checkedAdd64 at h
  split at h
  · exact (Option.some.inj h).symm
  · cases h

/-- Moving the word by a distance does not wrap around. -/
def Slides (δ : Int) (x : UInt64) : Prop := 0 ≤ x.toNat + δ ∧ x.toNat + δ < 2 ^ 64

theorem Slides.toNat {δ : Int} {x : UInt64} (h : Slides δ x) :
    ((x + UInt64.ofInt δ).toNat : Int) = x.toNat + δ := by
  obtain ⟨h0, h1⟩ := h
  rw [UInt64.toNat_add, UInt64.ofInt, UInt64.toNat_ofNat']
  omega

theorem Slides.le_iff {δ : Int} {x y : UInt64} (hx : Slides δ x) (hy : Slides δ y) :
    x + UInt64.ofInt δ ≤ y + UInt64.ofInt δ ↔ x ≤ y := by
  rw [UInt64.le_iff_toNat_le, UInt64.le_iff_toNat_le]
  have h1 := hx.toNat
  have h2 := hy.toNat
  omega

/-- The word has exactly the given number of low bits set. -/
def LowMask (k : Nat) (m : UInt64) : Prop := m.toNat = 2 ^ k - 1

namespace LowMask

variable {k : Nat} {m x : UInt64}

theorem and_toNat (h : LowMask k m) (x : UInt64) : (x &&& m).toNat = x.toNat % 2 ^ k := by
  rw [UInt64.toNat_and, h, Nat.and_two_pow_sub_one_eq_mod]

theorem and_of_lt (h : LowMask k m) (hx : x.toNat < 2 ^ k) : x &&& m = x := by
  apply UInt64.toNat.inj
  rw [h.and_toNat, Nat.mod_eq_of_lt hx]

/-- Where low bits are left, counting down does not touch those above them. -/
theorem and_sub_one (h : LowMask k m) (hne : x &&& m ≠ 0) : (x - 1) &&& m = (x &&& m) - 1 := by
  have hx := h.and_toNat x
  have hlt := x.toNat_lt
  have hlow : x.toNat % 2 ^ k ≠ 0 := by
    intro hz
    rw [hz] at hx
    exact hne (UInt64.toNat.inj hx)
  have hle : x.toNat % 2 ^ k ≤ x.toNat := Nat.mod_le _ _
  have hpred : ∀ y : UInt64, y.toNat ≠ 0 → (y - 1).toNat = y.toNat - 1 := by
    intro y hy
    exact UInt64.toNat_sub_of_le y 1 (UInt64.le_iff_toNat_le.mpr (Nat.one_le_iff_ne_zero.mpr hy))
  apply UInt64.toNat.inj
  rw [h.and_toNat, hpred x (by omega), hpred _ (by rw [hx]; exact hlow), hx]
  have hsplit := Nat.div_add_mod x.toNat (2 ^ k)
  have hbound : x.toNat % 2 ^ k < 2 ^ k := Nat.mod_lt _ (Nat.two_pow_pos k)
  calc (x.toNat - 1) % 2 ^ k
      = (2 ^ k * (x.toNat / 2 ^ k) + (x.toNat % 2 ^ k - 1)) % 2 ^ k := by congr 1; omega
    _ = (x.toNat % 2 ^ k - 1) % 2 ^ k := Nat.mul_add_mod _ _ _
    _ = x.toNat % 2 ^ k - 1 := Nat.mod_eq_of_lt (by omega)

end LowMask

/-- The number a byte string spells, least significant byte first. -/
def leValue : List UInt8 → Nat
  | [] => 0
  | b :: bs => b.toNat + 256 * leValue bs

/-- The `w` low bytes of a number, least significant byte first. -/
def leBytes : Nat → Nat → List UInt8
  | 0, _ => []
  | w + 1, n => UInt8.ofNat (n % 256) :: leBytes w (n / 256)

@[simp] theorem leBytes_length (w n : Nat) : (leBytes w n).length = w := by
  induction w generalizing n with
  | zero => rfl
  | succ w ih => simp [leBytes, ih]

theorem leValue_lt (bs : List UInt8) : leValue bs < 256 ^ bs.length := by
  induction bs with
  | nil => simp [leValue]
  | cons b bs ih =>
    have hb : b.toNat < 256 := b.toNat_lt
    simp only [leValue, List.length_cons, Nat.pow_succ]
    omega

/-- Reading back the low bytes of a number gives the number modulo their range. -/
theorem leValue_leBytes (w n : Nat) : leValue (leBytes w n) = n % 256 ^ w := by
  induction w generalizing n with
  | zero => simp [leBytes, leValue, Nat.mod_one]
  | succ w ih =>
    have hb : (UInt8.ofNat (n % 256)).toNat = n % 256 := by
      simp
    rw [leBytes, leValue, ih, hb, Nat.pow_succ', Nat.mod_mul]

theorem leValue_leBytes_of_lt {w n : Nat} (h : n < 256 ^ w) : leValue (leBytes w n) = n := by
  rw [leValue_leBytes, Nat.mod_eq_of_lt h]

/-- A byte string is the low bytes of the number it spells. -/
theorem leBytes_leValue (bs : List UInt8) : leBytes bs.length (leValue bs) = bs := by
  induction bs with
  | nil => rfl
  | cons b bs ih =>
    have hb : b.toNat < 256 := b.toNat_lt
    have hm : (b.toNat + 256 * leValue bs) % 256 = b.toNat := by omega
    have hd : (b.toNat + 256 * leValue bs) / 256 = leValue bs := by omega
    simp only [List.length_cons, leBytes, leValue, hm, hd, ih]
    simp

end Unwinder.Lib
