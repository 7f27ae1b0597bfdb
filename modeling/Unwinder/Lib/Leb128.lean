import Mathlib.Data.Int.Basic
import Mathlib.Data.List.Basic
import Mathlib.Tactic.Linarith
import Mathlib.Tactic.Ring

namespace Unwinder.Lib

/-- The shape of one LEB128 number: every byte but the last has its high bit set. -/
def IsLeb : List UInt8 → Prop
  | [] => False
  | b :: bs => if b.toNat < 128 then bs = [] else IsLeb bs

instance decidableIsLeb : (bs : List UInt8) → Decidable (IsLeb bs)
  | [] => inferInstanceAs (Decidable False)
  | b :: bs =>
    have := decidableIsLeb bs
    inferInstanceAs (Decidable (if b.toNat < 128 then bs = [] else IsLeb bs))

/-- The unsigned number spelled by the low seven bits of every byte. -/
def ulebValue : List UInt8 → Nat
  | [] => 0
  | b :: bs => b.toNat % 128 + 128 * ulebValue bs

/-- The signed number: bit six of the last byte is the sign. -/
def slebValue (bs : List UInt8) : Int :=
  ulebValue bs - if 64 ≤ (bs.getLast?.getD 0).toNat % 128 then 128 ^ bs.length else 0

/-- The shortest unsigned encoding. -/
def ulebEncode (n : Nat) : List UInt8 :=
  if n < 128 then [UInt8.ofNat n] else UInt8.ofNat (n % 128 + 128) :: ulebEncode (n / 128)
termination_by n
decreasing_by omega

/-- The shortest signed encoding. -/
def slebEncode (i : Int) : List UInt8 :=
  if -64 ≤ i ∧ i < 64 then [UInt8.ofNat (i % 128).toNat]
  else UInt8.ofNat ((i % 128).toNat + 128) :: slebEncode (i / 128)
termination_by i.natAbs
decreasing_by omega

/-- Where a number ends follows from its bytes. -/
theorem IsLeb.unique {bs bs' tl tl' : List UInt8} (h : IsLeb bs) (h' : IsLeb bs')
    (he : bs ++ tl = bs' ++ tl') : bs = bs' := by
  induction bs generalizing bs' with
  | nil => exact absurd h (by simp [IsLeb])
  | cons b bs ih =>
    cases bs' with
    | nil => exact absurd h' (by simp [IsLeb])
    | cons b' bs' =>
      obtain ⟨rfl, htail⟩ := List.cons.inj he
      by_cases hb : b.toNat < 128
      · have hnil : bs = [] := by simpa [IsLeb, hb] using h
        have hnil' : bs' = [] := by simpa [IsLeb, hb] using h'
        rw [hnil, hnil']
      · exact congrArg _ (ih (by simpa [IsLeb, hb] using h) (by simpa [IsLeb, hb] using h') htail)

theorem IsLeb.last_lt {bs : List UInt8} {b : UInt8} (h : IsLeb (bs ++ [b])) : b.toNat < 128 := by
  induction bs with
  | nil =>
    by_cases hb : b.toNat < 128
    · exact hb
    · simp [IsLeb, hb] at h
  | cons a bs ih =>
    by_cases ha : a.toNat < 128
    · simp [IsLeb, ha] at h
    · exact ih (by simpa [IsLeb, ha] using h)

theorem ulebValue_lt (bs : List UInt8) : ulebValue bs < 2 ^ (7 * bs.length) := by
  induction bs with
  | nil => simp [ulebValue]
  | cons b bs ih =>
    have hp : 2 ^ (7 * (b :: bs).length) = 128 * 2 ^ (7 * bs.length) := by
      rw [List.length_cons, Nat.mul_add, Nat.pow_add]
      ring
    rw [hp, ulebValue]
    omega

theorem ulebValue_append (bs cs : List UInt8) :
    ulebValue (bs ++ cs) = ulebValue bs + 128 ^ bs.length * ulebValue cs := by
  induction bs with
  | nil => simp [ulebValue]
  | cons b bs ih =>
    rw [List.cons_append, ulebValue, ulebValue, ih, List.length_cons, Nat.pow_succ]
    ring

/-- Each byte spells seven bits. -/
theorem pow_128 (n : Nat) : (128 : Int) ^ n = ((2 ^ (7 * n) : Nat) : Int) := by
  rw [Nat.pow_mul]
  norm_num

theorem isLeb_ulebEncode (n : Nat) : IsLeb (ulebEncode n) := by
  fun_induction ulebEncode n with
  | case1 n h => simp [IsLeb, Nat.mod_eq_of_lt (show n < 256 by omega), h]
  | case2 n h ih =>
    have hb : (n % 128 + 128) % 256 = n % 128 + 128 := by omega
    simp [IsLeb, hb, ih]

theorem ulebValue_ulebEncode (n : Nat) : ulebValue (ulebEncode n) = n := by
  fun_induction ulebEncode n with
  | case1 n h => simp [ulebValue]; omega
  | case2 n h ih => simp [ulebValue, ih]; omega

/-- A number below `128 ^ (k + 1)` needs at most `k + 1` bytes. -/
theorem ulebEncode_length_le {n k : Nat} (h : n < 128 ^ (k + 1)) :
    (ulebEncode n).length ≤ k + 1 := by
  induction k generalizing n with
  | zero =>
    rw [ulebEncode, if_pos (by simpa using h)]
    simp
  | succ k ih =>
    rw [ulebEncode]
    split
    · simp
    · have hd : n / 128 < 128 ^ (k + 1) := by
        rw [Nat.div_lt_iff_lt_mul (by omega), ← Nat.pow_succ]
        exact h
      have := ih hd
      simpa using this

theorem isLeb_slebEncode (i : Int) : IsLeb (slebEncode i) := by
  fun_induction slebEncode i with
  | case1 i h =>
    have hb : (i % 128).toNat < 128 := by omega
    simp [IsLeb, Nat.mod_eq_of_lt (show (i % 128).toNat < 256 by omega), hb]
  | case2 i h ih =>
    have hb : ((i % 128).toNat + 128) % 256 = (i % 128).toNat + 128 := by omega
    simp [IsLeb, hb, ih]

theorem slebEncode_ne_nil (i : Int) : slebEncode i ≠ [] := by
  rw [slebEncode]
  split <;> simp

/-- A longer encoding has the value of its low byte and of the rest. -/
theorem slebValue_cons {b : UInt8} {bs : List UInt8} (h : bs ≠ []) :
    slebValue (b :: bs) = (b.toNat % 128 : Nat) + 128 * slebValue bs := by
  obtain ⟨c, cs, rfl⟩ := List.exists_cons_of_ne_nil h
  simp only [slebValue, ulebValue, List.getLast?_cons_cons, List.length_cons]
  split <;> push_cast <;> ring

theorem slebValue_slebEncode (i : Int) : slebValue (slebEncode i) = i := by
  fun_induction slebEncode i with
  | case1 i h =>
    have hb : (i % 128).toNat % 256 % 128 = (i % 128).toNat := by omega
    simp [slebValue, ulebValue, hb]
    split <;> omega
  | case2 i h ih =>
    have hb : ((i % 128).toNat + 128) % 256 % 128 = (i % 128).toNat := by omega
    rw [slebValue_cons (slebEncode_ne_nil _), ih]
    simp [hb]
    omega

/-- A number of at most `7 * (k + 1)` signed bits needs at most `k + 1` bytes. -/
theorem slebEncode_length_le {i : Int} {k : Nat}
    (hl : -(64 * 128 ^ k) ≤ i) (hu : i < 64 * 128 ^ k) : (slebEncode i).length ≤ k + 1 := by
  induction k generalizing i with
  | zero =>
    rw [slebEncode, if_pos (by simpa using ⟨hl, hu⟩)]
    simp
  | succ k ih =>
    rw [slebEncode]
    split
    · simp
    · have hp : (64 * 128 ^ (k + 1) : Int) = 128 * (64 * 128 ^ k) := by ring
      rw [hp] at hl hu
      have := ih (i := i / 128) (by omega) (by omega)
      simpa using this

/-- A shortest encoding among those that spell a number. -/
structure Shortest (value : List UInt8 → Int) (n : Int) (bs : List UInt8) : Prop where
  isLeb : IsLeb bs
  spells : value bs = n
  least : ∀ cs, IsLeb cs → value cs = n → bs.length ≤ cs.length

theorem shortest_ulebEncode (n : Nat) : Shortest (fun bs => ulebValue bs) n (ulebEncode n) where
  isLeb := isLeb_ulebEncode n
  spells := by rw [ulebValue_ulebEncode]
  least cs hl hv := by
    cases cs with
    | nil => exact absurd hl (by simp [IsLeb])
    | cons c cs =>
      have hlt := ulebValue_lt (c :: cs)
      rw [Int.ofNat_inj.mp hv, Nat.pow_mul] at hlt
      exact ulebEncode_length_le hlt

/-- A signed number keeps one bit of its last byte for the sign. -/
theorem slebValue_bounds {bs : List UInt8} {k : Nat} (h : bs.length = k + 1) :
    -(64 * 128 ^ k) ≤ slebValue bs ∧ slebValue bs < 64 * 128 ^ k := by
  obtain ⟨init, b, rfl⟩ : ∃ init b, bs = init ++ [b] :=
    (List.eq_nil_or_concat' bs).resolve_left (fun he => by simp [he] at h)
  have hinit : init.length = k := by simpa using h
  have hlow := ulebValue_lt init
  rw [Nat.pow_mul, hinit] at hlow
  have hb : b.toNat % 128 < 128 := Nat.mod_lt _ (by omega)
  have hval : (ulebValue (init ++ [b]) : Int) =
      ulebValue init + 128 ^ k * (b.toNat % 128 : Nat) := by
    rw [ulebValue_append, hinit]
    simp [ulebValue]
  have hlow : (ulebValue init : Int) < 128 ^ k := by exact_mod_cast hlow
  have hnext : (128 : Int) ^ (k + 1) = 128 * 128 ^ k := by ring
  rw [slebValue, hval, h, hnext, List.getLast?_concat, Option.getD_some]
  have hp : (0 : Int) ≤ 128 ^ k := by positivity
  generalize (128 : Int) ^ k = p at *
  generalize b.toNat % 128 = d at *
  split
  · next hsign =>
    have hmin : p * 64 ≤ p * d := Int.mul_le_mul_of_nonneg_left (by omega) hp
    have hmax : p * d ≤ p * 127 := Int.mul_le_mul_of_nonneg_left (by omega) hp
    constructor <;> linarith
  · next hsign =>
    have hmin : 0 ≤ p * d := Int.mul_nonneg hp (by omega)
    have hmax : p * d ≤ p * 63 := Int.mul_le_mul_of_nonneg_left (by omega) hp
    constructor <;> linarith

theorem shortest_slebEncode (i : Int) : Shortest slebValue i (slebEncode i) where
  isLeb := isLeb_slebEncode i
  spells := slebValue_slebEncode i
  least cs hl hv := by
    cases cs with
    | nil => exact absurd hl (by simp [IsLeb])
    | cons c cs =>
      obtain ⟨hmin, hmax⟩ := slebValue_bounds (show (c :: cs).length = cs.length + 1 from rfl)
      rw [hv] at hmin hmax
      exact slebEncode_length_le hmin hmax

end Unwinder.Lib
