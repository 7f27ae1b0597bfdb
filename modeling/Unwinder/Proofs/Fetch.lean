import Unwinder.Native.Memory
import Unwinder.Proofs.CfiBytes

namespace Unwinder.Native
open Lib Interaction Dwarf Ffi

/-- What the accessors are known to answer. -/
abbrev Oracle := (o : Accessor) → Option o.Answer

/-- Libunwind reads this byte at the address. -/
def HasByte (known : Oracle) (addr : UInt64) (b : UInt8) : Prop :=
  Returns known (dwarfReadu8 addr) (.ok (b, addr + 1))

def HasBytes (known : Oracle) : UInt64 → List UInt8 → Prop
  | _, [] => True
  | addr, b :: bs => HasByte known addr b ∧ HasBytes known (addr + 1) bs

/-- The address behind some bytes. -/
def behind (addr : UInt64) (bs : List UInt8) : UInt64 := addr + UInt64.ofNat bs.length

@[simp] theorem behind_nil (addr : UInt64) : behind addr [] = addr := by simp [behind]

@[simp] theorem behind_cons (addr : UInt64) (b : UInt8) (bs : List UInt8) :
    behind addr (b :: bs) = behind (addr + 1) bs := by
  rw [behind, behind, List.length_cons, UInt64.ofNat_add, UInt64.add_comm (UInt64.ofNat bs.length),
    ← UInt64.add_assoc]
  rfl

@[simp] theorem behind_append (addr : UInt64) (bs cs : List UInt8) :
    behind addr (bs ++ cs) = behind (behind addr bs) cs := by
  rw [behind, behind, behind, List.length_append, UInt64.ofNat_add, UInt64.add_assoc]

theorem behind_toNat {addr : UInt64} {bs : List UInt8} (h : addr.toNat + bs.length < 2 ^ 64) :
    (behind addr bs).toNat = addr.toNat + bs.length := by
  rw [behind, UInt64.toNat_add, UInt64.toNat_ofNat', Nat.mod_eq_of_lt (a := bs.length) (by omega),
    Nat.mod_eq_of_lt h]

section Reads

variable {known : Oracle} {addr : UInt64}

@[simp] theorem hasBytes_append {bs cs : List UInt8} :
    HasBytes known addr (bs ++ cs) ↔ HasBytes known addr bs ∧ HasBytes known (behind addr bs) cs := by
  induction bs generalizing addr with
  | nil => simp [HasBytes]
  | cons b bs ih => rw [List.cons_append, HasBytes, HasBytes, ih, behind_cons, and_assoc]

/-- Two parts of a number, the lower one below the bits of the upper one. -/
theorem or_parts {k a b : Nat} (hb : b < 2 ^ k) : a <<< k ||| b = a * 2 ^ k + b := by
  rw [← Nat.shiftLeft_add_eq_or_of_lt hb, Nat.shiftLeft_eq]

theorem join16 (n : Nat) : (UInt8.ofNat (n / 256 % 256)).toUInt16 <<< 8 |||
    (UInt8.ofNat (n % 256)).toUInt16 = UInt16.ofNat n := by
  apply UInt16.toNat.inj
  have hlow : n % 256 % 2 ^ 8 < 2 ^ 8 := Nat.mod_lt _ (by omega)
  simp only [UInt16.toNat_or, UInt16.toNat_shiftLeft, UInt8.toNat_toUInt16, UInt8.toNat_ofNat',
    UInt16.toNat_ofNat', show (8 : UInt16).toNat % 16 = 8 from rfl]
  rw [Nat.mod_eq_of_lt (by rw [Nat.shiftLeft_eq]; omega), or_parts hlow]
  omega

theorem join32 (n : Nat) : (UInt16.ofNat (n / 256 ^ 2)).toUInt32 <<< 16 |||
    (UInt16.ofNat n).toUInt32 = UInt32.ofNat n := by
  apply UInt32.toNat.inj
  have hlow : n % 2 ^ 16 < 2 ^ 16 := Nat.mod_lt _ (by omega)
  simp only [UInt32.toNat_or, UInt32.toNat_shiftLeft, UInt16.toNat_toUInt32, UInt16.toNat_ofNat',
    UInt32.toNat_ofNat', show (16 : UInt32).toNat % 32 = 16 from rfl]
  rw [Nat.mod_eq_of_lt (by rw [Nat.shiftLeft_eq]; omega), or_parts hlow]
  omega

theorem join64 (n : Nat) : (UInt32.ofNat (n / 256 ^ 4)).toUInt64 <<< 32 |||
    (UInt32.ofNat n).toUInt64 = UInt64.ofNat n := by
  apply UInt64.toNat.inj
  have hlow : n % 2 ^ 32 < 2 ^ 32 := Nat.mod_lt _ (by omega)
  simp only [UInt64.toNat_or, UInt64.toNat_shiftLeft, UInt32.toNat_toUInt64, UInt32.toNat_ofNat',
    UInt64.toNat_ofNat', show (32 : UInt64).toNat % 64 = 32 from rfl]
  rw [Nat.mod_eq_of_lt (by rw [Nat.shiftLeft_eq]; omega), or_parts hlow]
  omega

theorem leBytes_add (v w n : Nat) : leBytes (v + w) n = leBytes v n ++ leBytes w (n / 256 ^ v) := by
  induction v generalizing n with
  | zero => simp [leBytes]
  | succ v ih =>
    rw [Nat.succ_add, leBytes, leBytes, ih, Nat.div_div_eq_div_mul, Nat.pow_succ']
    rfl

variable {n : Nat}

theorem returns_readu16 (h : HasBytes known addr (leBytes 2 n)) :
    Returns known (dwarfReadu16 addr) (.ok (UInt16.ofNat n, behind addr (leBytes 2 n))) := by
  obtain ⟨h0, h1, -⟩ := h
  refine Returns.bind h0 (Returns.bind h1 ?_)
  rw [← join16 n]
  simp only [leBytes, behind_cons, behind_nil]
  exact returns_pure

theorem returns_readu32 (h : HasBytes known addr (leBytes 4 n)) :
    Returns known (dwarfReadu32 addr) (.ok (UInt32.ofNat n, behind addr (leBytes 4 n))) := by
  rw [leBytes_add 2 2, hasBytes_append] at h
  rw [leBytes_add 2 2, behind_append, ← join32 n]
  exact Returns.bind (returns_readu16 h.1) (Returns.bind (returns_readu16 h.2) returns_pure)

theorem returns_readu64 (h : HasBytes known addr (leBytes 8 n)) :
    Returns known (dwarfReadu64 addr) (.ok (UInt64.ofNat n, behind addr (leBytes 8 n))) := by
  rw [leBytes_add 4 4, hasBytes_append] at h
  rw [leBytes_add 4 4, behind_append, ← join64 n]
  exact Returns.bind (returns_readu32 h.1) (Returns.bind (returns_readu32 h.2) returns_pure)

/-- The loop gathers seven bits a byte. -/
theorem returns_lebLoop {bs : List UInt8} {rounds s : Nat} {r : UInt64}
    (h : HasBytes known addr bs) (hl : IsLeb bs) (hs : s + 7 * bs.length ≤ 70)
    (hrounds : s + 7 * rounds = 70) (hr : r.toNat < 2 ^ s) :
    Returns known (lebLoop rounds r (UInt64.ofNat s) addr)
      (.ok ⟨bs.getLast?.getD 0, UInt64.ofNat (r.toNat + ulebValue bs * 2 ^ s),
        UInt64.ofNat (s + 7 * bs.length), behind addr bs⟩) := by
  induction bs generalizing addr rounds s r with
  | nil => exact absurd hl (by simp [IsLeb])
  | cons b bs ih =>
    have hlen : (b :: bs).length = bs.length + 1 := rfl
    obtain ⟨rounds, rfl⟩ : ∃ k, rounds = k + 1 := ⟨rounds - 1, by omega⟩
    have hand : b.toUInt64 &&& 0x7f = (b &&& 0x7f).toUInt64 := by
      rw [UInt8.toUInt64_and]
      rfl
    have hshift : UInt64.ofNat s + 7 = UInt64.ofNat (s + 7) := by
      rw [UInt64.ofNat_add]
      rfl
    refine Returns.bind h.1 ?_
    dsimp only
    rw [hand, hshift]
    by_cases hb : b.toNat < 128
    · -- the last byte
      have hnil : bs = [] := by simpa [IsLeb, hb] using hl
      subst hnil
      have hval : UInt64.ofNat (r.toNat + ulebValue [b] * 2 ^ s) =
          r ||| (b &&& 0x7f).toUInt64 <<< UInt64.ofNat s := by
        apply UInt64.toNat.inj
        rw [group_toNat b (by omega) hr, UInt64.toNat_ofNat']
        simp [ulebValue]
      rw [if_neg (fun hne => hne ((byte_continues b).mpr hb)), hval]
      simp only [behind_cons, behind_nil]
      exact returns_pure
    · have hrest : IsLeb bs := by simpa [IsLeb, hb] using hl
      have hne : bs ≠ [] := by
        intro he
        simp [he, IsLeb] at hrest
      have hpos : 0 < bs.length := List.length_pos_iff.mpr hne
      obtain ⟨hn, hlt⟩ := group_next b (by omega) hr
      rw [if_pos (fun he => hb ((byte_continues b).mp he))]
      have hleft : s + 7 + 7 * rounds = 70 := by omega
      have hgo := ih h.2 hrest (by omega) hleft hlt
      have hval : r.toNat + ulebValue (b :: bs) * 2 ^ s =
          (r ||| (b &&& 0x7f).toUInt64 <<< UInt64.ofNat s).toNat + ulebValue bs * 2 ^ (s + 7) := by
        rw [hn, ulebValue, Nat.pow_add]
        ring
      obtain ⟨d, ds, rfl⟩ := List.exists_cons_of_ne_nil hne
      rw [hval, List.getLast?_cons_cons, behind_cons, hlen]
      rw [show s + 7 + 7 * (d :: ds).length = s + 7 * ((d :: ds).length + 1) by ring] at hgo
      exact hgo

variable {bs : List UInt8}

theorem returns_lebLoop_start (h : HasBytes known addr bs) (hl : IsLeb bs) (hs : bs.length ≤ 10) :
    Returns known (lebLoop 10 0 0 addr)
      (.ok ⟨bs.getLast?.getD 0, UInt64.ofNat (ulebValue bs), UInt64.ofNat (7 * bs.length),
        behind addr bs⟩) := by
  have hloop := returns_lebLoop (s := 0) (r := 0) h hl (by omega) (show 0 + 7 * 10 = 70 from rfl)
    (by decide)
  simpa using hloop

theorem returns_uleb128 (h : HasBytes known addr bs) (hl : IsLeb bs) (hs : bs.length ≤ 10) :
    Returns known (dwarfReadUleb128 addr) (.ok (UInt64.ofNat (ulebValue bs), behind addr bs)) :=
  Returns.bind (returns_lebLoop_start h hl hs) returns_pure

theorem returns_sleb128 (h : HasBytes known addr bs) (hl : IsLeb bs) (hs : bs.length ≤ 10) :
    Returns known (dwarfReadSleb128 addr)
      (.ok ((Int64.ofInt (slebValue bs)).toUInt64, behind addr bs)) := by
  refine Returns.bind (returns_lebLoop_start h hl hs) ?_
  dsimp only
  have hsign := signExtend_leb bs
  have hlt : UInt64.ofNat (7 * bs.length) < 64 ↔ 7 * bs.length < 64 := by
    rw [UInt64.lt_iff_toNat_lt, UInt64.toNat_ofNat', Nat.mod_eq_of_lt (by omega)]
    rfl
  unfold signExtend at hsign
  by_cases hext : 7 * bs.length < 64 ∧ bs.getLast?.getD 0 &&& 0x40 ≠ 0
  · rw [if_pos hext, shl64_of_lt hext.1] at hsign
    rw [if_pos ⟨hlt.mpr hext.1, hext.2⟩, ← Res.ok.inj hsign]
    exact returns_pure
  · rw [if_neg hext] at hsign
    rw [if_neg (fun he => hext ⟨hlt.mp he.1, he.2⟩), ← Res.ok.inj hsign]
    exact returns_pure

theorem returns_uleb128_encode (v : UInt64) (h : HasBytes known addr (ulebEncode v.toNat)) :
    Returns known (dwarfReadUleb128 addr) (.ok (v, behind addr (ulebEncode v.toNat))) := by
  have hlen := ulebEncode_length_le (k := 9) (n := v.toNat) (by have := v.toNat_lt; omega)
  have hread := returns_uleb128 h (isLeb_ulebEncode _) hlen
  rwa [ulebValue_ulebEncode, UInt64.ofNat_toNat] at hread

theorem returns_sleb128_encode (v : Int64) (h : HasBytes known addr (slebEncode v.toInt)) :
    Returns known (dwarfReadSleb128 addr) (.ok (v.toUInt64, behind addr (slebEncode v.toInt))) := by
  have hmin := v.le_toInt
  have hmax := v.toInt_lt
  have hlen := slebEncode_length_le (k := 9) (i := v.toInt) (by norm_num; omega) (by norm_num; omega)
  have hread := returns_sleb128 h (isLeb_slebEncode _) hlen
  rwa [slebValue_slebEncode, Int64.ofInt_toInt] at hread

end Reads

section Tracee

variable {known : Oracle} {tracee : UInt64 → UInt8} {addr : UInt64}

theorem leValue_byte (bs : List UInt8) (k : Nat) :
    leValue bs / 256 ^ k % 256 = (bs[k]?.getD 0).toNat := by
  induction bs generalizing k with
  | nil => simp [leValue]
  | cons b bs ih =>
    have hb : b.toNat < 256 := b.toNat_lt
    cases k with
    | zero =>
      simp only [leValue, Nat.pow_zero, Nat.div_one, List.getElem?_cons_zero, Option.getD_some]
      omega
    | succ k =>
      rw [List.getElem?_cons_succ, ← ih k, leValue, Nat.pow_succ', ← Nat.div_div_eq_div_mul]
      congr 2
      omega

theorem traceeWord_byte (tracee : UInt64 → UInt8) (a : UInt64) {k : Nat} (hk : k < 8) :
    (traceeWord tracee a >>> (8 * UInt64.ofNat k)).toUInt8 = tracee (a + UInt64.ofNat k) := by
  have hshift : (8 * UInt64.ofNat k).toNat % 64 = 8 * k := by
    rw [UInt64.toNat_mul, UInt64.toNat_ofNat', show (8 : UInt64).toNat = 8 from rfl]
    omega
  have hget : ((List.range 8).map (fun i => tracee (a + UInt64.ofNat i)))[k]?.getD 0 =
      tracee (a + UInt64.ofNat k) := by
    rw [List.getElem?_map, List.getElem?_range hk]
    rfl
  have hlt := leValue_lt ((List.range 8).map (fun i => tracee (a + UInt64.ofNat i)))
  rw [List.length_map, List.length_range] at hlt
  apply UInt8.toNat.inj
  have hword : (traceeWord tracee a).toNat =
      leValue ((List.range 8).map (fun i => tracee (a + UInt64.ofNat i))) := by
    rw [traceeWord, UInt64.toNat_ofNat', Nat.mod_eq_of_lt (by omega)]
  rw [UInt64.toNat_toUInt8, UInt64.toNat_shiftRight, hshift, hword, Nat.shiftRight_eq_div_pow,
    Nat.pow_mul]
  change leValue _ / 256 ^ k % 256 = _
  rw [leValue_byte, hget]

/-- The byte out of the aligned word is the byte that the tracee has. -/
theorem hasByte_tracee (h : known (.accessMem (alignedAddr addr) 0 false) =
    some (UNW_ESUCCESS, traceeWord tracee (alignedAddr addr))) : HasByte known addr (tracee addr) := by
  have hword := alignedAddr_toNat addr
  have hle : alignedAddr addr ≤ addr := by
    rw [UInt64.le_iff_toNat_le, hword]
    omega
  have hoff : addr - alignedAddr addr = UInt64.ofNat (addr.toNat % 8) := by
    apply UInt64.toNat.inj
    rw [UInt64.toNat_sub_of_le _ _ hle, hword, UInt64.toNat_ofNat']
    omega
  have hbyte := traceeWord_byte tracee (alignedAddr addr) (Nat.mod_lt addr.toNat (by omega : 8 > 0))
  rw [← hoff, UInt64.add_comm, UInt64.sub_add_cancel] at hbyte
  rw [← hbyte]
  exact Returns.bind (Returns.bind (returns_ask h) returns_pure) returns_pure

/-- The words around some bytes are known to be those of the tracee. -/
def KnowsAround (known : Oracle) (tracee : UInt64 → UInt8) (addr : UInt64) (n : Nat) : Prop :=
  ∀ k < n, known (.accessMem (alignedAddr (addr + UInt64.ofNat k)) 0 false) =
    some (UNW_ESUCCESS, traceeWord tracee (alignedAddr (addr + UInt64.ofNat k)))

theorem hasBytes_tracee {bs : List UInt8} (h : KnowsAround known tracee addr bs.length)
    (hb : ∀ k (hk : k < bs.length), tracee (addr + UInt64.ofNat k) = bs.get ⟨k, hk⟩) :
    HasBytes known addr bs := by
  induction bs generalizing addr with
  | nil => trivial
  | cons b bs ih =>
    have hnext : ∀ k, addr + UInt64.ofNat (k + 1) = addr + 1 + UInt64.ofNat k := by
      intro k
      rw [UInt64.ofNat_add, UInt64.add_comm (UInt64.ofNat k), ← UInt64.add_assoc]
      rfl
    refine ⟨?_, ih ?_ ?_⟩
    · have hword := h 0 (Nat.succ_pos _)
      have hbyte := hb 0 (Nat.succ_pos _)
      have hzero : addr + UInt64.ofNat 0 = addr := UInt64.add_zero addr
      rw [hzero] at hword hbyte
      rw [show b = tracee addr from hbyte.symm]
      exact hasByte_tracee hword
    · intro k hk
      have hword := h (k + 1) (Nat.succ_lt_succ hk)
      rwa [hnext] at hword
    · intro k hk
      have hbyte := hb (k + 1) (Nat.succ_lt_succ hk)
      rwa [hnext] at hbyte

/-- The accessors of a tracee of which all memory can be read, and nothing else is
known. -/
def memoryOracle (tracee : UInt64 → UInt8) : Oracle
  | .accessMem addr _ false => some (UNW_ESUCCESS, traceeWord tracee addr)
  | _ => none

theorem memoryOracle_knows (tracee : UInt64 → UInt8) (addr : UInt64) (n : Nat) :
    KnowsAround (memoryOracle tracee) tracee addr n := fun _ _ => rfl

end Tracee

end Unwinder.Native
