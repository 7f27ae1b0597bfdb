import Unwinder.Native.Step
import Unwinder.Proofs.Fetch
import Unwinder.Proofs.Pointers

namespace Unwinder.Native
open Lib Interaction Dwarf Ffi

/-- The operand that libunwind reads: the bytes of a signed LEB128 number are taken
for an unsigned one. -/
def nativeRaw : Format → List UInt8 → UInt64
  | .sleb128, bs => UInt64.ofNat (ulebValue bs)
  | f, bs => f.raw bs

section Operand

variable {known : Oracle} {addr : UInt64} {bs : List UInt8} {enc : UInt8} {f : Format}

theorem hasBytes_word {n : Nat} (h : HasBytes known addr bs) (hlen : bs.length = n) :
    HasBytes known addr (leBytes n (leValue bs)) := by
  rw [← hlen, leBytes_leValue]
  exact h

theorem ofEnc_code (hf : Format.ofEnc enc = some f) : enc &&& DW_EH_PE_FORMAT_MASK = f.code := by
  have hcode := List.find?_some hf
  exact (by simpa using hcode : f.code = _).symm

theorem returns_readFormat (hf : Format.ofEnc enc = some f) (hs : f.Shape bs)
    (h : HasBytes known addr bs) :
    Returns known (readFormat enc addr) (.ok (nativeRaw f bs, behind addr bs)) := by
  have hcode := ofEnc_code hf
  have hbehind : ∀ {n}, bs.length = n → behind addr bs = behind addr (leBytes n (leValue bs)) := by
    intro n hn
    rw [← hn, leBytes_leValue]
  unfold readFormat
  rw [hcode]
  cases f with
  | absptr | udata8 =>
    rw [hbehind hs]
    exact returns_readu64 (hasBytes_word h hs)
  | uleb128 | sleb128 => exact returns_uleb128 h hs.1 hs.2
  | udata2 =>
    rw [show nativeRaw .udata2 bs = UInt64.ofNat (leValue bs) from rfl, ← zext16 hs, hbehind hs]
    exact Returns.bind (returns_readu16 (hasBytes_word h hs)) returns_pure
  | udata4 =>
    rw [show nativeRaw .udata4 bs = UInt64.ofNat (leValue bs) from rfl, ← zext32 hs, hbehind hs]
    exact Returns.bind (returns_readu32 (hasBytes_word h hs)) returns_pure
  | sdata2 =>
    rw [hbehind hs]
    exact Returns.bind (Returns.bind (returns_readu16 (hasBytes_word h hs)) returns_pure)
      returns_pure
  | sdata4 =>
    rw [hbehind hs]
    exact Returns.bind (Returns.bind (returns_readu32 (hasBytes_word h hs)) returns_pure)
      returns_pure
  | sdata8 =>
    rw [hbehind hs]
    exact Returns.bind (Returns.bind (returns_readu64 (hasBytes_word h hs)) returns_pure)
      returns_pure

/-- The address that libunwind makes of an operand; it knows no text base. -/
def nativeResolve (enc : UInt8) (pi : UnwProcInfo) (raw place : UInt64) : Option UInt64 :=
  if raw = 0 then some 0
  else if enc &&& DW_EH_PE_APP_MASK = DW_EH_PE_TEXTREL then none
  else applied enc raw place ⟨0, pi.gp, pi.startIp⟩

/-- The end of reading a pointer that stands for no address. -/
def pointerResult (next : UInt64) : Option UInt64 → Except Stop (UInt64 × UInt64)
  | some v => .ok (v, next)
  | none => .error (.status (-UNW_EINVAL))

variable {pi : UnwProcInfo}

theorem returns_applyEncoding (raw place : UInt64) (hraw : raw ≠ 0) :
    Returns known (applyEncoding enc pi place raw)
      (match nativeResolve enc pi raw place with
        | some v => .ok v
        | none => .error (.status (-UNW_EINVAL))) := by
  unfold applyEncoding nativeResolve applied
  rw [if_neg hraw]
  generalize enc &&& DW_EH_PE_APP_MASK = app
  by_cases h0 : app = DW_EH_PE_ABSPTR
  · subst h0; exact returns_pure
  by_cases h1 : app = DW_EH_PE_PCREL
  · subst h1; exact returns_pure
  by_cases h2 : app = DW_EH_PE_DATAREL
  · subst h2; exact returns_pure
  by_cases h3 : app = DW_EH_PE_FUNCREL
  · subst h3; exact returns_pure
  have h0' : app ≠ 0 := h0
  by_cases h4 : app = DW_EH_PE_TEXTREL
  · subst h4; exact returns_throw
  simp only [h0, h0', h1, h2, h3, h4, if_false]
  exact returns_throw

theorem returns_encodedPointer (hf : Format.ofEnc enc = some f) (hs : f.Shape bs)
    (h : HasBytes known addr bs) (homit : enc ≠ DW_EH_PE_OMIT) (haligned : enc ≠ DW_EH_PE_ALIGNED)
    (hdirect : enc &&& DW_EH_PE_INDIRECT = 0) :
    Returns known (dwarfReadEncodedPointer enc pi addr)
      (pointerResult (behind addr bs) (nativeResolve enc pi (nativeRaw f bs) addr)) := by
  unfold dwarfReadEncodedPointer
  rw [if_neg homit, if_neg haligned]
  refine Returns.bind (returns_readFormat hf hs h) ?_
  dsimp only
  by_cases hraw : nativeRaw f bs = 0
  · rw [if_pos hraw, nativeResolve, if_pos hraw]
    exact returns_pure
  · rw [if_neg hraw]
    have happly := @returns_applyEncoding known enc pi (nativeRaw f bs) addr hraw
    cases hres : nativeResolve enc pi (nativeRaw f bs) addr with
    | none =>
      rw [hres] at happly
      exact Returns.stop happly
    | some v =>
      rw [hres] at happly
      refine Returns.bind happly ?_
      rw [if_neg (fun hne => hne hdirect)]
      exact returns_pure

end Operand

section Agreement

variable {enc : UInt8} {f : Format} {bs : List UInt8} {b : Bases} {v place : UInt64}

/-- A short negative number is the only operand that is not read alike. -/
theorem nativeRaw_eq_iff (hs : f.Shape bs) :
    nativeRaw f bs = f.raw bs ↔ (f = .sleb128 → bs.length = 10 ∨ 0 ≤ slebValue bs) := by
  cases f with
  | sleb128 =>
    obtain ⟨hl, hlen⟩ := hs
    have hlt := ulebValue_lt bs
    have hword : ((Int64.ofInt (slebValue bs)).toUInt64.toNat : Int) = slebValue bs % 2 ^ 64 := by
      change ((Int64.ofInt (slebValue bs)).toBitVec.toNat : Int) = _
      rw [Int64.toBitVec_ofInt, BitVec.toNat_ofInt]
      omega
    have hval : slebValue bs = ulebValue bs ∨
        slebValue bs = ulebValue bs - (2 ^ (7 * bs.length) : Nat) := by
      rw [slebValue, pow_128]
      split
      · exact Or.inr rfl
      · exact Or.inl (sub_zero _)
    simp only [forall_const]
    rw [nativeRaw, Format.raw, ← UInt64.toNat_inj, UInt64.toNat_ofNat']
    generalize slebValue bs = i at *
    by_cases hten : bs.length = 10
    · rw [hten] at hlt hval
      simp only [hten, true_or, iff_true]
      omega
    · have hle : (2 : Nat) ^ (7 * bs.length) ≤ 2 ^ 63 :=
        Nat.pow_le_pow_right (by omega) (by omega)
      simp only [hten, false_or]
      omega
  | _ => simp [nativeRaw]

/-- What libunwind adds to an operand that it reads without its sign. -/
def signGap (f : Format) (bs : List UInt8) : UInt64 :=
  if f = .sleb128 ∧ bs.length ≠ 10 ∧ slebValue bs < 0 then UInt64.ofNat (2 ^ (7 * bs.length)) else 0

theorem nativeRaw_gap (hs : f.Shape bs) : nativeRaw f bs = f.raw bs + signGap f bs := by
  unfold signGap
  split
  · next hneg =>
    obtain ⟨rfl, hten, hneg⟩ := hneg
    have hlen := hs.2
    have hlt := ulebValue_lt bs
    have hle : (2 : Nat) ^ (7 * bs.length) ≤ 2 ^ 63 := Nat.pow_le_pow_right (by omega) (by omega)
    have hval : slebValue bs = ulebValue bs - (2 ^ (7 * bs.length) : Nat) := by
      rw [slebValue, pow_128] at hneg ⊢
      split at hneg
      · next hsign => rw [if_pos hsign]
      · omega
    have hword : ((Int64.ofInt (slebValue bs)).toUInt64.toNat : Int) = slebValue bs % 2 ^ 64 := by
      change ((Int64.ofInt (slebValue bs)).toBitVec.toNat : Int) = _
      rw [Int64.toBitVec_ofInt, BitVec.toNat_ofInt]
      omega
    rw [nativeRaw, Format.raw, ← UInt64.toNat_inj, UInt64.toNat_add, UInt64.toNat_ofNat',
      UInt64.toNat_ofNat']
    generalize slebValue bs = i at *
    omega
  · next hneg =>
    rw [UInt64.add_zero]
    refine (nativeRaw_eq_iff hs).mpr ?_
    intro hf
    by_contra hcond
    rw [not_or, not_le] at hcond
    exact hneg ⟨hf, hcond⟩

/-- What the base that this crate adds to an operand has more than libunwind's. -/
def baseGap (enc : UInt8) (pi : UnwProcInfo) (b : Bases) : UInt64 :=
  if enc &&& DW_EH_PE_APP_MASK = DW_EH_PE_DATAREL then b.data - pi.gp
  else if enc &&& DW_EH_PE_APP_MASK = DW_EH_PE_FUNCREL then b.func - pi.startIp
  else 0

theorem applied_gap (pi : UnwProcInfo) (h : enc &&& DW_EH_PE_APP_MASK ≠ DW_EH_PE_TEXTREL)
    (raw : UInt64) :
    applied enc raw place b =
      applied enc (raw + baseGap enc pi b) place ⟨0, pi.gp, pi.startIp⟩ := by
  have hsum : ∀ x y : UInt64, raw + (x - y) + y = raw + x := by
    intro x y
    rw [UInt64.add_assoc, UInt64.sub_add_cancel]
  unfold applied baseGap
  generalize enc &&& DW_EH_PE_APP_MASK = app at *
  dsimp only
  by_cases h3 : app = DW_EH_PE_DATAREL
  · subst h3
    exact congrArg some (hsum _ _).symm
  by_cases h4 : app = DW_EH_PE_FUNCREL
  · subst h4
    exact congrArg some (hsum _ _).symm
  simp only [h, h3, h4, if_false, UInt64.add_zero]

/-- The application bits of an encoding name a base, or none. -/
theorem applied_base (enc : UInt8) (place : UInt64) (b : Bases) :
    ∃ base : Option UInt64, ∀ raw, applied enc raw place b = base.map (raw + ·) := by
  unfold applied
  generalize enc &&& DW_EH_PE_APP_MASK = app
  dsimp only
  by_cases h0 : app = 0
  · subst h0; exact ⟨some 0, fun raw => by simp⟩
  by_cases h1 : app = DW_EH_PE_PCREL
  · subst h1; exact ⟨some place, fun _ => rfl⟩
  by_cases h2 : app = DW_EH_PE_TEXTREL
  · subst h2; exact ⟨some b.text, fun _ => rfl⟩
  by_cases h3 : app = DW_EH_PE_DATAREL
  · subst h3; exact ⟨some b.data, fun _ => rfl⟩
  by_cases h4 : app = DW_EH_PE_FUNCREL
  · subst h4; exact ⟨some b.func, fun _ => rfl⟩
  · exact ⟨none, fun raw => by simp [h0, h1, h2, h3, h4]⟩

theorem applied_inj {raw raw' : UInt64} (h : applied enc raw place b = some v)
    (h' : applied enc raw' place b = some v) : raw = raw' := by
  obtain ⟨base, hbase⟩ := applied_base enc place b
  rw [hbase] at h h'
  obtain ⟨d, rfl, hd⟩ := Option.map_eq_some_iff.mp h
  have he : raw' + d = v := Option.some.inj h'
  exact (UInt64.add_left_inj d).mp (hd.trans he.symm)

/-- A negative number that is read without its sign is no zero either way. -/
theorem nativeRaw_ne_zero (hs : f.Shape bs) (hne : nativeRaw f bs ≠ f.raw bs) :
    nativeRaw f bs ≠ 0 ∧ f.raw bs ≠ 0 := by
  have hcond := mt (nativeRaw_eq_iff hs).mpr hne
  rw [Classical.not_imp] at hcond
  obtain ⟨rfl, hcond⟩ := hcond
  rw [not_or, not_le] at hcond
  have hlen := hs.2
  have hlt := ulebValue_lt bs
  have hle : (2 : Nat) ^ (7 * bs.length) ≤ 2 ^ 63 := Nat.pow_le_pow_right (by omega) (by omega)
  have hneg : slebValue bs = ulebValue bs - (2 ^ (7 * bs.length) : Nat) := by
    have hneg := hcond.2
    rw [slebValue, pow_128] at hneg ⊢
    split at hneg
    · next hsign => rw [if_pos hsign]
    · omega
  obtain ⟨k, hk⟩ : ∃ k, bs.length = k + 1 :=
    ⟨bs.length - 1, by have := List.length_pos_iff.mpr (Format.Shape.ne_nil hs); omega⟩
  have hbound := (slebValue_bounds hk).1
  have hpow : ((2 ^ (7 * bs.length) : Nat) : Int) = 128 * 128 ^ k := by
    rw [← pow_128, hk, pow_succ, mul_comm]
  have hpos : (0 : Int) < 128 ^ k := by positivity
  constructor
  · rw [nativeRaw, Ne, ← UInt64.toNat_inj, UInt64.toNat_ofNat']
    change ¬ ulebValue bs % 2 ^ 64 = 0
    omega
  · rw [Format.raw, Ne, ← UInt64.toNat_inj]
    change ¬ (Int64.ofInt (slebValue bs)).toBitVec.toNat = 0
    rw [Int64.toBitVec_ofInt, BitVec.toNat_ofInt]
    omega

/-- Where this crate's reader accepts a direct pointer, libunwind's reader of the same
bytes gives the same address exactly where the pointer is null, or it is not
text-relative and what libunwind adds by dropping a sign is what this crate adds by
its own base. -/
theorem pointerReaders_agree_iff {known : Oracle} {pi : UnwProcInfo} {c : Dwarf.Cursor}
    (hv : c.Valid) (hr : Reads (readEncoded enc b) c bs v) (hf : Format.ofEnc enc = some f)
    (haligned : enc ≠ DW_EH_PE_ALIGNED) (h : HasBytes known c.currentAvma bs) :
    Returns known (dwarfReadEncodedPointer enc pi c.currentAvma)
        (.ok (v, behind c.currentAvma bs)) ↔
      f.raw bs = 0 ∨
      (enc &&& DW_EH_PE_APP_MASK ≠ DW_EH_PE_TEXTREL ∧ signGap f bs = baseGap enc pi b) := by
  obtain ⟨-, hpv⟩ := (reads_readEncodedImpl hv).mp hr
  have homit : enc ≠ DW_EH_PE_OMIT := by
    intro he
    simp [pointerValue, he] at hpv
  have hdirect : enc &&& DW_EH_PE_INDIRECT = 0 := by
    by_contra hne
    simp [pointerValue, homit, hne] at hpv
  rw [pointerValue_eq homit (fun hi => hi.1 hdirect), hf, Option.bind_some] at hpv
  by_cases hs : f.Shape bs
  · have hnative := @returns_encodedPointer known c.currentAvma bs enc f pi hf hs h homit haligned
      hdirect
    rw [if_pos hs, resolve, if_neg (fun hne => hne hdirect)] at hpv
    have hiff : Returns known (dwarfReadEncodedPointer enc pi c.currentAvma)
        (.ok (v, behind c.currentAvma bs)) ↔
          nativeResolve enc pi (nativeRaw f bs) c.currentAvma = some v := by
      constructor
      · intro hret
        have he := hnative.unique hret
        cases hres : nativeResolve enc pi (nativeRaw f bs) c.currentAvma with
        | none => simp [pointerResult, hres] at he
        | some w => simpa [pointerResult, hres] using he
      · intro hres
        rw [hres] at hnative
        exact hnative
    have hzero : nativeRaw f bs = 0 ↔ f.raw bs = 0 := by
      by_cases heq : nativeRaw f bs = f.raw bs
      · rw [heq]
      · obtain ⟨hnat, hraw⟩ := nativeRaw_ne_zero hs heq
        exact iff_of_false hnat hraw
    rw [hiff, nativeResolve]
    by_cases hraw : f.raw bs = 0
    · rw [if_pos hraw] at hpv
      rw [if_pos (hzero.mpr hraw)]
      exact iff_of_true hpv (Or.inl hraw)
    · rw [if_neg hraw] at hpv
      rw [if_neg (fun hn => hraw (hzero.mp hn))]
      simp only [hraw, false_or]
      by_cases htext : enc &&& DW_EH_PE_APP_MASK = DW_EH_PE_TEXTREL
      · simp [htext]
      · rw [if_neg htext, nativeRaw_gap hs]
        rw [applied_gap pi htext] at hpv
        constructor
        · intro happ
          exact ⟨htext, (UInt64.add_right_inj _).mp (applied_inj happ hpv)⟩
        · rintro ⟨-, hgap⟩
          rw [hgap]
          exact hpv
  · simp [hs] at hpv

/-- Minus one as a signed LEB128 number, and minus sixteen in four bytes. Libunwind
reads the first without its sign, and the second relative to another data base. -/
def twoPointers : Slice := ⟨[0x7f, 0xf0, 0xff, 0xff, 0xff], by decide⟩

def twoPointersTracee (addr : UInt64) : UInt8 := twoPointers.data[(addr - 0x5000).toNat]?.getD 0

theorem twoPointers_read :
    ¬ Returns (memoryOracle twoPointersTracee)
      (dwarfReadEncodedPointer 0x09 clearedProcInfo 0x5000) (.ok (0 - 1, 0x5001)) ∧
    Returns (memoryOracle twoPointersTracee)
      (dwarfReadEncodedPointer 0x1b clearedProcInfo 0x5001) (.ok (0x4ff1, 0x5005)) ∧
    ¬ Returns (memoryOracle twoPointersTracee)
      (dwarfReadEncodedPointer 0x3b clearedProcInfo 0x5001) (.ok (0x3ff0, 0x5005)) := by
  have hone : Cursor.Valid ⟨twoPointers, 1, 0x5000⟩ := show 1 ≤ twoPointers.len by decide
  have hsleb := @pointerReaders_agree_iff 0x09 .sleb128 [0x7f] ⟨0, 0x4000, 0⟩ (0 - 1)
    (memoryOracle twoPointersTracee) clearedProcInfo ⟨twoPointers, 0, 0x5000⟩ (Nat.zero_le _)
    ((reads_readEncodedImpl (Nat.zero_le _)).mpr ⟨rfl, by decide⟩) (by decide) (by decide)
    (hasBytes_tracee (memoryOracle_knows _ _ _) (by decide))
  have hpcrel := @pointerReaders_agree_iff 0x1b .sdata4 [0xf0, 0xff, 0xff, 0xff] ⟨0, 0x4000, 0⟩ 0x4ff1
    (memoryOracle twoPointersTracee) clearedProcInfo ⟨twoPointers, 1, 0x5000⟩ hone
    ((reads_readEncodedImpl hone).mpr ⟨rfl, by decide⟩) (by decide) (by decide)
    (hasBytes_tracee (memoryOracle_knows _ _ _) (by decide))
  have hdatarel := @pointerReaders_agree_iff 0x3b .sdata4 [0xf0, 0xff, 0xff, 0xff] ⟨0, 0x4000, 0⟩
    0x3ff0 (memoryOracle twoPointersTracee) clearedProcInfo ⟨twoPointers, 1, 0x5000⟩ hone
    ((reads_readEncodedImpl hone).mpr ⟨rfl, by decide⟩) (by decide) (by decide)
    (hasBytes_tracee (memoryOracle_knows _ _ _) (by decide))
  exact ⟨mt hsleb.mp (by decide), hpcrel.mpr (by decide), mt hdatarel.mp (by decide)⟩

end Agreement

end Unwinder.Native
