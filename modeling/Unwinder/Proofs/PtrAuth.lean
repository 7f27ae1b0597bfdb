import Unwinder.Aarch64
import Unwinder.Proofs.Modules

namespace Unwinder
open Lib

theorem le_foldl_max {a b : UInt64} {xs : List UInt64} (h : a ≤ b ∨ a ∈ xs) :
    a ≤ xs.foldl max b := by
  induction xs generalizing b with
  | nil =>
    rcases h with h | h
    · exact h
    · cases h
  | cons x xs ih =>
    apply ih
    rcases h with h | h
    · exact Or.inl (le_trans h (le_max_left b x))
    · rcases List.mem_cons.mp h with rfl | h
      · exact Or.inl (le_max_right b a)
      · exact Or.inr h

/-- No registered module ends above the highest known address. -/
theorem ModuleSet.IsRegistered.stop_le {s : ModuleSet} {m : ModuleData} (h : s.IsRegistered m) :
    m.avmaRange.stop ≤ s.maxKnownCodeAddress := by
  obtain ⟨start, hm⟩ := h
  have hin : m ∈ s.modules.values := List.mem_map_of_mem (OrderedMap.get?_eq_some.mp hm)
  exact le_foldl_max (Or.inr (List.mem_map_of_mem hin))

namespace Aarch64.PtrAuthMask

/-- The mask of an address keeps the low bits that it has. -/
theorem fromMaxKnownAddress_low (address : UInt64) :
    ∃ k ≤ 64, LowMask k (fromMaxKnownAddress address).mask ∧ address.toNat < 2 ^ k := by
  unfold fromMaxKnownAddress
  split
  · exact ⟨64, le_refl _, rfl, address.toNat_lt⟩
  · next hne =>
    have hlog : address.toNat.log2 < 64 :=
      (Nat.log2_lt (fun h => hne (UInt64.toNat.inj h))).mpr address.toNat_lt
    refine ⟨address.toNat.log2 + 1, hlog, ?_, Nat.lt_log2_self⟩
    have hshift : (UInt64.ofNat (63 - address.toNat.log2)).toNat % 64 = 63 - address.toNat.log2 := by
      rw [UInt64.toNat_ofNat']
      omega
    have hall : (0xffffffffffffffff : UInt64).toNat = 2 ^ 64 - 1 := rfl
    unfold LowMask
    rw [UInt64.toNat_shiftRight, hshift, hall]
    apply Nat.eq_of_testBit_eq
    intro i
    rw [Nat.testBit_shiftRight, Nat.testBit_two_pow_sub_one, Nat.testBit_two_pow_sub_one,
      decide_eq_decide]
    omega

/-- Stripping with the mask does no harm to code addresses of the set: it keeps those
in a registered module, and finds the place of a call below any return address. -/
structure Harmless (s : ModuleSet) (mask : PtrAuthMask) : Prop where
  low : ∃ k ≤ 64, LowMask k mask.mask
  keeps : ∀ m, s.IsRegistered m → ∀ addr, m.Contains addr → mask.stripPtrAuth addr = addr
  findModule : ∀ m, s.IsRegistered m → ∀ addr, m.Contains addr →
    s.findModule (mask.stripPtrAuth addr) = s.findModule addr
  idempotent : ∀ v, mask.stripPtrAuth (mask.stripPtrAuth v) = mask.stripPtrAuth v
  keptBits : ∀ v i, mask.mask.toNat.testBit i = true →
    (mask.stripPtrAuth v).toNat.testBit i = v.toNat.testBit i
  lookup : ∀ ra, mask.stripPtrAuth ra ≠ 0 → mask.stripPtrAuth (ra - 1) = mask.stripPtrAuth ra - 1
  sameFrame : ∀ ra (h : ra ≠ 0) (h' : mask.stripPtrAuth ra ≠ 0),
    mask.stripPtrAuth (FrameAddress.returnAddress ra h).addressForLookup =
      mask.stripPtrAuth (FrameAddress.returnAddress (mask.stripPtrAuth ra) h').addressForLookup

theorem idempotent (mask : PtrAuthMask) (v : UInt64) :
    mask.stripPtrAuth (mask.stripPtrAuth v) = mask.stripPtrAuth v := by
  unfold stripPtrAuth
  rw [UInt64.and_assoc, UInt64.and_self]

theorem stripPtrAuth_sub_one {mask : PtrAuthMask} {k : Nat} (hlow : LowMask k mask.mask) {ra : UInt64}
    (h : mask.stripPtrAuth ra ≠ 0) : mask.stripPtrAuth (ra - 1) = mask.stripPtrAuth ra - 1 :=
  hlow.and_sub_one h

/-- The mask that is derived from the known modules. -/
theorem knownMask_harmless (s : ModuleSet) :
    Harmless s (fromMaxKnownAddress s.maxKnownCodeAddress) := by
  obtain ⟨k, hk, hlow, hmax⟩ := fromMaxKnownAddress_low s.maxKnownCodeAddress
  have hkeeps : ∀ m, s.IsRegistered m → ∀ addr, m.Contains addr →
      (fromMaxKnownAddress s.maxKnownCodeAddress).stripPtrAuth addr = addr := by
    intro m hm addr hin
    have hle := UInt64.le_iff_toNat_le.mp hm.stop_le
    have hlt := UInt64.lt_iff_toNat_lt.mp hin.2
    exact hlow.and_of_lt (by omega)
  refine ⟨⟨k, hk, hlow⟩, hkeeps, ?_, idempotent _, ?_, fun ra => stripPtrAuth_sub_one hlow, ?_⟩
  · intro m hm addr hin
    rw [hkeeps m hm addr hin]
  · intro v i hi
    rw [stripPtrAuth, UInt64.toNat_and, Nat.testBit_and, hi, Bool.and_true]
  · intro ra h h'
    -- the stripped address is itself one with low bits left
    have hagain := stripPtrAuth_sub_one hlow (show _ ≠ 0 by rw [idempotent]; exact h')
    rw [idempotent] at hagain
    exact (stripPtrAuth_sub_one hlow h').trans hagain.symm

end Aarch64.PtrAuthMask

end Unwinder
