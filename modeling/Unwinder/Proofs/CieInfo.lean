import Unwinder.Callbacks
import Unwinder.CieInfo

namespace Unwinder
open Lib Dwarf StructLayout

namespace DwarfCieInfo

/-- The first of the two padding bytes between `lsda_encoding` and `flags`. -/
def flagsPadding : Nat := 70

theorem members_layout : layout 0 members =
    [⟨0, 8, 0, 64⟩, ⟨8, 8, 0, 64⟩, ⟨16, 8, 0, 64⟩, ⟨24, 8, 0, 64⟩, ⟨32, 8, 0, 64⟩,
      ⟨40, 8, 0, 64⟩, ⟨48, 8, 0, 64⟩, ⟨56, 8, 0, 64⟩, ⟨64, 2, 0, 16⟩, ⟨66, 2, 0, 16⟩,
      ⟨68, 1, 0, 8⟩, ⟨69, 1, 0, 8⟩, ⟨72, 4, 0, 32⟩] := by
  decide

/-- The size that libunwind is told is the size of the struct. -/
theorem size_eq : DwarfCieInfo.size = (byteSize members : Int) := by
  decide

variable (info : DwarfCieInfo) (mem : Mem)

theorem fields_apart :
    ((layout 0 members).zip info.values).Pairwise (fun f g => Apart f.1 g.1) := by
  have hapart := (layout_apart [8, 8, 8, 8, 8, 8, 8, 8, 2, 2, 1, 1, 4] (by decide) 0).2
  have hfst : ((layout 0 members).zip info.values).map Prod.fst = layout 0 members := by
    refine List.map_fst_zip ?_
    rw [members_layout]
    exact Nat.le_refl _
  rw [← List.pairwise_map (f := Prod.fst), hfst]
  exact hapart

theorem fields_fit : ∀ f ∈ (layout 0 members).zip info.values,
    f.1.bit = 0 ∧ f.1.width = 8 * f.1.size ∧ f.2 < 256 ^ f.1.size := by
  have h64 : ∀ x : UInt64, x.toNat < 256 ^ 8 := fun x => x.toNat_lt
  have h32 : ∀ x : UInt32, x.toNat < 256 ^ 4 := fun x => x.toNat_lt
  have h16 : ∀ x : UInt16, x.toNat < 256 ^ 2 := fun x => x.toNat_lt
  have h8 : ∀ x : UInt8, x.toNat < 256 ^ 1 := fun x => x.toNat_lt
  rw [members_layout]
  unfold values
  simp only [List.zip_cons_cons, List.zip_nil_right, List.forall_mem_cons, List.not_mem_nil,
    false_implies, implies_true, and_true, h64, h32, h16, h8]

theorem image_padding : info.image mem flagsPadding = mem flagsPadding := by
  refine storeAll_apart ?_
  intro f hf
  have hall : ∀ p ∈ layout 0 members, ¬ p.Holds flagsPadding := by decide
  exact hall f.1 (List.of_mem_zip hf).1

end DwarfCieInfo

namespace CieField

variable {f : CieField} (info : DwarfCieInfo) (mem : Mem)

/-- Both compilers put every member but the flags in the same place. -/
theorem placed_alike (h : ¬ f.IsFlag) : ∃ p, f.place = some p ∧
    (p, f.built info) ∈ (layout 0 DwarfCieInfo.members).zip info.values := by
  rw [DwarfCieInfo.members_layout]
  cases f with
  | cieInstrStart => exact ⟨_, rfl, List.mem_of_getElem? (i := 0) rfl⟩
  | cieInstrEnd => exact ⟨_, rfl, List.mem_of_getElem? (i := 1) rfl⟩
  | fdeInstrStart => exact ⟨_, rfl, List.mem_of_getElem? (i := 2) rfl⟩
  | fdeInstrEnd => exact ⟨_, rfl, List.mem_of_getElem? (i := 3) rfl⟩
  | codeAlign => exact ⟨_, rfl, List.mem_of_getElem? (i := 4) rfl⟩
  | dataAlign => exact ⟨_, rfl, List.mem_of_getElem? (i := 5) rfl⟩
  | retAddrColumn => exact ⟨_, rfl, List.mem_of_getElem? (i := 6) rfl⟩
  | handler => exact ⟨_, rfl, List.mem_of_getElem? (i := 7) rfl⟩
  | abi => exact ⟨_, rfl, List.mem_of_getElem? (i := 8) rfl⟩
  | tag => exact ⟨_, rfl, List.mem_of_getElem? (i := 9) rfl⟩
  | fdeEncoding => exact ⟨_, rfl, List.mem_of_getElem? (i := 10) rfl⟩
  | lsdaEncoding => exact ⟨_, rfl, List.mem_of_getElem? (i := 11) rfl⟩
  | sizedAugmentation => exact absurd (.inl rfl) h
  | haveAbiMarker => exact absurd (.inr (.inl rfl)) h
  | signalFrame => exact absurd (.inr (.inr rfl)) h

theorem read_plain (h : ¬ f.IsFlag) : f.read (info.image mem) = some (f.built info) := by
  obtain ⟨p, hp, hin⟩ := placed_alike info h
  unfold read
  rw [hp]
  exact congrArg some (load_storeAll info.fields_apart info.fields_fit hin)

/-- The bit-fields start behind `lsda_encoding`, in what is padding on the Rust side. -/
theorem read_flag {i : Nat} (hi : i < 3) (h : f.place = some ⟨68, 4, 16 + i, 1⟩) :
    f.read (info.image mem) = some ((mem DwarfCieInfo.flagsPadding).toNat / 2 ^ i % 2) := by
  have hbyte : 68 + (16 + i) / 8 = DwarfCieInfo.flagsPadding := by
    unfold DwarfCieInfo.flagsPadding
    omega
  have hbit : (16 + i) % 8 = i := by omega
  unfold read
  rw [h, Option.map_some, load_byte (by dsimp only; omega) (by dsimp only; omega)]
  dsimp only
  rw [hbyte, hbit, info.image_padding, Nat.pow_one]

/-- libunwind reads every member as it was built exactly when the padding holds the
low bits of the flags. -/
theorem read_all_iff : (∀ f : CieField, f.read (info.image mem) = some (f.built info)) ↔
    (mem DwarfCieInfo.flagsPadding).toNat % 8 = info.flags.toNat % 8 := by
  have h0 := read_flag (f := sizedAugmentation) info mem (i := 0) (by decide) rfl
  have h1 := read_flag (f := haveAbiMarker) info mem (i := 1) (by decide) rfl
  have h2 := read_flag (f := signalFrame) info mem (i := 2) (by decide) rfl
  constructor
  · intro h
    have e0 := Option.some.inj (h0.symm.trans (h sizedAugmentation))
    have e1 := Option.some.inj (h1.symm.trans (h haveAbiMarker))
    have e2 := Option.some.inj (h2.symm.trans (h signalFrame))
    simp only [built] at e0 e1 e2
    omega
  · intro h f
    by_cases hf : f.IsFlag
    · rcases hf with rfl | rfl | rfl
      · rw [h0, Option.some.injEq]
        simp only [built]
        omega
      · rw [h1, Option.some.injEq]
        simp only [built]
        omega
      · rw [h2, Option.some.injEq]
        simp only [built]
        omega
    · exact read_plain info mem hf

end CieField

theorem buildDwarfCieInfo_flags (cie : ParsedCie) (fde : ParsedFde) (base : UInt64) :
    (buildDwarfCieInfo cie fde base).flags.toNat = cie.hasZ.toNat + 4 * cie.signalFrame.toNat := by
  unfold buildDwarfCieInfo
  cases cie.hasZ <;> cases cie.signalFrame <;> rfl

/-- What libunwind reads of the struct that it is handed: everything but the flags as
it was built, and the flags from the padding in front of them. -/
theorem dwarfCieInfo_readBack_iff (info : DwarfCieInfo) (mem : Mem) :
    ((∀ f : CieField, f.read (info.image mem) = some (f.built info)) ↔
      (mem DwarfCieInfo.flagsPadding).toNat % 8 = info.flags.toNat % 8) ∧
    (∀ f : CieField, ¬ f.IsFlag → f.read (info.image mem) = some (f.built info)) ∧
    ∀ cie fde base, info = buildDwarfCieInfo cie fde base →
      (CieField.sizedAugmentation.built info = cie.hasZ.toNat ∧
        CieField.signalFrame.built info = cie.signalFrame.toNat) ∧
      ((∀ f : CieField, f.read (info.image mem) = some (f.built info)) ↔
        (mem DwarfCieInfo.flagsPadding).toNat % 8 =
          cie.hasZ.toNat + 4 * cie.signalFrame.toNat) := by
  refine ⟨CieField.read_all_iff info mem, fun f => CieField.read_plain info mem, ?_⟩
  intro cie fde base hinfo
  have hflags := buildDwarfCieInfo_flags cie fde base
  rw [← hinfo] at hflags
  have hz := cie.hasZ.toNat_le
  have hs := cie.signalFrame.toNat_le
  refine ⟨⟨?_, ?_⟩, ?_⟩
  · simp only [CieField.built]
    omega
  · simp only [CieField.built]
    omega
  · rw [CieField.read_all_iff, hflags]
    omega

/-- The `zRS` CIE of a signal trampoline. -/
def trampolineCie : ParsedCie := ⟨1, -8, 16, 0x1b, 0xff, 0, true, true, 17, 3⟩

def trampolineInfo : DwarfCieInfo := buildDwarfCieInfo trampolineCie ⟨0x1000, 0x10, 37, 3, 0⟩ 0x3000

/-- Over zeroed memory libunwind reads neither flag of a signal frame. -/
theorem trampoline_flags_lost : trampolineInfo.flags = 5 ∧
    CieField.sizedAugmentation.read (trampolineInfo.image (fun _ => 0)) = some 0 ∧
    CieField.signalFrame.read (trampolineInfo.image (fun _ => 0)) = some 0 ∧
    ¬ ∀ f : CieField, f.read (trampolineInfo.image (fun _ => 0)) = some (f.built trampolineInfo) := by
  refine ⟨by decide, by decide +kernel, by decide +kernel, ?_⟩
  intro h
  exact absurd (h .signalFrame) (by decide +kernel)

end Unwinder
