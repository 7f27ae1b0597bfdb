import Unwinder.Proofs.Confinement

namespace Unwinder.Dwarf
open Lib

/-- A CIE whose fields can all be read stands at an offset. -/
structure CieLayout.StandsAt (l : CieLayout) (s : Slice) (off : Nat) (avma : UInt64) : Prop where
  wellFormed : l.WellFormed
  settings : (l.settings (avma + UInt64.ofNat off)).isSome
  bytes : (s.data.drop off).take l.bytes.length = l.bytes
  entryEnd : l.entryEnd off < 2 ^ 64

/-- Where the augmentation data starts, behind the bytes of its length. -/
def CieLayout.augDataStart (l : CieLayout) (off : Nat) (augLen : List UInt8) : Nat :=
  off + l.front.length + augLen.length

/-- The augmentation length of a CIE decides where its instructions start, and a
length that does not hold the data, or that the entry does not hold, is an error. -/
structure HonoursAugLen (s : Slice) (off : Nat) (avma : UInt64) : Prop where
  offset : ∀ l augLen items cie, CieLayout.StandsAt l s off avma →
    l.augmentation = some (augLen, items) → parseCie s off avma = .ok cie →
    cie.cieInstrOffsetInEhFrame = l.augDataStart off augLen + ulebValue augLen ∧
    l.augDataStart off augLen + (items.flatMap AugItem.bytes).length ≤ cie.cieInstrOffsetInEhFrame
  rejects : ∀ l augLen items, CieLayout.StandsAt l s off avma →
    l.augmentation = some (augLen, items) →
    (ulebValue augLen < (items.flatMap AugItem.bytes).length ∨
      l.entryEnd off < l.augDataStart off augLen + ulebValue augLen) →
    ∃ e, parseCie s off avma = .err e

namespace CieLayout

variable {l : CieLayout} {s : Slice} {off : Nat} {avma : UInt64}

theorem bytes_ne_nil (l : CieLayout) : l.bytes ≠ [] := by
  intro h
  have hversion : l.version ∈ l.bytes := by simp [CieLayout.bytes, front]
  rw [h] at hversion
  exact absurd hversion (by simp)

theorem StandsAt.valid (h : l.StandsAt s off avma) : off ≤ s.len := by
  obtain ⟨b, bs, hb⟩ := List.exists_cons_of_ne_nil l.bytes_ne_nil
  have ha : Cursor.Ahead ⟨s, off, avma⟩ l.bytes := h.bytes
  have hrest := ha.rest
  rw [hb] at hrest
  exact Cursor.valid_of_rest hrest

/-- What the parser makes of a CIE: its instructions start behind the data of its
letters, whatever the length says. -/
theorem StandsAt.parseCie_eq (h : l.StandsAt s off avma) :
    ∃ cie : ParsedCie, cie.cieInstrOffsetInEhFrame = off + l.bytes.length ∧
      parseCie s off avma =
        if s.len < l.entryEnd off then
          .err ⟨off + l.bytes.length, .truncated (l.entryEnd off) s.len⟩
        else if off + l.bytes.length ≤ l.entryEnd off then .ok cie else .panic := by
  obtain ⟨a, hset⟩ := Option.isSome_iff_exists.mp h.settings
  have hread := CieLayout.reads_header (c := ⟨s, off, avma⟩) h.valid h.wellFormed h.bytes h.entryEnd
    hset
  rw [parseCie, cieBody_eq, entryBody_run hread.2]
  exact ⟨_, rfl, rfl⟩

/-- The data ends behind the letters' bytes. -/
theorem end_eq {augLen : List UInt8} {items : List AugItem}
    (h : l.augmentation = some (augLen, items)) (off : Nat) :
    off + l.bytes.length = l.augDataStart off augLen + (items.flatMap AugItem.bytes).length := by
  rw [bytes, augData, h, augDataStart, AugSpelling.data, List.length_append, List.length_append]
  omega

end CieLayout

/-- What is read of a fixed-width field lies in the slice. -/
theorem readFixed_valid {c c' : Cursor} {n : Nat} {v : List UInt8}
    (h : readFixed n c = (.ok v, c')) : c.Valid := by
  unfold readFixed at h
  rw [StateRes.bind_of_ok (cursor_apply c), StateRes.bind_eq_ok] at h
  obtain ⟨stop, t, -, h⟩ := h
  unfold Cursor.Valid
  cases hg : c.bytes.get? c.pos stop with
  | none =>
    rw [hg] at h
    cases h
  | some slice =>
    unfold Slice.get? at hg
    split at hg
    · next hle => omega
    · cases hg

theorem cieHeader_valid {c c' : Cursor} {hd : CieHeader} (h : cieHeader c = (.ok hd, c')) :
    c.Valid := by
  unfold cieHeader at h
  obtain ⟨p, t, hlen, -⟩ := StateRes.bind_eq_ok.mp h
  unfold readEntryLength at hlen
  obtain ⟨len32, t', hfield, -⟩ := StateRes.bind_eq_ok.mp hlen
  obtain ⟨bs, t'', hfixed, -⟩ := StateRes.bind_eq_ok.mp hfield
  exact readFixed_valid hfixed

/-- Every CIE that is accepted is one whose fields can be read. -/
theorem parseCie_standsAt {s : Slice} {off : Nat} {avma : UInt64} {cie : ParsedCie}
    (h : parseCie s off avma = .ok cie) :
    ∃ l : CieLayout, l.StandsAt s off avma ∧ l.augmentation.isSome = cie.hasZ := by
  have hbody : cieBody ⟨s, off, avma⟩ = (.ok cie, (cieBody ⟨s, off, avma⟩).2) := Prod.ext h rfl
  rw [cieBody, StateRes.bind_eq_ok] at hbody
  obtain ⟨hd, c', hheader, hrest⟩ := hbody
  obtain ⟨l, hw, ha, he, -, a, hset, rfl⟩ := cieHeader_layout (cieHeader_valid hheader) hheader
  obtain ⟨r, t, -, hcie⟩ := StateRes.bind_eq_ok.mp hrest
  refine ⟨l, ⟨hw, Option.isSome_iff_exists.mpr ⟨a, hset⟩, ha, he⟩, ?_⟩
  cases hcie
  rfl

/-- One CIE has its augmentation length honoured if the entry is cut off by the
slice, or the data has exactly that length and lies in the entry. -/
theorem CieLayout.StandsAt.honours_iff {l : CieLayout} {s : Slice} {off : Nat} {avma : UInt64}
    {augLen : List UInt8} {items : List AugItem} (h : l.StandsAt s off avma)
    (haug : l.augmentation = some (augLen, items)) :
    ((∀ cie, parseCie s off avma = .ok cie →
      cie.cieInstrOffsetInEhFrame = l.augDataStart off augLen + ulebValue augLen ∧
      l.augDataStart off augLen + (items.flatMap AugItem.bytes).length ≤
        cie.cieInstrOffsetInEhFrame) ∧
    ((ulebValue augLen < (items.flatMap AugItem.bytes).length ∨
      l.entryEnd off < l.augDataStart off augLen + ulebValue augLen) →
      ∃ e, parseCie s off avma = .err e)) ↔
    s.len < l.entryEnd off ∨ (ulebValue augLen = (items.flatMap AugItem.bytes).length ∧
      off + l.bytes.length ≤ l.entryEnd off) := by
  obtain ⟨cie, hoff, hparse⟩ := h.parseCie_eq
  have hend := l.end_eq haug off
  rw [hparse]
  by_cases hcut : s.len < l.entryEnd off
  · rw [if_pos hcut]
    refine iff_of_true ⟨?_, fun _ => ⟨_, rfl⟩⟩ (Or.inl hcut)
    intro cie' he
    cases he
  rw [if_neg hcut]
  by_cases hin : off + l.bytes.length ≤ l.entryEnd off
  · rw [if_pos hin]
    constructor
    · intro hon
      obtain ⟨hstart, -⟩ := hon.1 cie rfl
      exact Or.inr ⟨by omega, hin⟩
    · intro hc
      obtain ⟨hlen, -⟩ := hc.resolve_left hcut
      refine ⟨?_, fun hbad => by omega⟩
      intro cie' he
      cases he
      omega
  · rw [if_neg hin]
    constructor
    · intro hon
      obtain ⟨e, he⟩ := hon.2 (by omega)
      cases he
    · intro hc
      exact absurd (hc.resolve_left hcut).2 hin

/-- The parser honours the augmentation length where a CIE has none of its data
missing or to spare: it does not look at the length at all. -/
theorem parseCie_honours_iff (s : Slice) (off : Nat) (avma : UInt64) :
    (∀ cie, parseCie s off avma = .ok cie →
      ∃ l : CieLayout, l.StandsAt s off avma ∧ l.augmentation.isSome = cie.hasZ) ∧
    (HonoursAugLen s off avma ↔
      ∀ l augLen items, CieLayout.StandsAt l s off avma → l.augmentation = some (augLen, items) →
        s.len < l.entryEnd off ∨ (ulebValue augLen = (items.flatMap AugItem.bytes).length ∧
          off + l.bytes.length ≤ l.entryEnd off)) := by
  refine ⟨fun cie h => parseCie_standsAt h, ?_⟩
  constructor
  · intro hon l augLen items h haug
    exact (h.honours_iff haug).mp ⟨fun cie hp => hon.offset l augLen items cie h haug hp,
      hon.rejects l augLen items h haug⟩
  · intro hc
    constructor
    · intro l augLen items cie h haug hp
      exact ((h.honours_iff haug).mpr (hc l augLen items h haug)).1 cie hp
    · intro l augLen items h haug
      exact ((h.honours_iff haug).mpr (hc l augLen items h haug)).2

/-- A CIE with a byte of padding behind its one encoding, then an instruction. -/
def paddedCie : Slice :=
  ⟨[17, 0, 0, 0, 0, 0, 0, 0, 1, 0x7a, 0x52, 0, 1, 0x78, 16, 2, 0x1b, 0, 0x0c, 7, 8], by decide⟩

def paddedLayout : CieLayout := ⟨false, 17, 1, [1], [0x78], [16], some ([2], [.fdeEncoding 0x1b])⟩

theorem paddedLayout_standsAt : paddedLayout.StandsAt paddedCie 0 0 where
  wellFormed := {
    length := by decide
    version := by decide
    codeAlign := by decide
    dataAlign := by decide
    column := rfl
    augLen := by decide }
  settings := by decide +kernel
  bytes := by decide +kernel
  entryEnd := by decide

/-- The padding is taken for the first instruction. -/
theorem paddedCie_misread :
    (∃ cie, parseCie paddedCie 0 0 = .ok cie ∧ cie.cieInstrOffsetInEhFrame = 17) ∧
    paddedLayout.augDataStart 0 [2] + ulebValue [2] = 18 ∧ ¬ HonoursAugLen paddedCie 0 0 := by
  obtain ⟨cie, hoff, hparse⟩ := paddedLayout_standsAt.parseCie_eq
  rw [if_neg (by decide), if_pos (by decide)] at hparse
  have hseventeen : cie.cieInstrOffsetInEhFrame = 17 := hoff.trans (by decide)
  have heighteen : paddedLayout.augDataStart 0 [2] + ulebValue [2] = 18 := by decide
  refine ⟨⟨cie, hparse, hseventeen⟩, heighteen, ?_⟩
  intro hon
  have hstart := (hon.offset paddedLayout [2] _ cie paddedLayout_standsAt rfl hparse).1
  rw [hseventeen, heighteen] at hstart
  cases hstart

end Unwinder.Dwarf
