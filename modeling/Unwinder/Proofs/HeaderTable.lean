import Unwinder.Proofs.Lookup

namespace Unwinder.EhFrameTable
open Lib Dwarf

variable {t : EhFrameTable} {hdr : Slice} {avma ip : UInt64}

/-- The listed starts do not decrease. -/
def Ordered (t : EhFrameTable) (hdr : Slice) : Prop :=
  ∀ i j, i ≤ j → j < t.count → t.pcAt hdr i ≤ t.pcAt hdr j

/-- The entries that start at or below an address. -/
def startedBy (t : EhFrameTable) (hdr : Slice) (ip : UInt64) : Set Nat :=
  {i | i < t.count ∧ t.pcAt hdr i ≤ ip}

theorem Ordered.downClosed (h : t.Ordered hdr) (ip : UInt64) :
    DownClosed (fun i => t.pcAt hdr i ≤ ip) t.count := by
  intro i j hij hj hp
  exact decide_eq_true (le_trans (h i j hij hj) (of_decide_eq_true hp))

section Table

variable (hfit : t.tableDataOffset.toNat + t.count * 8 ≤ hdr.len)

include hfit

theorem lookup_below {ε : Type} (ho : t.Ordered hdr) (hlt : ip < t.pcAt hdr 0) :
    (t.lookup hdr ip : Res ε _) = .ok none := by
  by_cases hpos : 0 < t.count
  · have hlo := lastIndex_lt (fun i => decide (t.pcAt hdr i ≤ ip)) hpos
    rw [lookup_eq hfit hpos]
    exact congrArg Res.ok (if_pos (lt_of_lt_of_le hlt (ho 0 _ (Nat.zero_le _) hlo)))
  · exact lookup_empty (Nat.eq_zero_of_not_pos hpos)

theorem lookup_last {ε : Type} (ho : t.Ordered hdr) {i : Nat}
    (hi : IsGreatest (t.startedBy hdr ip) i) :
    (t.lookup hdr ip : Res ε _) = .ok (some (t.pcAt hdr i, t.fdeAt hdr i)) := by
  have hpos : 0 < t.count := Nat.lt_of_le_of_lt (Nat.zero_le i) hi.1.1
  have hfirst : t.pcAt hdr 0 ≤ ip := le_trans (ho 0 i (Nat.zero_le i) hi.1.1) hi.1.2
  have hfound := lastIndex_isGreatest (ho.downClosed ip) hpos (decide_eq_true hfirst)
  simp only [decide_eq_true_eq] at hfound
  obtain rfl := hi.unique hfound
  rw [lookup_eq hfit hpos]
  exact congrArg Res.ok (if_neg (not_lt.mpr hi.1.2))

end Table

/-- A table that was accepted can be searched: no index leaves the section and no
offset overflows, what is found is listed and not above the address, and in an
ordered table it is the last such entry. -/
theorem lookup_exact (hdr : Slice) (avma : UInt64) (t : EhFrameTable)
    (h : parse hdr avma = .ok t) (ip : UInt64) (ε : Type) :
    t.tableDataOffset.toNat + t.count * 8 < 2 ^ 64 ∧
    hdr.get? t.tableDataOffset.toNat (t.tableDataOffset.toNat + t.count * 8) =
      some (t.entries hdr) ∧
    ∃ r, (t.lookup hdr ip : Res ε _) = .ok r ∧
      (∀ pc fde, r = some (pc, fde) →
        ∃ i < t.count, pc = t.pcAt hdr i ∧ fde = t.fdeAt hdr i ∧ pc ≤ ip) ∧
      (t.Ordered hdr →
        (∀ i, IsGreatest (t.startedBy hdr ip) i → r = some (t.pcAt hdr i, t.fdeAt hdr i)) ∧
        (r = none ↔ t.count = 0 ∨ ip < t.pcAt hdr 0)) := by
  have hfit := parse_fits h
  have hb := hdr.bound
  have hl : hdr.len = hdr.data.length := rfl
  obtain ⟨r, hr, hlisted⟩ := lookup_cases (ε := ε) hfit ip
  refine ⟨by omega, get?_entries hfit, r, hr, hlisted, ?_⟩
  intro ho
  have hlast : ∀ i, IsGreatest (t.startedBy hdr ip) i → r = some (t.pcAt hdr i, t.fdeAt hdr i) := by
    intro i hi
    exact Res.ok.inj (hr.symm.trans (lookup_last hfit ho hi))
  refine ⟨hlast, ?_⟩
  constructor
  · intro hnone
    by_contra hsome
    obtain ⟨hne, hge⟩ := not_or.mp hsome
    have hpos := Nat.pos_of_ne_zero hne
    have hfound := lastIndex_isGreatest (ho.downClosed ip) hpos (decide_eq_true (not_lt.mp hge))
    simp only [decide_eq_true_eq] at hfound
    rw [hlast _ hfound] at hnone
    cases hnone
  · intro hmiss
    rcases hmiss with hzero | hlt
    · exact Res.ok.inj (hr.symm.trans (lookup_empty hzero))
    · exact Res.ok.inj (hr.symm.trans (lookup_below hfit ho hlt))

/-- A header with three entries, the last two of which start at one address. -/
def twinHdr : Slice := ⟨[1, 0x1b, 0x03, 0x3b, 0, 0, 0, 0, 3, 0, 0, 0, 0x10, 0, 0, 0, 0x00, 1, 0, 0,
  0x20, 0, 0, 0, 0x18, 1, 0, 0, 0x20, 0, 0, 0, 0x30, 1, 0, 0], by decide⟩

def twinTable : EhFrameTable := ⟨12, 3, 0x4000⟩

theorem twinTable_ordered : twinTable.Ordered twinHdr := by
  have h : ∀ j < 3, ∀ i < 3, i ≤ j → twinTable.pcAt twinHdr i ≤ twinTable.pcAt twinHdr j := by decide
  intro i j hij hj
  exact h j hj i (Nat.lt_of_le_of_lt hij hj) hij

theorem twinTable_found : parse twinHdr 0x4000 = .ok twinTable ∧ twinTable.Ordered twinHdr ∧
    (twinTable.lookup twinHdr 0x4025 : Res Empty _) = .ok (some (0x4020, 0x4130)) := by
  have hparse : parse twinHdr 0x4000 = .ok twinTable := rfl
  have hlast : IsGreatest (twinTable.startedBy twinHdr 0x4025) 2 := by
    refine ⟨⟨by decide, by decide⟩, ?_⟩
    intro i hi
    exact Nat.le_of_lt_succ hi.1
  obtain ⟨-, -, r, hr, -, hordered⟩ := lookup_exact twinHdr 0x4000 twinTable hparse 0x4025 Empty
  refine ⟨hparse, twinTable_ordered, hr.trans ?_⟩
  rw [(hordered twinTable_ordered).1 2 hlast]
  rfl

/-- A header of the supported version, with its three encodings. -/
def Fixed (hdr : Slice) (ehFramePtrEnc fdeCountEnc tableEnc : UInt8) : Prop :=
  ∃ rest, hdr.data = 1 :: ehFramePtrEnc :: fdeCountEnc :: tableEnc :: rest

/-- An error that says something is missing says where and how much. -/
def TruncatedAsSaid (hdr : Slice) : EhFrameHdrError → Prop
  | .fixedHeaderTruncated len => len = hdr.len ∧ hdr.len < 4
  | .ehFramePtrTruncated offset size len => len = hdr.len ∧ hdr.len < offset + size
  | .fdeCountTruncated offset size len => len = hdr.len ∧ hdr.len < offset + size
  | .tableTruncated offset entryCount len => len = hdr.len ∧ hdr.len < offset + 8 * entryCount.toNat
  | .unsupportedVersion _ | .unsupportedEhFramePtrEncoding _ | .unsupportedFdeCountEncoding _
  | .unsupportedTableEncoding _ => True

/-- The errors of the parser are exact: nothing is called truncated that is there, and
an encoding that cannot be decoded is named where its bytes are not missing. -/
structure Diagnoses (hdr : Slice) (avma : UInt64) : Prop where
  truncated : ∀ err, parse hdr avma = .error err → TruncatedAsSaid hdr err
  ehFramePtr : ∀ ptrEnc countEnc tableEnc, Fixed hdr ptrEnc countEnc tableEnc →
    encSize ptrEnc = none → parse hdr avma = .error (.unsupportedEhFramePtrEncoding ptrEnc)
  fdeCount : ∀ ptrEnc countEnc tableEnc size, Fixed hdr ptrEnc countEnc tableEnc →
    encSize ptrEnc = some size → 4 + size ≤ hdr.len → countSize countEnc = none →
    (∀ n, encSize countEnc = some n → 4 + size + n ≤ hdr.len) →
    parse hdr avma = .error (.unsupportedFdeCountEncoding countEnc)
  table : ∀ ptrEnc countEnc tableEnc size fdeCount n, Fixed hdr ptrEnc countEnc tableEnc →
    encSize ptrEnc = some size →
    readUnsigned (hdr.data.drop (4 + size)) countEnc = some (fdeCount, n) →
    tableEnc ≠ DW_EH_PE_DATAREL ||| DW_EH_PE_SDATA4 →
    parse hdr avma = .error (.unsupportedTableEncoding tableEnc)

/-- The count is in a format that has a size and cannot be decoded, and it is there. -/
def CountUndecoded (hdr : Slice) : Prop :=
  ∃ ptrEnc countEnc tableEnc size n, Fixed hdr ptrEnc countEnc tableEnc ∧
    encSize ptrEnc = some size ∧ countSize countEnc = none ∧ encSize countEnc = some n ∧
    4 + size + n ≤ hdr.len

theorem readUnsigned_none {bytes : List UInt8} {enc : UInt8} (h : countSize enc = none) :
    readUnsigned bytes enc = none := by
  cases hr : readUnsigned bytes enc with
  | none => rfl
  | some p =>
    have hsize := (readUnsigned_size hr).1
    rw [h] at hsize
    cases hsize

theorem countSize_pos {enc : UInt8} {n : Nat} (h : countSize enc = some n) : 0 < n := by
  unfold countSize at h
  split_ifs at h
  · obtain rfl := Option.some.inj h
    decide
  · obtain rfl := Option.some.inj h
    decide

/-- A count is missing only where it has too few bytes. -/
theorem readUnsigned_short {bytes : List UInt8} {enc : UInt8} {n : Nat}
    (h : countSize enc = some n) (hr : readUnsigned bytes enc = none) :
    encSize enc = some n ∧ bytes.length < n := by
  unfold countSize at h
  unfold readUnsigned at hr
  unfold encSize
  by_cases homit : enc = DW_EH_PE_OMIT
  · rw [if_pos homit] at h
    cases h
  · rw [if_neg homit] at h hr ⊢
    dsimp only at hr ⊢
    split_ifs at h hr ⊢ <;> simp_all

section Parse

variable {ptrEnc countEnc tableEnc : UInt8} {size : Nat}

theorem parse_fixed (h : Fixed hdr ptrEnc countEnc tableEnc) :
    parse hdr avma = match encSize ptrEnc with
      | none => .error (.unsupportedEhFramePtrEncoding ptrEnc)
      | some size =>
        if hdr.len < 4 + size then .error (.ehFramePtrTruncated 4 size hdr.len)
        else parseCount hdr countEnc tableEnc (4 + size) avma := by
  obtain ⟨rest, hdata⟩ := h
  unfold parse
  rw [hdata]
  exact if_neg (not_not.mpr rfl)

theorem parse_counted (h : Fixed hdr ptrEnc countEnc tableEnc) (hsize : encSize ptrEnc = some size)
    (hlen : 4 + size ≤ hdr.len) :
    parse hdr avma = parseCount hdr countEnc tableEnc (4 + size) avma := by
  rw [parse_fixed h, hsize]
  exact if_neg (not_lt.mpr hlen)

theorem parseTable_truncated {cursor : Nat} {fdeCount : UInt64} {err : EhFrameHdrError}
    (h : parseTable hdr tableEnc cursor fdeCount avma = .error err) : TruncatedAsSaid hdr err := by
  have hb := hdr.bound
  have hl : hdr.len = hdr.data.length := rfl
  unfold parseTable at h
  split at h
  · obtain rfl := Except.error.inj h
    trivial
  · dsimp only at h
    split at h
    · next hlen =>
      obtain rfl := Except.error.inj h
      refine ⟨rfl, ?_⟩
      omega
    · cases h

theorem parseCount_truncated {err : EhFrameHdrError}
    (hcount : countSize countEnc = none → ∀ n, encSize countEnc = some n → hdr.len < 4 + size + n)
    (hlen : 4 + size ≤ hdr.len)
    (h : parseCount hdr countEnc tableEnc (4 + size) avma = .error err) :
    TruncatedAsSaid hdr err := by
  have hl : hdr.len = hdr.data.length := rfl
  unfold parseCount at h
  split at h
  · exact parseTable_truncated h
  · next hread =>
    split at h
    · next n hn =>
      obtain rfl := Except.error.inj h
      refine ⟨rfl, ?_⟩
      cases hc : countSize countEnc with
      | none => exact hcount hc n hn
      | some k =>
        obtain ⟨hk, hshort⟩ := readUnsigned_short hc hread
        rw [hn] at hk
        obtain rfl := Option.some.inj hk
        rw [List.length_drop] at hshort
        omega
    · obtain rfl := Except.error.inj h
      trivial

/-- Every error but that about an undecoded count says the truth. -/
theorem parse_truncated {err : EhFrameHdrError} (hc : ¬ CountUndecoded hdr)
    (h : parse hdr avma = .error err) : TruncatedAsSaid hdr err := by
  rcases hdata : hdr.data with _ | ⟨version, _ | ⟨ptrEnc, _ | ⟨countEnc, _ | ⟨tableEnc, rest⟩⟩⟩⟩
  case cons.cons.cons.cons =>
    by_cases hversion : version = 1
    · subst hversion
      have hfixed : Fixed hdr ptrEnc countEnc tableEnc := ⟨rest, hdata⟩
      rw [parse_fixed hfixed] at h
      split at h
      · obtain rfl := Except.error.inj h
        trivial
      · next size hsize =>
        split at h
        · next hlen =>
          obtain rfl := Except.error.inj h
          exact ⟨rfl, hlen⟩
        · next hlen =>
          refine parseCount_truncated ?_ (not_lt.mp hlen) h
          intro hnone n hn
          by_contra hfits
          exact hc ⟨ptrEnc, countEnc, tableEnc, size, n, hfixed, hsize, hnone, hn, not_lt.mp hfits⟩
    · unfold parse at h
      rw [hdata] at h
      dsimp only at h
      rw [if_pos hversion] at h
      obtain rfl := Except.error.inj h
      trivial
  -- fewer than four bytes
  all_goals
    unfold parse at h
    rw [hdata] at h
    obtain rfl := Except.error.inj h
    refine ⟨rfl, ?_⟩
    simp [Slice.len, hdata]

theorem parse_undecoded {n : Nat} (h : Fixed hdr ptrEnc countEnc tableEnc)
    (hsize : encSize ptrEnc = some size) (hlen : 4 + size ≤ hdr.len)
    (hnone : countSize countEnc = none) (hn : encSize countEnc = some n) :
    parse hdr avma = .error (.fdeCountTruncated (4 + size) n hdr.len) := by
  rw [parse_counted h hsize hlen, parseCount, readUnsigned_none hnone, hn]

/-- The errors are exact unless a count that cannot be decoded is there: that one
is called truncated. -/
theorem diagnoses_iff (hdr : Slice) (avma : UInt64) : Diagnoses hdr avma ↔ ¬ CountUndecoded hdr := by
  constructor
  · intro h hc
    obtain ⟨ptrEnc, countEnc, tableEnc, size, n, hfixed, hsize, hnone, hn, hfits⟩ := hc
    have hsaid := h.truncated _ (parse_undecoded hfixed hsize (by omega) hnone hn)
    exact absurd hsaid.2 (not_lt.mpr hfits)
  · intro hc
    refine ⟨fun err => parse_truncated hc, ?_, ?_, ?_⟩
    · intro ptrEnc countEnc tableEnc hfixed hnone
      rw [parse_fixed hfixed, hnone]
    · intro ptrEnc countEnc tableEnc size hfixed hsize hlen hnone hthere
      rw [parse_counted hfixed hsize hlen, parseCount, readUnsigned_none hnone]
      cases hn : encSize countEnc with
      | none => rfl
      | some n =>
        exact absurd ⟨ptrEnc, countEnc, tableEnc, size, n, hfixed, hsize, hnone, hn, hthere n hn⟩ hc
    · intro ptrEnc countEnc tableEnc size fdeCount n hfixed hsize hread htable
      obtain ⟨hn, hle⟩ := readUnsigned_size hread
      have hpos := countSize_pos hn
      rw [List.length_drop] at hle
      have hl : hdr.len = hdr.data.length := rfl
      rw [parse_counted hfixed hsize (by omega), parseCount, hread]
      exact if_pos htable

end Parse

/-- A header whose count is two bytes wide. -/
def shortCountHdr : Slice :=
  ⟨[1, 0x1b, 0x02, 0x3b, 0, 0, 0, 0, 1, 0, 0x10, 0, 0, 0, 0x00, 1, 0, 0], by decide⟩

theorem shortCount_called_truncated :
    parse shortCountHdr 0x4000 = .error (.fdeCountTruncated 8 2 18) ∧
      ¬ Diagnoses shortCountHdr 0x4000 := by
  refine ⟨rfl, ?_⟩
  intro h
  exact absurd (h.truncated _ rfl).2 (by decide)

end Unwinder.EhFrameTable
