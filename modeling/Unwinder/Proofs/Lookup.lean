import Unwinder.FunctionDetails
import Unwinder.Lib.Search

namespace Unwinder
open Lib Dwarf

/-- The encodings that a count is decoded from, with the bytes it takes. -/
def countSize (enc : UInt8) : Option Nat :=
  if enc = DW_EH_PE_OMIT then none
  else if enc &&& 0x0f = DW_EH_PE_UDATA4 ∨ enc &&& 0x0f = DW_EH_PE_SDATA4 then some 4
  else if enc &&& 0x0f = 0x04 then some 8
  else none

theorem readUnsigned_size {bytes : List UInt8} {enc : UInt8} {v : UInt64} {size : Nat}
    (h : readUnsigned bytes enc = some (v, size)) : countSize enc = some size ∧ size ≤ bytes.length := by
  unfold readUnsigned at h
  unfold countSize
  by_cases homit : enc = DW_EH_PE_OMIT
  · rw [if_pos homit] at h
    cases h
  · rw [if_neg homit] at h ⊢
    simp only at h
    split_ifs at h with h4 hl h4' hl' h8 hl''
    · obtain ⟨-, rfl⟩ := Prod.mk.inj (Option.some.inj h)
      exact ⟨if_pos (Or.inl h4), by omega⟩
    · obtain ⟨-, rfl⟩ := Prod.mk.inj (Option.some.inj h)
      exact ⟨if_pos (Or.inr h4'), by omega⟩
    · obtain ⟨-, rfl⟩ := Prod.mk.inj (Option.some.inj h)
      rw [if_neg (not_or.mpr ⟨h4, h4'⟩), if_pos h8]
      exact ⟨rfl, by omega⟩

namespace EhFrameTable

variable {t : EhFrameTable} {hdr : Slice} {avma ip : UInt64}

/-- The start address that an entry of the table lists. -/
def pcAt (t : EhFrameTable) (hdr : Slice) (i : Nat) : UInt64 :=
  t.ehFrameHdrAvma + signExtend32 ((hdr.data.drop (t.tableDataOffset.toNat + i * 8)).take 4)

/-- The address of the FDE that an entry of the table lists. -/
def fdeAt (t : EhFrameTable) (hdr : Slice) (i : Nat) : UInt64 :=
  t.ehFrameHdrAvma + signExtend32 ((hdr.data.drop (t.tableDataOffset.toNat + i * 8 + 4)).take 4)

def count (t : EhFrameTable) : Nat := t.entryCount.toNat

theorem parseTable_eq_ok {tableEnc : UInt8} {cursor : Nat} {fdeCount : UInt64} (hc : cursor ≤ hdr.len) :
    parseTable hdr tableEnc cursor fdeCount avma = .ok t ↔
      tableEnc = DW_EH_PE_DATAREL ||| DW_EH_PE_SDATA4 ∧ cursor + 8 * fdeCount.toNat ≤ hdr.len ∧
      t = ⟨UInt64.ofNat cursor, fdeCount, avma⟩ := by
  have hb := hdr.bound
  have hl : hdr.len = hdr.data.length := rfl
  unfold parseTable
  by_cases henc : tableEnc = DW_EH_PE_DATAREL ||| DW_EH_PE_SDATA4
  · rw [if_neg (not_not.mpr henc)]
    dsimp only
    split
    · next hlen =>
      constructor
      · intro h
        cases h
      · intro h
        omega
    · next hlen =>
      constructor
      · intro h
        exact ⟨henc, by omega, (Except.ok.inj h).symm⟩
      · intro h
        rw [h.2.2]
  · rw [if_pos henc]
    constructor
    · intro h
      cases h
    · intro h
      exact absurd h.1 henc

/-- A header in the supported shape that has all it announces: the version, a
pointer of known size, a count that can be decoded, and behind it at the given
offset the table with that many entries. -/
inductive Complete (hdr : Slice) : Nat → UInt64 → Prop where
  | mk {ehFramePtrEnc fdeCountEnc : UInt8} {rest : List UInt8} {size countLen : Nat}
    {fdeCount : UInt64}
    (fixed : hdr.data = 1 :: ehFramePtrEnc :: fdeCountEnc ::
      (DW_EH_PE_DATAREL ||| DW_EH_PE_SDATA4) :: rest)
    (pointer : encSize ehFramePtrEnc = some size)
    (count : readUnsigned (rest.drop size) fdeCountEnc = some (fdeCount, countLen))
    (table : 4 + size + countLen + 8 * fdeCount.toNat ≤ hdr.len) :
    Complete hdr (4 + size + countLen) fdeCount

theorem parse_complete (h : parse hdr avma = .ok t) :
    ∃ off, Complete hdr off t.entryCount ∧ t = ⟨UInt64.ofNat off, t.entryCount, avma⟩ := by
  unfold parse at h
  split at h
  · next version ehFramePtrEnc fdeCountEnc tableEnc rest hdata =>
    split at h
    · cases h
    · next hversion =>
      split at h
      · cases h
      · next size hsize =>
        split at h
        · cases h
        · next hlen =>
          unfold parseCount at h
          split at h
          · next fdeCount countLen hread =>
            have hcursor : 4 + size + countLen ≤ hdr.len := by
              have hcount := (readUnsigned_size hread).2
              rw [List.length_drop] at hcount
              have hl : hdr.len = hdr.data.length := rfl
              omega
            obtain ⟨rfl, htable, rfl⟩ := (parseTable_eq_ok hcursor).mp h
            obtain rfl := not_not.mp hversion
            rw [hdata, ← List.drop_drop] at hread
            exact ⟨_, .mk hdata hsize hread htable, rfl⟩
          · split at h <;> cases h
  · cases h

theorem Complete.parse {off : Nat} {fdeCount : UInt64} (h : Complete hdr off fdeCount)
    (avma : UInt64) : EhFrameTable.parse hdr avma = .ok ⟨UInt64.ofNat off, fdeCount, avma⟩ := by
  obtain @⟨ehFramePtrEnc, fdeCountEnc, rest, size, countLen, _, fixed, pointer, count, table⟩ := h
  have hread : readUnsigned (hdr.data.drop (4 + size)) fdeCountEnc = some (fdeCount, countLen) := by
    rw [fixed, ← List.drop_drop]
    exact count
  unfold EhFrameTable.parse
  rw [fixed]
  dsimp only
  rw [if_neg (not_not.mpr rfl), pointer]
  dsimp only
  rw [if_neg (by omega), parseCount, hread]
  exact (parseTable_eq_ok (by omega)).mpr ⟨rfl, table, rfl⟩

/-- An accepted table lies in its section. -/
theorem parse_fits (h : parse hdr avma = .ok t) :
    t.tableDataOffset.toNat + t.count * 8 ≤ hdr.len := by
  obtain ⟨off, hc, ht⟩ := parse_complete h
  have hfit : off + 8 * t.entryCount.toNat ≤ hdr.len := by
    obtain ⟨-, -, -, htable⟩ := hc
    exact htable
  have hb := hdr.bound
  have hl : hdr.len = hdr.data.length := rfl
  have hoff : t.tableDataOffset.toNat = off := by
    rw [ht]
    simp only [UInt64.toNat_ofNat']
    omega
  rw [hoff, count]
  omega

/-- The bytes of the table. -/
def entries (t : EhFrameTable) (hdr : Slice) : List UInt8 :=
  (hdr.data.drop t.tableDataOffset.toNat).take (t.count * 8)

theorem lookup_empty {ε : Type} (h : t.count = 0) : (t.lookup hdr ip : Res ε _) = .ok none := by
  have hzero : t.entryCount = 0 := UInt64.toNat.inj h
  exact if_pos hzero

section Table

variable {ε : Type} (hfit : t.tableDataOffset.toNat + t.count * 8 ≤ hdr.len)

include hfit

theorem get?_entries :
    hdr.get? t.tableDataOffset.toNat (t.tableDataOffset.toNat + t.count * 8) =
      some (t.entries hdr) := by
  unfold Slice.get?
  rw [if_pos ⟨by omega, hfit⟩, Nat.add_sub_cancel_left]
  rfl

theorem entryWord_eq {off : Nat} (h : off + 4 ≤ t.count * 8) :
    (entryWord (t.entries hdr) t.ehFrameHdrAvma off : Res ε UInt64) =
      .ok (t.ehFrameHdrAvma + signExtend32
        ((hdr.data.drop (t.tableDataOffset.toNat + off)).take 4)) := by
  have hl : hdr.len = hdr.data.length := rfl
  have hlen : (t.entries hdr).length = t.count * 8 := by
    rw [entries, List.length_take, List.length_drop]
    omega
  have hword : ((t.entries hdr).drop off).take 4 =
      (hdr.data.drop (t.tableDataOffset.toNat + off)).take 4 := by
    rw [entries, List.drop_take, List.take_take, List.drop_drop, Nat.min_eq_left (by omega)]
  rw [entryWord, if_pos (by omega), hword]

theorem entryPc_eq {i : Nat} (h : i < t.count) :
    (entryPc (t.entries hdr) t.ehFrameHdrAvma i : Res ε UInt64) = .ok (t.pcAt hdr i) :=
  entryWord_eq hfit (by omega)

theorem entryFde_eq {i : Nat} (h : i < t.count) :
    (entryFde (t.entries hdr) t.ehFrameHdrAvma i : Res ε UInt64) = .ok (t.fdeAt hdr i) := by
  unfold entryFde fdeAt
  rw [Nat.add_assoc]
  exact entryWord_eq hfit (by omega)

/-- The loop of the source is the search for the last entry not above the address. -/
theorem searchLoop_eq {lo hi : Nat} (hhi : hi ≤ t.count) :
    (searchLoop (t.entries hdr) t.ehFrameHdrAvma ip lo hi : Res ε Nat) =
      .ok (lastIndex (fun i => t.pcAt hdr i ≤ ip) lo hi) := by
  fun_induction lastIndex (fun i => decide (t.pcAt hdr i ≤ ip)) lo hi with
  | case1 lo hi h mid hmid ih =>
    rw [searchLoop, dif_pos h]
    change (entryPc _ _ mid).bind _ = _
    rw [entryPc_eq hfit (show mid < t.count by omega)]
    change (if _ ≤ ip then _ else _) = _
    rw [if_pos (of_decide_eq_true hmid)]
    exact ih hhi
  | case2 lo hi h mid hmid ih =>
    rw [searchLoop, dif_pos h]
    change (entryPc _ _ mid).bind _ = _
    rw [entryPc_eq hfit (show mid < t.count by omega)]
    change (if _ ≤ ip then _ else _) = _
    rw [if_neg (fun hle => hmid (decide_eq_true hle))]
    exact ih (by omega)
  | case3 lo hi h => rw [searchLoop, dif_neg h]

/-- The entry a lookup selects, if the table has one not above the address. -/
theorem lookup_eq (hpos : 0 < t.count) :
    (t.lookup hdr ip : Res ε _) =
      let lo := lastIndex (fun i => t.pcAt hdr i ≤ ip) 0 t.count
      .ok (if ip < t.pcAt hdr lo then none else some (t.pcAt hdr lo, t.fdeAt hdr lo)) := by
  have hb := hdr.bound
  have hl : hdr.len = hdr.data.length := rfl
  have hne : t.entryCount ≠ 0 := by
    intro h
    simp [count, h] at hpos
  have hmul : (usizeMul t.entryCount.toNat 8 : Res ε Nat) = .ok (t.count * 8) :=
    if_pos (by unfold count at hfit; omega)
  have hadd : (usizeAdd t.tableDataOffset.toNat (t.count * 8) : Res ε Nat) =
      .ok (t.tableDataOffset.toNat + t.count * 8) := usizeAdd_of_lt (by omega)
  have hlo := lastIndex_lt (fun i => decide (t.pcAt hdr i ≤ ip)) hpos
  unfold lookup
  rw [if_neg hne]
  simp only [hmul, hadd, Res.ok_bind, get?_entries hfit]
  rw [show t.entryCount.toNat = t.count from rfl, searchLoop_eq hfit (Nat.le_refl _), Res.ok_bind,
    entryPc_eq hfit hlo, Res.ok_bind]
  split
  · rfl
  · rw [entryFde_eq hfit hlo]
    rfl

/-- A lookup ends, with nothing or with an entry not above the address. -/
theorem lookup_cases (ip : UInt64) :
    ∃ r, (t.lookup hdr ip : Res ε _) = .ok r ∧ ∀ pc fde, r = some (pc, fde) →
      ∃ i < t.count, pc = t.pcAt hdr i ∧ fde = t.fdeAt hdr i ∧ pc ≤ ip := by
  by_cases hpos : 0 < t.count
  · refine ⟨_, lookup_eq hfit hpos, ?_⟩
    intro pc fde h
    have hlo := lastIndex_lt (fun i => decide (t.pcAt hdr i ≤ ip)) hpos
    split at h
    · cases h
    · next hge =>
      obtain ⟨rfl, rfl⟩ := Prod.mk.inj (Option.some.inj h)
      exact ⟨_, hlo, rfl, rfl, not_lt.mp hge⟩
  · refine ⟨none, lookup_empty (Nat.eq_zero_of_not_pos hpos), ?_⟩
    intro pc fde h
    cases h

theorem lookup_listed {pc fde : UInt64} (h : (t.lookup hdr ip : Res ε _) = .ok (some (pc, fde))) :
    ∃ i < t.count, pc = t.pcAt hdr i ∧ fde = t.fdeAt hdr i ∧ pc ≤ ip := by
  obtain ⟨r, hr, hlisted⟩ := lookup_cases (ε := ε) hfit ip
  exact hlisted pc fde (Res.ok.inj (hr.symm.trans h))

end Table

end EhFrameTable

theorem cieOffsetOf_le {name : String} {ehFrame : Slice} {fdeOffset cieOffset : Nat}
    (h : cieOffsetOf name ehFrame fdeOffset = .ok cieOffset) : cieOffset ≤ ehFrame.len := by
  unfold cieOffsetOf at h
  obtain ⟨prefixEnd, -, h⟩ := Res.bind_eq_ok.mp h
  obtain ⟨lenPrefix, -, h⟩ := Res.bind_eq_ok.mp h
  obtain ⟨⟨ciePtrPos, ciePtrLen⟩, -, h⟩ := Res.bind_eq_ok.mp h
  obtain ⟨ciePtrEnd, -, h⟩ := Res.bind_eq_ok.mp h
  obtain ⟨ciePtrBytes, hget, h⟩ := Res.bind_eq_ok.mp h
  have hpos : ciePtrPos ≤ ehFrame.len := by
    unfold Slice.get? at hget
    split at hget
    · next hin => exact Nat.le_trans hin.1 hin.2
    · cases hget
  dsimp only at h
  split at h
  · obtain rfl := Res.ok.inj h
    omega
  · cases h

/-- How an FDE of a module is read behind its CIE. -/
def fdeConfig (m : ModuleData) (cie : ParsedCie) : FdeParseConfig where
  fdeEncoding := cie.fdeEncoding
  lsdaEncoding := cie.lsdaEncoding
  hasZ := cie.hasZ
  textBase := m.textBase
  dataBase := m.dataBase

theorem parseEntries_cases {m : ModuleData} {ehFrame : Slice} {fdeOffset : Nat} {cie : ParsedCie}
    {fde : ParsedFde} (h : parseEntries m ehFrame fdeOffset = .ok (cie, fde)) :
    ∃ cieOffset, cieOffsetOf m.name ehFrame fdeOffset = .ok cieOffset ∧
      parseCie ehFrame cieOffset m.ehFrameAvma = .ok cie ∧
      parseFde ehFrame fdeOffset m.ehFrameAvma (fdeConfig m cie) = .ok fde := by
  unfold parseEntries at h
  obtain ⟨cieOffset, hoff, h⟩ := Res.bind_eq_ok.mp h
  obtain ⟨cie', hcie, h⟩ := Res.bind_eq_ok.mp h
  obtain ⟨fde', hfde, h⟩ := Res.bind_eq_ok.mp h
  obtain ⟨rfl, rfl⟩ := Prod.mk.inj (Res.ok.inj h)
  exact ⟨cieOffset, hoff, Res.mapErr_eq_ok.mp hcie, Res.mapErr_eq_ok.mp hfde⟩

/-- The FDE that the table gives for an address: where it stands, and what is
parsed there. -/
structure FdeFound (m : ModuleData) (ip : UInt64) (ehFrame : Slice) (fdeOffset : Nat)
    (cie : ParsedCie) (fde : ParsedFde) : Prop where
  frame : ∃ ptr, m.ehFrameLocal = some ⟨ptr, ehFrame⟩
  hit : ∃ hdr pc fdeAvma, m.ehFrameHdrLocal = some hdr ∧
    (m.table.lookup hdr.bytes ip : Res UnwindInfoError _) = .ok (some (pc, fdeAvma)) ∧
    fdeOffsetOf m ehFrame fdeAvma = .ok fdeOffset
  parsed : parseEntries m ehFrame fdeOffset = .ok (cie, fde)

/-- At most one FDE is found for an address. -/
theorem FdeFound.unique {m : ModuleData} {ip : UInt64} {s s' : Slice} {off off' : Nat}
    {cie cie' : ParsedCie} {fde fde' : ParsedFde} (h : FdeFound m ip s off cie fde)
    (h' : FdeFound m ip s' off' cie' fde') : s = s' ∧ off = off' ∧ cie = cie' ∧ fde = fde' := by
  obtain ⟨⟨ptr, hf⟩, ⟨hdr, pc, fdeAvma, hh, hl, ho⟩, hp⟩ := h
  obtain ⟨⟨ptr', hf'⟩, ⟨hdr', pc', fdeAvma', hh', hl', ho'⟩, hp'⟩ := h'
  rw [hf, Option.some.injEq, Buffer.mk.injEq] at hf'
  obtain ⟨-, rfl⟩ := hf'
  rw [hh, Option.some.injEq] at hh'
  subst hh'
  rw [hl, Res.ok.injEq, Option.some.injEq, Prod.mk.injEq] at hl'
  obtain ⟨-, rfl⟩ := hl'
  rw [ho, Res.ok.injEq] at ho'
  subst ho'
  rw [hp, Res.ok.injEq, Prod.mk.injEq] at hp'
  exact ⟨rfl, rfl, hp'⟩

/-- What a lookup returns was found and covers the address. -/
theorem parseFunctionDetails_found {m : ModuleData} {ip : UInt64} {d : FunctionDetails}
    (h : parseFunctionDetails m ip = .ok d) : ∃ ehFrame fdeOffset cie fde,
      FdeFound m ip ehFrame fdeOffset cie fde ∧ coveringDetails m ip cie fde = .ok d := by
  unfold parseFunctionDetails at h
  split at h
  · next ehFrame hdr hframe hhdr =>
    obtain ⟨hit, hlook, h⟩ := Res.bind_eq_ok.mp h
    obtain ⟨⟨pc, fdeAvma⟩, hhit, h⟩ := Res.bind_eq_ok.mp h
    obtain ⟨⟨cie, fde⟩, hat, hcov⟩ := Res.bind_eq_ok.mp h
    obtain ⟨fdeOffset, hoff, hentries⟩ := Res.bind_eq_ok.mp hat
    cases hit with
    | none => cases hhit
    | some hit =>
      obtain rfl := Res.ok.inj hhit
      exact ⟨ehFrame.bytes, fdeOffset, cie, fde,
        ⟨⟨ehFrame.ptr, hframe⟩, ⟨hdr, pc, fdeAvma, hhdr, hlook, hoff⟩, hentries⟩, hcov⟩
  · cases h

/-- Caches as earlier calls can have left them, in whatever order they ran: a
call stores what it has parsed under its start. -/
inductive CacheHistory (m : ModuleData) : FunctionCache → Prop
  | fresh : CacheHistory m .new
  | stored {cache : FunctionCache} {ip : UInt64} {d : FunctionDetails} (h : CacheHistory m cache)
      (hd : parseFunctionDetails m ip = .ok d) :
      CacheHistory m { cache with entries := cache.entries.insert d.startIp d }

namespace CacheHistory

variable {m : ModuleData} {cache : FunctionCache} {ip : UInt64} {d : FunctionDetails}

theorem request (h : CacheHistory m cache) (ip : UInt64) :
    CacheHistory m (getOrParseFunctionDetails m ip cache).2 := by
  unfold getOrParseFunctionDetails
  split
  · exact h
  · split
    · exact h
    · split
      · next d hd => exact h.stored hd
      · exact h
      · exact h

theorem unpoisoned (h : CacheHistory m cache) : cache.poisoned = false := by
  induction h with
  | fresh => rfl
  | stored h hd ih => exact ih

theorem parsed (h : CacheHistory m cache) {k : UInt64} (hk : cache.entries.get? k = some d) :
    k = d.startIp ∧ ∃ ip, parseFunctionDetails m ip = .ok d := by
  induction h with
  | fresh => cases hk
  | stored h hd ih =>
    rw [OrderedMap.get?_insert] at hk
    split at hk
    · next he =>
      obtain rfl := Option.some.inj hk
      exact ⟨he, _, hd⟩
    · exact ih hk

/-- Whatever a call returns has been parsed, by it or by an earlier one. -/
theorem returned (h : CacheHistory m cache)
    (hd : (getOrParseFunctionDetails m ip cache).1 = .ok d) :
    ∃ jp, parseFunctionDetails m jp = .ok d := by
  unfold getOrParseFunctionDetails at hd
  split at hd
  · cases hd
  · split at hd
    · next e he =>
      obtain rfl := Res.ok.inj hd
      unfold cachedDetails at he
      split at he
      · next k e' hl =>
        split at he
        · obtain rfl := Option.some.inj he
          exact (h.parsed (OrderedMap.lastLE_eq_some.mp hl).1).2
        · cases he
      · cases he
    · split at hd
      · next e he =>
        obtain rfl := Res.ok.inj hd
        exact ⟨ip, he⟩
      · cases hd
      · cases hd

end CacheHistory

/-- The address lies in the range of the FDE. -/
def Dwarf.ParsedFde.Covers (fde : ParsedFde) (ip : UInt64) : Prop :=
  fde.initialPc ≤ ip ∧ ip.toNat < fde.initialPc.toNat + fde.addressRange.toNat

/-- A module whose table lists the given CIE/FDE pairs: all of them parse, in
increasing and disjoint ranges that start where the table says. -/
structure WellFormed (m : ModuleData) (hdr ehFrame : Buffer) (cie : Nat → ParsedCie)
    (fde : Nat → ParsedFde) : Prop where
  hdrLocal : m.ehFrameHdrLocal = some hdr
  ehFrameLocal : m.ehFrameLocal = some ehFrame
  accepted : EhFrameTable.parse hdr.bytes m.table.ehFrameHdrAvma = .ok m.table
  increasing : ∀ i j, i < j → j < m.table.count →
    m.table.pcAt hdr.bytes i < m.table.pcAt hdr.bytes j
  parses : ∀ i < m.table.count,
    parseFdeAt m ehFrame.bytes (m.table.fdeAt hdr.bytes i) = .ok (cie i, fde i)
  startsAt : ∀ i < m.table.count, (fde i).initialPc = m.table.pcAt hdr.bytes i
  nonempty : ∀ i < m.table.count, 0 < (fde i).addressRange.toNat
  noWrap : ∀ i < m.table.count,
    (fde i).initialPc.toNat + (fde i).addressRange.toNat < 2 ^ 64
  disjoint : ∀ i < m.table.count, ∀ j < m.table.count, i ≠ j →
    ∀ ip, ¬ ((fde i).Covers ip ∧ (fde j).Covers ip)

/-- The details describe exactly this FDE and its CIE. -/
structure Describes (m : ModuleData) (cie : ParsedCie) (fde : ParsedFde) (d : FunctionDetails) :
    Prop where
  startIp : d.startIp = fde.initialPc
  endIp : d.endIp.toNat = fde.initialPc.toNat + fde.addressRange.toNat
  lsda : d.lsda = fde.lsda
  handler : d.handler = cie.personality ∧ d.cieInfo.handler = cie.personality
  signalFrame : d.signalFrame = cie.signalFrame
  cieInstrs : d.cieInfo.cieInstrStart = m.ehFrameAvma + UInt64.ofNat cie.cieInstrOffsetInEhFrame ∧
    d.cieInfo.cieInstrEnd =
      m.ehFrameAvma + UInt64.ofNat (cie.cieInstrOffsetInEhFrame + cie.cieInstrLen)
  fdeInstrs : d.cieInfo.fdeInstrStart = m.ehFrameAvma + UInt64.ofNat fde.fdeInstrOffsetInEhFrame ∧
    d.cieInfo.fdeInstrEnd =
      m.ehFrameAvma + UInt64.ofNat (fde.fdeInstrOffsetInEhFrame + fde.fdeInstrLen)

namespace WellFormed

variable {m : ModuleData} {hdr ehFrame : Buffer} {cie : Nat → ParsedCie} {fde : Nat → ParsedFde}
  {ip : UInt64} {i : Nat}

/-- The details that the code builds for a listed FDE. -/
def details (m : ModuleData) (cie : ParsedCie) (fde : ParsedFde) : FunctionDetails :=
  functionDetails m cie fde (fde.initialPc + fde.addressRange)

theorem endIp_toNat (w : WellFormed m hdr ehFrame cie fde) (hi : i < m.table.count) :
    (details m (cie i) (fde i)).endIp.toNat =
      (fde i).initialPc.toNat + (fde i).addressRange.toNat := by
  change ((fde i).initialPc + (fde i).addressRange).toNat = _
  rw [UInt64.toNat_add, Nat.mod_eq_of_lt (w.noWrap i hi)]

theorem describes (w : WellFormed m hdr ehFrame cie fde) (hi : i < m.table.count) :
    Describes m (cie i) (fde i) (details m (cie i) (fde i)) where
  startIp := rfl
  endIp := w.endIp_toNat hi
  lsda := rfl
  handler := ⟨rfl, rfl⟩
  signalFrame := rfl
  cieInstrs := ⟨rfl, by rw [UInt64.ofNat_add, ← UInt64.add_assoc]; rfl⟩
  fdeInstrs := ⟨rfl, by rw [UInt64.ofNat_add, ← UInt64.add_assoc]; rfl⟩

theorem downClosed (w : WellFormed m hdr ehFrame cie fde) (ip : UInt64) :
    DownClosed (fun i => m.table.pcAt hdr.bytes i ≤ ip) m.table.count := by
  intro i j hij hj hp
  rcases Nat.lt_or_eq_of_le hij with hlt | rfl
  · exact decide_eq_true (le_trans (le_of_lt (w.increasing i j hlt hj)) (of_decide_eq_true hp))
  · exact hp

/-- After the lookup selected a listed FDE, its range decides. -/
theorem coveringDetails_listed (w : WellFormed m hdr ehFrame cie fde) (hi : i < m.table.count) :
    coveringDetails m ip (cie i) (fde i) =
      if (fde i).initialPc ≤ ip ∧ ip.toNat < (fde i).initialPc.toNat + (fde i).addressRange.toNat
      then .ok (details m (cie i) (fde i)) else .err (.ehFrameHeaderLookupMiss m.name ip) := by
  have hend := w.endIp_toNat hi
  have hadd : checkedAdd64 (fde i).initialPc (fde i).addressRange =
      some (details m (cie i) (fde i)).endIp := checkedAdd64_eq_some.mpr hend
  unfold coveringDetails
  rw [hadd]
  simp only [UInt64.lt_iff_toNat_lt, UInt64.le_iff_toNat_le, hend]
  split_ifs with h1 h2 h2
  · omega
  · rfl
  · rfl
  · omega

/-- The lookup selects the last listed FDE not above the address. -/
theorem parse_selected (w : WellFormed m hdr ehFrame cie fde) (hpos : 0 < m.table.count) :
    let lo := lastIndex (fun i => m.table.pcAt hdr.bytes i ≤ ip) 0 m.table.count
    parseFunctionDetails m ip = if ip < m.table.pcAt hdr.bytes lo
      then .err (.ehFrameHeaderLookupMiss m.name ip) else coveringDetails m ip (cie lo) (fde lo) := by
  intro lo
  have hlo : lo < m.table.count := lastIndex_lt _ hpos
  have hlook : (m.table.lookup hdr.bytes ip : Res UnwindInfoError _) = _ :=
    EhFrameTable.lookup_eq (EhFrameTable.parse_fits w.accepted) hpos
  unfold parseFunctionDetails
  rw [w.ehFrameLocal, w.hdrLocal]
  simp only [hlook, Res.ok_bind]
  by_cases hlt : ip < m.table.pcAt hdr.bytes lo
  · rw [if_pos hlt, if_pos hlt]
    rfl
  · rw [if_neg hlt, if_neg hlt, Res.ofOption_some, Res.ok_bind]
    change (parseFdeAt m ehFrame.bytes (m.table.fdeAt hdr.bytes lo)).bind _ = _
    rw [w.parses lo hlo]
    rfl

theorem parse_covered (w : WellFormed m hdr ehFrame cie fde) (hi : i < m.table.count)
    (hc : (fde i).Covers ip) : parseFunctionDetails m ip = .ok (details m (cie i) (fde i)) := by
  have hpos : 0 < m.table.count := by omega
  rw [w.parse_selected hpos]
  obtain ⟨hfirst, hrest⟩ := lastIndex_spec (w.downClosed ip) hpos (Nat.le_refl _)
  have hlo := lastIndex_lt (fun i => decide (m.table.pcAt hdr.bytes i ≤ ip)) hpos
  generalize lastIndex (fun i => decide (m.table.pcAt hdr.bytes i ≤ ip)) 0 m.table.count = lo at *
  have hpi : m.table.pcAt hdr.bytes i ≤ ip := by
    rw [← w.startsAt i hi]
    exact hc.1
  have hplo := of_decide_eq_true (hfirst (w.downClosed ip 0 i (Nat.zero_le i) hi (decide_eq_true hpi)))
  rw [if_neg (not_lt.mpr hplo)]
  have hle : i ≤ lo := by
    by_contra hgt
    have := hrest i (by omega) hi
    simp only [hpi, decide_true] at this
    cases this
  -- an earlier FDE that reaches the address would also cover the selected start
  have heq : i = lo := by
    by_contra hne
    have hlt := w.increasing i lo (by omega) hlo
    have hself : (fde lo).Covers (m.table.pcAt hdr.bytes lo) := by
      rw [← w.startsAt lo hlo]
      exact ⟨le_refl _, by have := w.nonempty lo hlo; omega⟩
    have hother : (fde i).Covers (m.table.pcAt hdr.bytes lo) := by
      refine ⟨by rw [w.startsAt i hi]; exact le_of_lt hlt, ?_⟩
      exact Nat.lt_of_le_of_lt (UInt64.le_iff_toNat_le.mp hplo) hc.2
    exact w.disjoint i hi lo hlo hne _ ⟨hother, hself⟩
  subst heq
  rw [w.coveringDetails_listed hi]
  exact if_pos hc

theorem parse_uncovered (w : WellFormed m hdr ehFrame cie fde)
    (hc : ∀ i < m.table.count, ¬ (fde i).Covers ip) :
    parseFunctionDetails m ip = .err (.ehFrameHeaderLookupMiss m.name ip) := by
  by_cases hpos : 0 < m.table.count
  · rw [w.parse_selected hpos]
    have hlo := lastIndex_lt (fun i => decide (m.table.pcAt hdr.bytes i ≤ ip)) hpos
    split
    · rfl
    · rw [w.coveringDetails_listed hlo]
      exact if_neg (hc _ hlo)
  · have hzero : m.table.entryCount = 0 := UInt64.toNat.inj (Nat.eq_zero_of_not_pos hpos)
    unfold parseFunctionDetails EhFrameTable.lookup
    rw [w.ehFrameLocal, w.hdrLocal]
    simp only [hzero, if_true, Res.ok_bind]
    rfl

/-- Looking a function up is sound and complete: an address in a listed range
gives the details of that FDE, and any other address a miss. -/
theorem parseFunctionDetails_spec (w : WellFormed m hdr ehFrame cie fde) (ip : UInt64) :
    (∀ i < m.table.count, (fde i).Covers ip →
      ∃ d, parseFunctionDetails m ip = .ok d ∧ Describes m (cie i) (fde i) d) ∧
    ((∀ i < m.table.count, ¬ (fde i).Covers ip) →
      parseFunctionDetails m ip = .err (.ehFrameHeaderLookupMiss m.name ip)) :=
  ⟨fun _ hi hc => ⟨_, w.parse_covered hi hc, w.describes hi⟩, w.parse_uncovered⟩

end WellFormed

/-- A module with the functions `0x1000..0x1010` and `0x1100..0x1120`. Both keep
their return address on top of the stack: the CIE sets the CFA to `rsp` + 8 and
saves `rip` at CFA - 8. -/
def twoFunctionParts : ModuleParts where
  name := "two-functions"
  avmaRange := ⟨0x1000, 0x2000⟩
  baseAvma := 0
  baseSvma := 0
  textSvma := some ⟨0x1000, 0x2000⟩
  ehFrameSvma := some ⟨0x3000, 0x3042⟩
  ehFrame := some ⟨0x7000, ⟨[14, 0, 0, 0, 0, 0, 0, 0, 1, 0, 1, 0x78, 16, 0x0c, 7, 8, 0x90, 1,
    20, 0, 0, 0, 22, 0, 0, 0, 0, 0x10, 0, 0, 0, 0, 0, 0, 0x10, 0, 0, 0, 0, 0, 0, 0,
    20, 0, 0, 0, 46, 0, 0, 0, 0, 0x11, 0, 0, 0, 0, 0, 0, 0x20, 0, 0, 0, 0, 0, 0, 0], by decide⟩⟩
  ehFrameHdrSvma := some ⟨0x4000, 0x401c⟩
  ehFrameHdr := some ⟨0x8000, ⟨[1, 0x03, 0x03, 0x3b, 0, 0x30, 0, 0, 2, 0, 0, 0,
    0x00, 0xd0, 0xff, 0xff, 0x12, 0xf0, 0xff, 0xff,
    0x00, 0xd1, 0xff, 0xff, 0x2a, 0xf0, 0xff, 0xff], by decide⟩⟩

def twoFunctions : ModuleData := .fromParts twoFunctionParts 0

def twoFunctionsCie : ParsedCie where
  codeAlign := 1
  dataAlign := -8
  retAddrColumn := 16
  fdeEncoding := DW_EH_PE_ABSPTR
  lsdaEncoding := DW_EH_PE_OMIT
  personality := 0
  hasZ := false
  signalFrame := false
  cieInstrOffsetInEhFrame := 13
  cieInstrLen := 5

def twoFunctionsFde : Nat → ParsedFde
  | 0 => ⟨0x1000, 0x10, 42, 0, 0⟩
  | _ => ⟨0x1100, 0x20, 66, 0, 0⟩

theorem twoFunctions_wellFormed : WellFormed twoFunctions
    ⟨0x8000, ⟨[1, 0x03, 0x03, 0x3b, 0, 0x30, 0, 0, 2, 0, 0, 0,
      0x00, 0xd0, 0xff, 0xff, 0x12, 0xf0, 0xff, 0xff,
      0x00, 0xd1, 0xff, 0xff, 0x2a, 0xf0, 0xff, 0xff], by decide⟩⟩
    ⟨0x7000, ⟨[14, 0, 0, 0, 0, 0, 0, 0, 1, 0, 1, 0x78, 16, 0x0c, 7, 8, 0x90, 1,
      20, 0, 0, 0, 22, 0, 0, 0, 0, 0x10, 0, 0, 0, 0, 0, 0, 0x10, 0, 0, 0, 0, 0, 0, 0,
      20, 0, 0, 0, 46, 0, 0, 0, 0, 0x11, 0, 0, 0, 0, 0, 0, 0x20, 0, 0, 0, 0, 0, 0, 0], by decide⟩⟩
    (fun _ => twoFunctionsCie) twoFunctionsFde := by
  have hcount : twoFunctions.table.count = 2 := by decide +kernel
  have hcase : ∀ i < twoFunctions.table.count, i = 0 ∨ i = 1 := by
    intro i hi
    omega
  refine ⟨rfl, rfl, by decide +kernel, ?_, ?_, ?_, ?_, ?_, ?_⟩
  · intro i j hij hj
    obtain ⟨rfl, rfl⟩ : i = 0 ∧ j = 1 := by omega
    decide +kernel
  · intro i hi
    rcases hcase i hi with rfl | rfl
    · decide +kernel
    · decide +kernel
  · intro i hi
    rcases hcase i hi with rfl | rfl
    · decide +kernel
    · decide +kernel
  · intro i hi
    rcases hcase i hi with rfl | rfl
    · decide
    · decide
  · intro i hi
    rcases hcase i hi with rfl | rfl
    · decide
    · decide
  · intro i hi j hj hne ip h
    obtain ⟨⟨h1, h2⟩, h3, h4⟩ := h
    rw [UInt64.le_iff_toNat_le] at h1 h3
    rcases hcase i hi with rfl | rfl <;> rcases hcase j hj with rfl | rfl <;>
      simp [twoFunctionsFde] at hne h1 h2 h3 h4 <;> omega

theorem twoFunctions_lookup : ∃ d, parseFunctionDetails twoFunctions 0x1108 = .ok d ∧
    Describes twoFunctions twoFunctionsCie (twoFunctionsFde 1) d :=
  (WellFormed.parseFunctionDetails_spec twoFunctions_wellFormed 0x1108).1 1 (by decide +kernel)
    ⟨by decide, by decide⟩

end Unwinder
