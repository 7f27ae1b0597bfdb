import Unwinder.Proofs.Confinement
import Unwinder.Proofs.Loops
import Unwinder.Proofs.Redirects
import Unwinder.Proofs.Transparency

namespace Unwinder
open Lib Dwarf

namespace Dwarf

/-- The augmentation string of the CIE at an offset: what stands behind the
length, the id and the version, up to the terminator. -/
def augmentationAt (s : Slice) (off : Nat) : List UInt8 :=
  let fields := if (s.data.drop off).take 4 = List.replicate 4 0xff then 21 else 9
  (s.data.drop (off + fields)).takeWhile (· ≠ 0)

theorem AugItem.applyAll_signalFrame {items : List AugItem} {avma : UInt64} {a b : Augmentation}
    (h : applyAll avma items a = some b) :
    b.signalFrame = (a.signalFrame || decide (0x53 ∈ items.map letter)) := by
  induction items generalizing avma a with
  | nil =>
    obtain rfl := Option.some.inj h
    simp
  | cons item rest ih =>
    obtain ⟨a', hitem, hrest⟩ := Option.bind_eq_some_iff.mp h
    rw [ih hrest]
    cases item with
    | personality enc operand =>
      obtain ⟨v, -, rfl⟩ := Option.map_eq_some_iff.mp hitem
      simp [letter]
    | signalFrame =>
      obtain rfl := Option.some.inj hitem
      simp [letter]
    | _ =>
      obtain rfl := Option.some.inj hitem
      simp [letter]

/-- The letters set the flag exactly if `S` is one of them. -/
theorem CieLayout.settings_signalFrame {l : CieLayout} {avma : UInt64} {a : Augmentation}
    (h : l.settings avma = some a) : a.signalFrame = decide (0x53 ∈ l.augString) := by
  unfold settings AugSpelling.settings at h
  unfold augString AugSpelling.string
  cases hl : l.augmentation with
  | none =>
    rw [hl] at h
    obtain rfl := Option.some.inj h
    simp [initialAugmentation]
  | some p =>
    rw [hl] at h
    rw [AugItem.applyAll_signalFrame h]
    simp [initialAugmentation]

theorem lengthField_marked {wide : Bool} {len : Nat} (h : LengthFits wide len) :
    (lengthField wide len).take 4 = List.replicate 4 0xff ↔ wide = true := by
  cases wide with
  | true =>
    have hmark : (lengthField true len).take 4 = List.replicate 4 0xff := rfl
    simp [hmark]
  | false =>
    refine ⟨fun he => ?_, fun he => by cases he⟩
    have hlen : (leBytes 4 len).length = 4 := leBytes_length 4 len
    have hle : leBytes 4 len = List.replicate 4 0xff := by
      rw [← he]
      exact (List.take_of_length_le (Nat.le_of_eq hlen)).symm
    have hval := congrArg leValue hle
    unfold LengthFits at h
    simp only [Bool.false_eq_true, if_false] at h
    rw [leValue_leBytes_of_lt (by omega)] at hval
    have hff : leValue (List.replicate 4 0xff) = 0xffffffff := rfl
    omega

/-- The string of a layout is the one found in its bytes. -/
theorem CieLayout.augmentationAt_eq {l : CieLayout} {s : Slice} {off : Nat} {avma : UInt64}
    (hw : l.WellFormed) (ha : Cursor.Ahead ⟨s, off, avma⟩ l.bytes) :
    augmentationAt s off = l.augString := by
  obtain ⟨tl, hrest⟩ : ∃ tl, s.data.drop off = l.bytes ++ tl := ⟨_, ha.rest⟩
  have hmark : (s.data.drop off).take 4 = (lengthField l.wide l.len).take 4 := by
    rw [hrest, bytes, front, List.append_assoc, List.append_assoc, List.take_append_of_le_length]
    unfold lengthField
    split
    · simp
    · simp
  unfold augmentationAt
  dsimp only
  rw [hmark, ← List.drop_drop, hrest]
  have hfields : (if (lengthField l.wide l.len).take 4 = List.replicate 4 0xff then 21 else 9) =
      (lengthField l.wide l.len ++ (idField l.wide 0 ++ [l.version])).length := by
    by_cases hwide : l.wide = true
    · rw [if_pos ((lengthField_marked hw.length).mpr hwide), hwide]
      simp [lengthField, idField, idWidth]
    · rw [if_neg (fun he => hwide ((lengthField_marked hw.length).mp he)),
        Bool.eq_false_of_not_eq_true hwide]
      simp [lengthField, idField, idWidth]
  have hsplit : l.bytes ++ tl = (lengthField l.wide l.len ++ (idField l.wide 0 ++ [l.version])) ++
      (l.augString ++ 0 :: (l.addressSizes ++ (l.codeAlign ++ (l.dataAlign ++ l.retAddrColumn)) ++
        l.augData ++ tl)) := by
    simp [bytes, front]
  rw [hfields, hsplit, List.drop_left, List.takeWhile_append_of_pos, List.takeWhile_cons]
  · simp
  · intro b hb
    have hne : b ≠ 0 := fun he => l.zero_not_mem_augString (he ▸ hb)
    simpa using hne

/-- A parsed CIE is a signal frame exactly if its augmentation string has an `S`. -/
theorem parseCie_signalFrame {s : Slice} {off : Nat} {avma : UInt64} {cie : ParsedCie}
    (hoff : off ≤ s.len) (h : parseCie s off avma = .ok cie) :
    cie.signalFrame = true ↔ 0x53 ∈ augmentationAt s off := by
  unfold parseCie at h
  rcases hb : cieBody ⟨s, off, avma⟩ with ⟨r, c'⟩
  rw [hb] at h
  obtain rfl : r = .ok cie := h
  obtain ⟨hd, t, hh, hrest⟩ := StateRes.bind_eq_ok.mp hb
  obtain ⟨p, t', -, hret⟩ := StateRes.bind_eq_ok.mp hrest
  have hv : Cursor.Valid ⟨s, off, avma⟩ := hoff
  obtain ⟨l, hw, ha, -, -, a, hset, rfl⟩ := cieHeader_layout hv hh
  obtain ⟨hok, -⟩ := Prod.mk.inj hret
  obtain rfl := Res.ok.inj hok
  rw [l.augmentationAt_eq hw ha]
  change a.signalFrame = true ↔ _
  rw [CieLayout.settings_signalFrame hset, decide_eq_true_iff]

end Dwarf

/-- The table of the module lists an FDE around the address whose CIE has an `S`
in its augmentation string. -/
def ModuleData.ListsSignalFrame (m : ModuleData) (addr : UInt64) : Prop :=
  ∃ hdr ehFrame, m.ehFrameHdrLocal = some hdr ∧ m.ehFrameLocal = some ehFrame ∧
    ∃ i < m.table.count, ∃ fdeOffset cieOffset cie fde,
      fdeOffsetOf m ehFrame.bytes (m.table.fdeAt hdr.bytes i) = .ok fdeOffset ∧
      cieOffsetOf m.name ehFrame.bytes fdeOffset = .ok cieOffset ∧
      parseEntries m ehFrame.bytes fdeOffset = .ok (cie, fde) ∧
      fde.Covers addr ∧ 0x53 ∈ augmentationAt ehFrame.bytes cieOffset

/-- What `hasUnwindInfo` asks of the module it finds. -/
def ModuleData.isUnwindable (m : ModuleData) : Bool :=
  m.table.entryCount ≠ 0 && m.ehFrameHdrLocal.isSome && m.ehFrameLocal.isSome

section Module

variable {m : ModuleData} {hdr ehFrame : Buffer} {cie : Nat → ParsedCie} {fde : Nat → ParsedFde}
  {ip addr : UInt64} {d : FunctionDetails} {cache : FunctionCache} {i : Nat}

theorem parseEntries_signalFrame {s : Slice} {fdeOffset cieOffset : Nat} {c : ParsedCie}
    {f : ParsedFde} (hoff : cieOffsetOf m.name s fdeOffset = .ok cieOffset)
    (h : parseEntries m s fdeOffset = .ok (c, f)) :
    c.signalFrame = true ↔ 0x53 ∈ augmentationAt s cieOffset := by
  obtain ⟨cieOffset', hoff', hc, -⟩ := parseEntries_cases h
  rw [hoff] at hoff'
  obtain rfl := Res.ok.inj hoff'
  exact parseCie_signalFrame (cieOffsetOf_le hoff) hc

/-- What a table lists as a signal frame, a lookup finds to be one. -/
theorem WellFormed.listsSignalFrame_iff (w : WellFormed m hdr ehFrame cie fde) :
    m.ListsSignalFrame addr ↔ ∃ d, parseFunctionDetails m addr = .ok d ∧ d.signalFrame = true := by
  constructor
  · intro h
    obtain ⟨hdr', ehFrame', hh, he, i, hi, fdeOffset, cieOffset, c, f, hf, hc, hp, hcov, hs⟩ := h
    rw [w.hdrLocal] at hh
    rw [w.ehFrameLocal] at he
    obtain rfl := Option.some.inj hh
    obtain rfl := Option.some.inj he
    have hat := w.parses i hi
    unfold parseFdeAt at hat
    rw [hf, Res.ok_bind, hp] at hat
    obtain ⟨rfl, rfl⟩ := Prod.mk.inj (Res.ok.inj hat)
    exact ⟨_, w.parse_covered hi hcov, (parseEntries_signalFrame hc hp).mpr hs⟩
  · intro h
    obtain ⟨d, hd, hs⟩ := h
    obtain ⟨i, hi, hcov, rfl⟩ := Sharing.parse_ok_listed w hd
    have hat := w.parses i hi
    obtain ⟨fdeOffset, hf, hp⟩ := Res.bind_eq_ok.mp hat
    obtain ⟨cieOffset, hc, -⟩ := parseEntries_cases hp
    exact ⟨hdr, ehFrame, w.hdrLocal, w.ehFrameLocal, i, hi, fdeOffset, cieOffset, cie i, fde i, hf,
      hc, hp, hcov, (parseEntries_signalFrame hc hp).mp hs⟩

namespace CacheHistory

/-- A hit in the cache is what a parse would return. -/
theorem hit (w : WellFormed m hdr ehFrame cie fde) (h : CacheHistory m cache)
    (hd : cachedDetails cache.entries ip = some d) : parseFunctionDetails m ip = .ok d := by
  unfold cachedDetails at hd
  split at hd
  · next k e hl =>
    split at hd
    · next hlt =>
      obtain rfl := Option.some.inj hd
      obtain ⟨hg, hle, -⟩ := OrderedMap.lastLE_eq_some.mp hl
      obtain ⟨rfl, jp, hparse⟩ := h.parsed hg
      obtain ⟨i, hi, -, rfl⟩ := Sharing.parse_ok_listed w hparse
      have hcov : (fde i).Covers ip := by
        refine ⟨hle, ?_⟩
        rw [← w.endIp_toNat hi]
        exact UInt64.lt_iff_toNat_lt.mp hlt
      exact w.parse_covered hi hcov
    · cases hd
  · cases hd

/-- A stored function is found at every address of it: the nearest entry at or
below one is its own, since any other would lie inside its range. -/
theorem found (w : WellFormed m hdr ehFrame cie fde) (h : CacheHistory m cache)
    (hi : i < m.table.count) (hc : (fde i).Covers ip)
    (hin : cache.entries.get? (fde i).initialPc = some (WellFormed.details m (cie i) (fde i))) :
    cachedDetails cache.entries ip = some (WellFormed.details m (cie i) (fde i)) := by
  have hend := w.endIp_toNat hi
  unfold cachedDetails
  cases hl : cache.entries.lastLE ip with
  | none =>
    have hlt := OrderedMap.lastLE_eq_none.mp hl _ (by rw [hin]; rfl)
    exact absurd hc.1 (not_le.mpr hlt)
  | some p =>
    obtain ⟨k, e⟩ := p
    obtain ⟨hg, hle, hmax⟩ := OrderedMap.lastLE_eq_some.mp hl
    obtain ⟨hk, jp, hparse⟩ := h.parsed hg
    obtain ⟨j, hj, -, rfl⟩ := Sharing.parse_ok_listed w hparse
    have hstart : k = (fde j).initialPc := hk
    have hlow : (fde i).initialPc ≤ k := hmax _ (by rw [hin]; rfl) hc.1
    have hji : j = i := by
      by_contra hne
      refine w.disjoint j hj i hi hne k ⟨?_, hlow, ?_⟩
      · have hpos := w.nonempty j hj
        rw [hstart]
        exact ⟨le_refl _, by omega⟩
      · exact Nat.lt_of_le_of_lt (UInt64.le_iff_toNat_le.mp hle) hc.2
    subst hji
    have hlt : ip < (WellFormed.details m (cie j) (fde j)).endIp := by
      rw [UInt64.lt_iff_toNat_lt, hend]
      exact hc.2
    exact if_pos hlt

/-- Behind a request for an address, the cache answers it as a parse would. -/
theorem requested (w : WellFormed m hdr ehFrame cie fde) (h : CacheHistory m cache) :
    cachedDetails (getOrParseFunctionDetails m ip cache).2.entries ip = some d ↔
      parseFunctionDetails m ip = .ok d := by
  refine ⟨(h.request ip).hit w, fun hd => ?_⟩
  have hsound : ¬ cache.poisoned = true := by simp [h.unpoisoned]
  cases hc : cachedDetails cache.entries ip with
  | some e =>
    have hparse := h.hit w hc
    rw [hd] at hparse
    obtain rfl := Res.ok.inj hparse
    rw [getOrParseFunctionDetails, if_neg hsound, hc]
    exact hc
  | none =>
    have hnew : (getOrParseFunctionDetails m ip cache).2 =
        { cache with entries := cache.entries.insert d.startIp d } := by
      rw [getOrParseFunctionDetails, if_neg hsound, hc, hd]
    have hhist := h.request ip
    rw [hnew] at hhist ⊢
    obtain ⟨i, hi, hcov, rfl⟩ := Sharing.parse_ok_listed w hd
    exact hhist.found w hi hcov (OrderedMap.get?_insert_self ..)

end CacheHistory

theorem parse_not_unwindable (h : m.isUnwindable = false) : parseFunctionDetails m ip ≠ .ok d := by
  intro hd
  unfold parseFunctionDetails at hd
  split at hd
  · next b hb hframe hhdr =>
    have hzero : m.table.entryCount = 0 := by
      simpa [ModuleData.isUnwindable, hframe, hhdr] using h
    unfold EhFrameTable.lookup at hd
    rw [if_pos hzero] at hd
    cases hd
  · cases hd

/-- Where there is no unwind info, nothing was ever cached or listed. -/
theorem CacheHistory.notUnwindable (h : CacheHistory m cache) (hm : m.isUnwindable = false)
    (addr : UInt64) :
    cachedDetails cache.entries addr = none ∧ ¬ m.ListsSignalFrame addr := by
  constructor
  · unfold cachedDetails
    cases hl : cache.entries.lastLE addr with
    | none => rfl
    | some p =>
      obtain ⟨-, ip, hparse⟩ := h.parsed (OrderedMap.lastLE_eq_some.mp hl).1
      exact absurd hparse (parse_not_unwindable hm)
  · intro hl
    obtain ⟨hdr, ehFrame, hh, he, i, hi, -⟩ := hl
    have hzero : m.table.entryCount = 0 := by
      simpa [ModuleData.isUnwindable, hh, he] using hm
    unfold EhFrameTable.count at hi
    rw [hzero] at hi
    exact absurd hi (Nat.not_lt_zero i)

end Module

/-- Module ranges are non-empty and disjoint, every module has a cache of its own,
and every table that can be used is well formed. -/
structure ModuleSet.WellFormedModules (s : ModuleSet) : Prop where
  nonempty : ∀ start m, s.modules.get? start = some m → m.avmaRange.start < m.avmaRange.stop
  disjoint : ∀ start m start' m', s.modules.get? start = some m → s.modules.get? start' = some m' →
    start ≠ start' → ∀ addr, ¬ (m.Contains addr ∧ m'.Contains addr)
  ownCache : ∀ start m start' m', s.modules.get? start = some m → s.modules.get? start' = some m' →
    start ≠ start' → m.functionCache ≠ m'.functionCache
  tables : ∀ start m, s.modules.get? start = some m → m.isUnwindable = true →
    ∃ hdr ehFrame cie fde, WellFormed m hdr ehFrame cie fde

/-- The module around the address lists a signal frame there. -/
def ModuleSet.SignalFrameAt (s : ModuleSet) (addr : UInt64) : Prop :=
  ∃ start m, s.modules.get? start = some m ∧ m.Contains addr ∧ m.ListsSignalFrame addr

/-- The caches of all registered modules are as earlier calls can have left them. -/
def ModuleSet.Histories (s : ModuleSet) (caches : Caches) : Prop :=
  ∀ start m, s.modules.get? start = some m → CacheHistory m (caches m.functionCache)

namespace ModuleSet

variable {ops : List SetOp} {addr : UInt64} {m : ModuleData} {caches : Caches}

theorem WellFormedModules.found_iff (h : (after ops).WellFormedModules) :
    (after ops).findModule addr = some m ↔ (after ops).IsRegistered m ∧ m.Contains addr :=
  findModule_iff ⟨h.nonempty, h.disjoint⟩ (atStarts_after ops)

theorem signalFrameAt_iff (h : (after ops).WellFormedModules)
    (hf : (after ops).findModule addr = some m) :
    (after ops).SignalFrameAt addr ↔ m.ListsSignalFrame addr := by
  constructor
  · intro hs
    obtain ⟨start, m', hm', hin, hl⟩ := hs
    have hf' := h.found_iff.mpr ⟨⟨start, hm'⟩, hin⟩
    rw [hf] at hf'
    obtain rfl := Option.some.inj hf'
    exact hl
  · intro hl
    obtain ⟨⟨start, hm⟩, hin⟩ := h.found_iff.mp hf
    exact ⟨start, m, hm, hin, hl⟩

theorem isSignalFrame_of_found (hf : (after ops).findModule addr = some m)
    (hc : (caches m.functionCache).poisoned = false) :
    (after ops).isSignalFrame caches addr = true ↔
      ∃ d, cachedDetails (caches m.functionCache).entries addr = some d ∧ d.signalFrame = true := by
  unfold isSignalFrame cachedDetails
  simp only [hf, hc, Bool.false_eq_true, if_false]
  cases (caches m.functionCache).entries.lastLE addr with
  | none => simp
  | some p =>
    by_cases hlt : addr < p.2.endIp
    · simp [hlt]
    · simp [hlt]

/-- Behind a request for proc-info, and wherever there is none, the caches tell
signal frames as the CIEs do. -/
theorem isSignalFrame_iff (h : (after ops).WellFormedModules) (hh : (after ops).Histories caches)
    (hasked : (after ops).hasUnwindInfo addr = true →
      (procInfoAt (after ops) addr caches).2 = caches) :
    (after ops).isSignalFrame caches addr = true ↔ (after ops).SignalFrameAt addr := by
  cases hf : (after ops).findModule addr with
  | none =>
    have hno : (after ops).isSignalFrame caches addr = false := by simp [isSignalFrame, hf]
    rw [hno]
    refine ⟨fun he => absurd he (by decide), fun hs => ?_⟩
    obtain ⟨start, m, hm, hin, -⟩ := hs
    have hfound := h.found_iff.mpr ⟨⟨start, hm⟩, hin⟩
    rw [hf] at hfound
    cases hfound
  | some m =>
    obtain ⟨⟨start, hm⟩, -⟩ := h.found_iff.mp hf
    have hist := hh start m hm
    rw [isSignalFrame_of_found hf hist.unpoisoned, signalFrameAt_iff h hf]
    cases hu : m.isUnwindable with
    | false =>
      obtain ⟨hnone, hno⟩ := hist.notUnwindable hu addr
      simp [hnone, hno]
    | true =>
      obtain ⟨hdr, ehFrame, cie, fde, w⟩ := h.tables start m hm hu
      have hinfo : (after ops).hasUnwindInfo addr = true := by
        unfold hasUnwindInfo
        rw [hf]
        exact hu
      have hsame : (getOrParseFunctionDetails m addr (caches m.functionCache)).2 =
          caches m.functionCache := by
        have hcaches := congrFun (hasked hinfo) m.functionCache
        unfold procInfoAt at hcaches
        rw [hf] at hcaches
        simpa using hcaches
      rw [w.listsSignalFrame_iff]
      have hreq : ∀ d, cachedDetails (caches m.functionCache).entries addr = some d ↔ _ :=
        fun d => hsame ▸ hist.requested w
      simp only [hreq]

end ModuleSet

namespace Backend

variable {Regs Raw : Type} (B : Backend Regs Raw) (P : Process) (modules : ModuleSet)

/-- On the DWARF path, every step of libunwind that succeeds has asked for
proc-info, whatever the stack reader answers. -/
def AsksProcInfo : Prop :=
  ∀ lookupIp regs readStack w newIp extras ctx, OnDwarfPath modules lookupIp →
    B.nativeStep P modules lookupIp regs readStack w = some (.ok (.stepped newIp extras), ctx) →
      w.asked < ctx.world.asked

variable {B P} {ops : List SetOp} {frame : FrameAddress} {regs regs' : Regs} {readStack : Reader}
  {w w' : World}

theorem histories_procInfoAt (h : (ModuleSet.after ops).WellFormedModules) {caches : Caches}
    (hh : (ModuleSet.after ops).Histories caches) (addr : UInt64) :
    (ModuleSet.after ops).Histories (procInfoAt (ModuleSet.after ops) addr caches).2 := by
  intro start m hm
  unfold procInfoAt
  cases hf : (ModuleSet.after ops).findModule addr with
  | none => exact hh start m hm
  | some found =>
    obtain ⟨start', hm'⟩ := ModuleSet.findModule_registered hf
    dsimp only
    by_cases hs : start = start'
    · subst hs
      rw [hm] at hm'
      obtain rfl := Option.some.inj hm'
      rw [Function.update_self]
      exact (hh start m hm).request addr
    · rw [Function.update_of_ne (h.ownCache start m start' found hm hm' hs)]
      exact hh start m hm

theorem unwindFrame_histories (h : (ModuleSet.after ops).WellFormedModules)
    (hh : (ModuleSet.after ops).Histories w.caches) {r : Except Error (Option UInt64)}
    (hu : B.unwindFrame P (ModuleSet.after ops) readStack frame regs w = some (r, regs', w')) :
    (ModuleSet.after ops).Histories w'.caches := by
  rcases unwindFrame_asked hu with hsame | ⟨-, hasked⟩
  · rw [hsame]
    exact hh
  · rw [hasked]
    exact histories_procInfoAt h hh _

/-- Behind a step to a caller, the caches tell whether the frame it left is a
signal frame. -/
theorem unwindFrame_signalFrame (h : (ModuleSet.after ops).WellFormedModules)
    (hasks : B.AsksProcInfo P (ModuleSet.after ops))
    (hh : (ModuleSet.after ops).Histories w.caches) {ra : UInt64}
    (hu : B.unwindFrame P (ModuleSet.after ops) readStack frame regs w =
      some (.ok (some ra), regs', w')) :
    B.isSignalFrame (ModuleSet.after ops) w'.caches frame regs' = true ↔
      (ModuleSet.after ops).SignalFrameAt (B.lookupIp regs frame) := by
  have hlookup : B.lookupIp regs' frame = B.lookupIp regs frame := by
    unfold lookupIp
    rw [unwindFrame_strip hu]
  unfold isSignalFrame
  rw [hlookup]
  apply ModuleSet.isSignalFrame_iff h (unwindFrame_histories h hh hu)
  intro hinfo
  rcases unwindFrame_cases hu with ⟨err, -, he⟩ | ⟨hno, -⟩ | ⟨hp, r, ctx, hn, he⟩
  · cases he
  · rw [hinfo] at hno
    cases hno
  · obtain ⟨v, extras, rfl, -⟩ := finishStep_caller he.symm
    have hw : w' = ctx.world := by
      rw [← finishStep_world, ← he]
    rcases (nativeStep_since hn).caches with ⟨hsame, -⟩ | ⟨-, hc⟩
    · have hlt := hasks _ _ _ _ _ _ _ hp hn
      omega
    · rw [hw, hc]
      exact congrArg Prod.snd (procInfoAt_again _ _ _)

end Backend

namespace UnwindIterator

variable {Regs Raw : Type} (B : Backend Regs Raw) (P : Process) (modules : ModuleSet)

/-- The frame yielded behind another is an interrupted instruction if that one is
a signal frame, and a return address otherwise. -/
def Classifies (s : Option (UnwindIterator Regs × World)) (readStack : Reader) : Prop :=
  ∀ it w frame caller it' w', s = some (it, w) → it.state = .unwinding frame →
    next (B.unwinder P modules) readStack it w = some (.ok (some caller), it', w') →
    ∃ ra, B.unwindFrame P modules readStack frame it.regs w = some (.ok (some ra), it'.regs, w') ∧
      (modules.SignalFrameAt (B.lookupIp it.regs frame) → caller = .instructionPointer ra) ∧
      (¬ modules.SignalFrameAt (B.lookupIp it.regs frame) →
        ∃ nonZero, caller = .returnAddress ra nonZero)

/-- If libunwind asks for proc-info, every run classifies its frames, whatever
calls have filled the caches before it. -/
def RunsClassify : Prop :=
  B.AsksProcInfo P modules → ∀ (pc : UInt64) (regs : Regs) (w : World) (readers : List Reader),
    modules.Histories w.caches →
    EachStep (call (B.unwinder P modules)) (Classifies B P modules) (some (new pc regs, w)) readers

variable {B P modules} {it it' : UnwindIterator Regs} {readStack : Reader} {w w' : World}
  {ops : List SetOp}

theorem advance_kind {interrupted : Bool} {ra : UInt64} {caller : FrameAddress}
    (h : (advance interrupted (some ra)).1 = some caller) :
    (interrupted = true → caller = .instructionPointer ra) ∧
      (¬ interrupted = true → ∃ nonZero, caller = .returnAddress ra nonZero) := by
  unfold advance frameOf FrameAddress.fromReturnAddress at h
  cases interrupted with
  | true =>
    obtain rfl := Option.some.inj h
    simp
  | false =>
    by_cases hz : ra = 0
    · simp [hz] at h
    · simp only [Bool.false_eq_true, if_false, Option.bind_some, dif_neg hz] at h
      obtain rfl := Option.some.inj h
      exact ⟨by simp, fun _ => ⟨hz, rfl⟩⟩

theorem next_classifies (h : (ModuleSet.after ops).WellFormedModules)
    (hasks : B.AsksProcInfo P (ModuleSet.after ops)) {s : Option (UnwindIterator Regs × World)}
    (hs : ∀ it w, s = some (it, w) → (ModuleSet.after ops).Histories w.caches) :
    Classifies B P (ModuleSet.after ops) s readStack := by
  intro it w frame caller it' w' he hst hn
  obtain ⟨ra, hu, rfl⟩ := next_caller hst hn
  refine ⟨_, hu, ?_⟩
  rw [← Backend.unwindFrame_signalFrame h hasks (hs it w he) hu]
  apply advance_kind
  rw [next_stepped hst hu] at hn
  exact Except.ok.inj (Prod.mk.inj (Option.some.inj hn)).1

theorem next_histories (h : (ModuleSet.after ops).WellFormedModules)
    (hh : (ModuleSet.after ops).Histories w.caches) {r : Except Error (Option FrameAddress)}
    (hn : next (B.unwinder P (ModuleSet.after ops)) readStack it w = some (r, it', w')) :
    (ModuleSet.after ops).Histories w'.caches := by
  rcases next_cases hn with ⟨pc, -, -, -, rfl⟩ | ⟨-, -, -, rfl⟩ | ⟨frame, out, regs', -, hu, -⟩
  · exact hh
  · exact hh
  · exact Backend.unwindFrame_histories h hh hu

theorem runsClassify (h : (ModuleSet.after ops).WellFormedModules) :
    RunsClassify B P (ModuleSet.after ops) := by
  intro hasks pc regs w readers hw
  refine eachStep_of_inv
    (I := fun s => ∀ it w, s = some (it, w) → (ModuleSet.after ops).Histories w.caches) ?_ ?_ ?_
  · refine call_inv (I := fun _ w => (ModuleSet.after ops).Histories w.caches) ?_
    intro readStack it w r it' w' hi hn
    exact next_histories h hi hn
  · intro s readStack hs
    exact next_classifies h hasks hs
  · intro it' w' he
    obtain ⟨-, rfl⟩ := Prod.mk.inj (Option.some.inj he)
    exact hw

end UnwindIterator

/-- On both architectures. -/
theorem signalFrames_classified (P : Process) (ops : List SetOp)
    (h : (ModuleSet.after ops).WellFormedModules) :
    UnwindIterator.RunsClassify X8664.backend P (ModuleSet.after ops) ∧
    UnwindIterator.RunsClassify Aarch64.backend P (ModuleSet.after ops) :=
  ⟨UnwindIterator.runsClassify h, UnwindIterator.runsClassify h⟩

section Trampoline

/-- A module whose only function is a signal trampoline. The interrupted address
stands on top of its stack. -/
def restorerParts : ModuleParts where
  name := "restorer"
  avmaRange := ⟨0x1000, 0x2000⟩
  baseAvma := 0
  baseSvma := 0
  textSvma := some ⟨0x1000, 0x2000⟩
  ehFrameSvma := some ⟨0x7000, 0x702e⟩
  ehFrame := some ⟨0x7000, ⟨[17, 0, 0, 0, 0, 0, 0, 0, 1, 0x7a, 0x53, 0, 1, 0x78, 16, 0,
    0x0c, 7, 8, 0x90, 1,
    21, 0, 0, 0, 25, 0, 0, 0, 0, 0x10, 0, 0, 0, 0, 0, 0, 0, 0x10, 0, 0, 0, 0, 0, 0, 0], by decide⟩⟩
  ehFrameHdrSvma := some ⟨0x8000, 0x8014⟩
  ehFrameHdr := some ⟨0x8000, ⟨[1, 0x03, 0x03, 0x3b, 0, 0x70, 0, 0, 1, 0, 0, 0,
    0x00, 0x90, 0xff, 0xff, 0x15, 0xf0, 0xff, 0xff], by decide⟩⟩

def trampoline : ModuleData := .fromParts restorerParts 0

def trampolineHdr : Buffer := restorerParts.ehFrameHdr.get rfl

def trampolineFrame : Buffer := restorerParts.ehFrame.get rfl

theorem trampoline_wellFormed : WellFormed trampoline trampolineHdr trampolineFrame
    (fun _ => ⟨1, -8, 16, DW_EH_PE_ABSPTR, DW_EH_PE_OMIT, 0, true, true, 16, 5⟩)
    (fun _ => ⟨0x1000, 0x1000, 46, 0, 0⟩) := by
  have hcount : trampoline.table.count = 1 := by decide +kernel
  have hzero : ∀ i < trampoline.table.count, i = 0 := by
    intro i hi
    omega
  refine ⟨rfl, rfl, by decide +kernel, ?_, ?_, ?_, ?_, ?_, ?_⟩
  · intro i j hij hj
    omega
  · intro i hi
    obtain rfl := hzero i hi
    decide +kernel
  · intro i hi
    obtain rfl := hzero i hi
    decide +kernel
  · intro i hi
    decide
  · intro i hi
    decide
  · intro i hi j hj hne
    exact absurd ((hzero i hi).trans (hzero j hj).symm) hne

def trampolineSet : List SetOp := [.add restorerParts 0]

theorem trampolineSet_wellFormed : (ModuleSet.after trampolineSet).WellFormedModules := by
  have hone : ∀ start m, (ModuleSet.after trampolineSet).modules.get? start = some m →
      start = 0x1000 ∧ m = trampoline := by
    intro start m hm
    exact Prod.mk.inj (List.mem_singleton.mp (OrderedMap.get?_eq_some.mp hm))
  refine ⟨?_, ?_, ?_, ?_⟩
  · intro start m hm
    rw [(hone start m hm).2]
    decide
  · intro start m start' m' hm hm' hne
    exact absurd ((hone start m hm).1.trans (hone start' m' hm').1.symm) hne
  · intro start m start' m' hm hm' hne
    exact absurd ((hone start m hm).1.trans (hone start' m' hm').1.symm) hne
  · intro start m hm _
    rw [(hone start m hm).2]
    exact ⟨_, _, _, _, trampoline_wellFormed⟩

/-- A saved pair of a function in no module that was called from the trampoline,
and the address that the signal interrupted. -/
def signalStack (addr : UInt64) : Option UInt64 :=
  if addr = 0x9000 then some 0
  else if addr = 0x9008 then some 0x1005
  else if addr = 0x9010 then some 0x6000
  else none

open UnwindIterator in
theorem trampoline_classified :
    results (X8664.backend.unwinder topOfStackX8664 (ModuleSet.after trampolineSet))
      (List.replicate 4 (steady signalStack)) (.new 0x5000 (.new 0x5000 0x8000 0x9000)) freshWorld =
      [.ok (some (.instructionPointer 0x5000)), .ok (some (.returnAddress 0x1005 (by decide))),
        .ok (some (.instructionPointer 0x6000)), .ok none] ∧
    EachStep (call (X8664.backend.unwinder topOfStackX8664 (ModuleSet.after trampolineSet)))
      (Classifies X8664.backend topOfStackX8664 (ModuleSet.after trampolineSet))
      (some (.new 0x5000 (.new 0x5000 0x8000 0x9000), freshWorld))
      (List.replicate 4 (steady signalStack)) := by
  refine ⟨by decide +kernel, ?_⟩
  refine (signalFrames_classified topOfStackX8664 trampolineSet trampolineSet_wellFormed).1 ?_ _ _ _ _ ?_
  · intro lookupIp regs readStack w newIp extras ctx _ hn
    have hfirst : ∀ c, (topOfStackX8664.libunwind.step c).Passes Backend.isFindProcInfo
        (fun r => 0 < r.1) := fun _ => Or.inl trivial
    exact Backend.nativeStep_asks hfirst hn
  · intro start m _
    exact .fresh

end Trampoline

end Unwinder
