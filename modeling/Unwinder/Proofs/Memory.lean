import Unwinder.Backend
import Unwinder.Proofs.Redirects

namespace Unwinder
open Lib Ffi

/-- The eight bytes from an address lie in the bytes of the section. -/
def LocalSection.Window (sec : LocalSection) (addr : UInt64) : Prop :=
  sec.avmaStart ≤ addr ∧ addr.toNat + 8 ≤ sec.byteEnd

/-- The little-endian word that the tracee has at an address. -/
def traceeWord (tracee : UInt64 → UInt8) (addr : UInt64) : UInt64 :=
  UInt64.ofNat (leValue ((List.range 8).map (fun i => tracee (addr + UInt64.ofNat i))))

namespace ModuleSet

/-- The redirects are sections that have bytes, share no address, end well below
the top of the address space, and hold what the tracee has there. -/
structure MirrorsTracee (s : ModuleSet) (tracee : UInt64 → UInt8) : Prop where
  nonempty : ∀ key e, s.redirects.get? key = some e → e.mirror.avmaStart < e.mirror.avmaEnd
  disjoint : ∀ key e key' e', s.redirects.get? key = some e → s.redirects.get? key' = some e' →
    key ≠ key' → ∀ addr, ¬ ((e.mirror.avmaStart ≤ addr ∧ addr < e.mirror.avmaEnd) ∧
      (e'.mirror.avmaStart ≤ addr ∧ addr < e'.mirror.avmaEnd))
  low : ∀ key e, s.redirects.get? key = some e → e.mirror.avmaEnd.toNat ≤ 2 ^ 64 - 16
  bytes : ∀ key e, s.redirects.get? key = some e → ∀ k (hk : k < e.mirror.localPtr.bytes.data.length),
    tracee (e.mirror.avmaStart + UInt64.ofNat k) = e.mirror.localPtr.bytes.data.get ⟨k, hk⟩

variable {ops : List SetOp} {tracee : UInt64 → UInt8} {key addr : UInt64} {e : RedirectEntry}

/-- Below the top of the address space nothing saturates. -/
theorem MirrorsTracee.avmaEnd (h : (after ops).MirrorsTracee tracee)
    (he : (after ops).redirects.get? key = some e) :
    e.mirror.avmaEnd.toNat = e.mirror.byteEnd ∧ e.mirror.byteEnd ≤ 2 ^ 64 - 16 := by
  have hend := ((placed_after ops).redirect key e he).avmaEnd
  have hlow := h.low key e he
  omega

/-- The nearest redirect to an address in a section is the section itself. -/
theorem MirrorsTracee.nearest (h : (after ops).MirrorsTracee tracee)
    (he : (after ops).redirects.get? key = some e) (hw : e.mirror.Window addr) :
    (after ops).redirects.lastLE addr = some (key, e) := by
  have hp := placed_after ops
  have hkey := hp.key key e he
  have hend := h.avmaEnd he
  refine OrderedMap.lastLE_eq_some.mpr ⟨he, by rw [← hkey]; exact hw.1, ?_⟩
  intro key' hk' hle'
  obtain ⟨e', he'⟩ := Option.isSome_iff_exists.mp hk'
  have hkey' := hp.key key' e' he'
  by_contra hgt
  -- the other section starts inside this one
  refine h.disjoint key e key' e' he he' (fun heq => hgt (le_of_eq heq.symm)) key' ⟨⟨?_, ?_⟩, ?_, ?_⟩
  · rw [hkey]
    exact le_of_lt (not_le.mp hgt)
  · have hin := hw.2
    rw [UInt64.le_iff_toNat_le] at hle'
    rw [UInt64.lt_iff_toNat_lt]
    omega
  · exact le_of_eq hkey'
  · have hpos := h.nonempty key' e' he'
    rw [hkey'] at hpos
    exact hpos

/-- A read is served locally exactly if it lies in a section, and from there. -/
theorem lookupLocal_eq_some (h : (after ops).MirrorsTracee tracee) {b : Buffer} {off : Nat} :
    (after ops).lookupLocal addr = some (b, off) ↔
      ∃ key e, (after ops).redirects.get? key = some e ∧ e.mirror.Window addr ∧
        b = e.mirror.localPtr ∧ off = (addr - e.mirror.avmaStart).toNat := by
  constructor
  · intro hl
    unfold lookupLocal at hl
    split at hl
    · next key e hlast =>
      obtain ⟨he, -, -⟩ := OrderedMap.lastLE_eq_some.mp hlast
      have hend := h.avmaEnd he
      dsimp only at hl
      split at hl
      · next hin =>
        obtain ⟨rfl, rfl⟩ := Prod.mk.inj (Option.some.inj hl)
        have hfits := (fits_iff ((placed_after ops).redirect key e he) addr).mp hin.2
        exact ⟨key, e, he, ⟨hin.1, by omega⟩, rfl, rfl⟩
      · cases hl
    · cases hl
  · intro hs
    obtain ⟨key, e, he, hw, rfl, rfl⟩ := hs
    unfold lookupLocal
    rw [h.nearest he hw]
    dsimp only
    rw [if_pos ⟨hw.1, (fits_iff ((placed_after ops).redirect key e he) addr).mpr (Or.inl hw.2)⟩]

/-- What is read from a section is what the tracee has. -/
theorem MirrorsTracee.localWord_eq (h : (after ops).MirrorsTracee tracee)
    (he : (after ops).redirects.get? key = some e) (hw : e.mirror.Window addr)
    (memory : Nat → UInt8) :
    localWord memory e.mirror.localPtr (addr - e.mirror.avmaStart).toNat = traceeWord tracee addr := by
  have hoff : (addr - e.mirror.avmaStart).toNat = addr.toNat - e.mirror.avmaStart.toNat :=
    UInt64.toNat_sub_of_le _ _ hw.1
  have hle := UInt64.le_iff_toNat_le.mp hw.1
  have hend := hw.2
  unfold LocalSection.byteEnd Slice.len at hend
  unfold localWord traceeWord
  congr 2
  apply List.map_congr_left
  intro i hi
  have hi8 := List.mem_range.mp hi
  have hk : (addr - e.mirror.avmaStart).toNat + i < e.mirror.localPtr.bytes.data.length := by omega
  have hbyte := h.bytes key e he _ hk
  rw [UInt64.ofNat_add, UInt64.ofNat_toNat, ← UInt64.add_assoc, UInt64.add_comm e.mirror.avmaStart,
    UInt64.sub_add_cancel] at hbyte
  rw [hbyte, localByte, List.getElem?_eq_getElem hk]
  rfl

/-- Some redirected section has the eight bytes from the address. -/
def Serves (s : ModuleSet) (addr : UInt64) : Prop :=
  ∃ key e, s.redirects.get? key = some e ∧ e.mirror.Window addr

theorem lookupLocal_eq_none (h : (after ops).MirrorsTracee tracee) :
    (after ops).lookupLocal addr = none ↔ ¬ (after ops).Serves addr := by
  rw [Option.eq_none_iff_forall_not_mem]
  constructor
  · intro hn hs
    obtain ⟨key, e, he, hw⟩ := hs
    exact hn _ ((lookupLocal_eq_some h).mpr ⟨key, e, he, hw, rfl, rfl⟩)
  · intro hn p hp
    obtain ⟨key, e, he, hw, -⟩ := (lookupLocal_eq_some h).mp hp
    exact hn ⟨key, e, he, hw⟩

end ModuleSet

section Access

variable {Raw : Type}

/-- A reader that answers with what the tracee has, where it answers. -/
def Reader.Truthful (readFn : Reader) (tracee : UInt64 → UInt8) : Prop :=
  ∀ reads addr v, readFn reads addr = some v → v = traceeWord tracee addr

/-- How memory accesses come out at an address: the sections answer for what they
hold, the reader for everything else, and both with what the tracee has. -/
structure AccessesTracee (tracee : UInt64 → UInt8) (env : UnwindEnv) (addr val : UInt64)
    (ctx : UnwindCtx Raw) : Prop where
  served : env.modules.Serves addr →
    accessMem env addr val false ctx = ((UNW_ESUCCESS, traceeWord tracee addr), ctx)
  read : ¬ env.modules.Serves addr → ∀ v, env.readFn ctx.world.reads addr = some v →
    accessMem env addr val false ctx = ((UNW_ESUCCESS, v),
      { ctx with world := { ctx.world with reads := (addr, some v) :: ctx.world.reads } })
  failed : ¬ env.modules.Serves addr → env.readFn ctx.world.reads addr = none →
    accessMem env addr val false ctx = ((-UNW_EINVAL, val),
      { ctx with
        lastFailedReadAddr := some addr
        world := { ctx.world with reads := (addr, none) :: ctx.world.reads } })
  asks : (∃ answer, (accessMem env addr val false ctx).2.world.reads =
    (addr, answer) :: ctx.world.reads) ↔ ¬ env.modules.Serves addr
  truth : ∀ v ctx', accessMem env addr val false ctx = ((UNW_ESUCCESS, v), ctx') →
    v = traceeWord tracee addr
  write : accessMem env addr val true ctx = ((-UNW_EINVAL, val), ctx)

variable {ops : List SetOp} {tracee : UInt64 → UInt8} {env : UnwindEnv} {addr val : UInt64}
  {ctx : UnwindCtx Raw}

theorem accessMem_served (henv : env.modules = ModuleSet.after ops)
    (h : (ModuleSet.after ops).MirrorsTracee tracee) (hs : env.modules.Serves addr) :
    accessMem env addr val false ctx = ((UNW_ESUCCESS, traceeWord tracee addr), ctx) := by
  rw [henv] at hs
  obtain ⟨key, e, he, hw⟩ := hs
  have hl := (ModuleSet.lookupLocal_eq_some h).mpr ⟨key, e, he, hw, rfl, rfl⟩
  unfold accessMem
  rw [henv, hl, ← h.localWord_eq he hw env.memory]
  rfl

theorem accessMem_unserved (henv : env.modules = ModuleSet.after ops)
    (h : (ModuleSet.after ops).MirrorsTracee tracee) (hs : ¬ env.modules.Serves addr) :
    accessMem env addr val false ctx =
      match env.readFn ctx.world.reads addr with
      | some v => ((UNW_ESUCCESS, v),
        { ctx with world := { ctx.world with reads := (addr, some v) :: ctx.world.reads } })
      | none => ((-UNW_EINVAL, val),
        { ctx with
          lastFailedReadAddr := some addr
          world := { ctx.world with reads := (addr, none) :: ctx.world.reads } }) := by
  rw [henv] at hs
  have hl := (ModuleSet.lookupLocal_eq_none h).mpr hs
  unfold accessMem Reader.read
  rw [henv, hl]
  cases env.readFn ctx.world.reads addr <;> rfl

/-- Redirecting reads to the mirrored sections cannot be told from reading the
tracee, and asks the reader only for what no section holds. -/
theorem accessMem_transparent (ops : List SetOp) (tracee : UInt64 → UInt8) (env : UnwindEnv)
    (addr val : UInt64) (ctx : UnwindCtx Raw) (henv : env.modules = ModuleSet.after ops)
    (h : (ModuleSet.after ops).MirrorsTracee tracee) (hr : env.readFn.Truthful tracee) :
    AccessesTracee tracee env addr val ctx where
  served := accessMem_served henv h
  read hs v hv := by rw [accessMem_unserved henv h hs, hv]
  failed hs hv := by rw [accessMem_unserved henv h hs, hv]
  asks := by
    constructor
    · intro ha hs
      obtain ⟨answer, ha⟩ := ha
      rw [accessMem_served henv h hs] at ha
      exact absurd (congrArg List.length ha) (by simp)
    · intro hs
      rw [accessMem_unserved henv h hs]
      cases env.readFn ctx.world.reads addr with
      | some v => exact ⟨some v, rfl⟩
      | none => exact ⟨none, rfl⟩
  truth v ctx' ha := by
    by_cases hs : env.modules.Serves addr
    · rw [accessMem_served henv h hs] at ha
      exact (Prod.mk.inj (Prod.mk.inj ha).1).2.symm
    · rw [accessMem_unserved henv h hs] at ha
      cases hv : env.readFn ctx.world.reads addr with
      | some u =>
        rw [hv] at ha
        obtain rfl := (Prod.mk.inj (Prod.mk.inj ha).1).2
        exact hr _ _ _ hv
      | none =>
        rw [hv] at ha
        exact absurd (Prod.mk.inj (Prod.mk.inj ha).1).1 (by decide)
  write := rfl

end Access

section Counted

/-- A tracee with the numbers from one to sixteen at `0x5000`, and its mirror. -/
def countedTracee (addr : UInt64) : UInt8 :=
  if 0x5000 ≤ addr ∧ addr < 0x5010 then UInt8.ofNat (addr.toNat - 0x4fff) else 0

def countedBytes : Slice := ⟨[1, 2, 3, 4, 5, 6, 7, 8, 9, 10, 11, 12, 13, 14, 15, 16], by decide⟩

def countedSet : List SetOp :=
  [.add { name := "counted"
          avmaRange := ⟨0x1000, 0x2000⟩
          baseAvma := 0
          baseSvma := 0
          textSvma := none
          ehFrameSvma := some ⟨0x5000, 0x5010⟩
          ehFrame := some ⟨0x7000, countedBytes⟩
          ehFrameHdrSvma := none
          ehFrameHdr := none } 0]

def countedReader : Reader := fun _ addr =>
  if addr < 0x6000 then some (traceeWord countedTracee addr) else none

theorem countedSet_mirrors : (ModuleSet.after countedSet).MirrorsTracee countedTracee := by
  have hone : ∀ key e, (ModuleSet.after countedSet).redirects.get? key = some e →
      key = 0x5000 ∧ e.mirror = LocalSection.ofBytes 0x5000 ⟨0x7000, countedBytes⟩ := by
    intro key e he
    obtain ⟨rfl, rfl⟩ := Prod.mk.inj (List.mem_singleton.mp (OrderedMap.get?_eq_some.mp he))
    exact ⟨rfl, rfl⟩
  refine ⟨?_, ?_, ?_, ?_⟩
  · intro key e he
    rw [(hone key e he).2]
    decide
  · intro key e key' e' he he' hne
    exact absurd ((hone key e he).1.trans (hone key' e' he').1.symm) hne
  · intro key e he
    rw [(hone key e he).2]
    decide
  · intro key e he
    have hall : ∀ k : Fin countedBytes.data.length,
        countedTracee (0x5000 + UInt64.ofNat k) = countedBytes.data.get k := by decide
    rw [(hone key e he).2]
    intro k hk
    exact hall ⟨k, hk⟩

theorem countedReader_truthful : Reader.Truthful countedReader countedTracee := by
  intro reads addr v hv
  unfold countedReader at hv
  split at hv
  · exact (Option.some.inj hv).symm
  · cases hv

def countedEnv : UnwindEnv := ⟨ModuleSet.after countedSet, 0, countedReader, fun _ => 0⟩

def countedCtx : UnwindCtx Unit := ⟨(), none, none, ⟨fun _ => .new, [], 0⟩⟩

theorem countedSet_transparent :
    (accessMem countedEnv 0x5003 0 false countedCtx).1 = (0, 0x0b0a090807060504) ∧
    (accessMem countedEnv 0x500c 0 false countedCtx).1 = (0, 0x100f0e0d) ∧
    AccessesTracee countedTracee countedEnv 0x5003 0 countedCtx ∧
    AccessesTracee countedTracee countedEnv 0x500c 0 countedCtx :=
  ⟨by decide, by decide,
    accessMem_transparent countedSet _ _ _ _ _ rfl countedSet_mirrors countedReader_truthful,
    accessMem_transparent countedSet _ _ _ _ _ rfl countedSet_mirrors countedReader_truthful⟩

end Counted

end Unwinder
