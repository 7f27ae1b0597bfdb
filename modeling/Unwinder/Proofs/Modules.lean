import Unwinder.Proofs.Redirects

namespace Unwinder
open Lib

/-- The address lies in the range of the module. -/
def ModuleData.Contains (m : ModuleData) (addr : UInt64) : Prop :=
  m.avmaRange.start ≤ addr ∧ addr < m.avmaRange.stop

instance decidableContains (m : ModuleData) (addr : UInt64) : Decidable (m.Contains addr) :=
  inferInstanceAs (Decidable (m.avmaRange.start ≤ addr ∧ addr < m.avmaRange.stop))

/-- What an operation does to the modules of a set. -/
def SetOp.write : SetOp → OrderedMap.Write UInt64 ModuleData
  | .add parts cache =>
    let data := ModuleData.fromParts parts cache
    .put data.avmaRange.start data
  | .remove avmaStart => .delete avmaStart

/-- The modules that were added last at their start and not removed since, in the
order they were added. -/
def SetOp.lastAdded (ops : List SetOp) : List ModuleData :=
  (OrderedMap.surviving (ops.map SetOp.write)).map Prod.snd

namespace ModuleSet

variable {s : ModuleSet} {addr : UInt64} {m : ModuleData}

def IsRegistered (s : ModuleSet) (m : ModuleData) : Prop :=
  ∃ start, s.modules.get? start = some m

/-- The registered ranges are non-empty and share no address. -/
structure RangesApart (s : ModuleSet) : Prop where
  nonempty : ∀ start m, s.modules.get? start = some m → m.avmaRange.start < m.avmaRange.stop
  disjoint : ∀ start m start' m', s.modules.get? start = some m → s.modules.get? start' = some m' →
    start ≠ start' → ∀ addr, ¬ (m.Contains addr ∧ m'.Contains addr)

/-- The module that is found starts last at or below the address, and contains it. -/
theorem findModule_eq_some : s.findModule addr = some m ↔
    (∃ start, s.modules.lastLE addr = some (start, m)) ∧ m.Contains addr := by
  unfold findModule
  constructor
  · intro h
    split at h
    · next start data hl =>
      split at h
      · next hin =>
        obtain rfl := Option.some.inj h
        exact ⟨⟨start, hl⟩, hin⟩
      · cases h
    · cases h
  · intro h
    obtain ⟨⟨start, hl⟩, hin⟩ := h
    rw [hl]
    exact if_pos hin

theorem findModule_registered (h : s.findModule addr = some m) : s.IsRegistered m := by
  obtain ⟨⟨start, hl⟩, -⟩ := findModule_eq_some.mp h
  exact ⟨start, (OrderedMap.lastLE_eq_some.mp hl).1⟩

/-- Of modules that are apart, the one around an address is the nearest. -/
theorem lastLE_of_contains (h : s.RangesApart) (hs : s.AtStarts) {start : UInt64}
    (hm : s.modules.get? start = some m) (hin : m.Contains addr) :
    s.modules.lastLE addr = some (start, m) := by
  have hstart := hs start m hm
  cases hl : s.modules.lastLE addr with
  | none =>
    have hlt := OrderedMap.lastLE_eq_none.mp hl start (by rw [hm]; rfl)
    rw [← hstart] at hlt
    exact absurd hin.1 (not_le.mpr hlt)
  | some p =>
    obtain ⟨start', m'⟩ := p
    obtain ⟨hm', hle', hmax⟩ := OrderedMap.lastLE_eq_some.mp hl
    have hstart' := hs start' m' hm'
    have hle : start ≤ start' := hmax start (by rw [hm]; rfl) (by rw [← hstart]; exact hin.1)
    -- the start of the nearest module is an address of both
    have heq : start = start' := by
      by_contra hne
      refine h.disjoint start m start' m' hm hm' hne start' ⟨⟨?_, ?_⟩, ?_, ?_⟩
      · rw [hstart]
        exact hle
      · exact lt_of_le_of_lt hle' hin.2
      · exact le_of_eq hstart'
      · have hpos := h.nonempty start' m' hm'
        rw [hstart'] at hpos
        exact hpos
    subst heq
    rw [hm] at hm'
    obtain rfl := Option.some.inj hm'
    rfl

/-- A module contains an address exactly if it is found there. -/
theorem findModule_iff (h : s.RangesApart) (hs : s.AtStarts) :
    s.findModule addr = some m ↔ s.IsRegistered m ∧ m.Contains addr := by
  constructor
  · intro hf
    exact ⟨findModule_registered hf, (findModule_eq_some.mp hf).2⟩
  · intro hc
    obtain ⟨⟨start, hm⟩, hin⟩ := hc
    exact findModule_eq_some.mpr ⟨⟨start, lastLE_of_contains h hs hm hin⟩, hin⟩

theorem modules_apply (s : ModuleSet) (op : SetOp) :
    (s.apply op).modules = s.modules.write op.write := by
  cases op with
  | add parts cache => rfl
  | remove avmaStart =>
    cases hm : s.modules.get? avmaStart with
    | none => rw [apply, remove_absent hm, SetOp.write, OrderedMap.write, OrderedMap.erase_of_get? hm]
    | some m => exact modules_remove hm

theorem modules_runFrom (s : ModuleSet) (ops : List SetOp) :
    (runFrom apply s ops).modules = (ops.map SetOp.write).foldl OrderedMap.write s.modules := by
  induction ops generalizing s with
  | nil => rfl
  | cons op ops ih => rw [runFrom_cons, ih, modules_apply, List.map_cons, List.foldl_cons]

/-- The registered modules are those that the history leaves. -/
theorem registered_iff {ops : List SetOp} :
    (after ops).IsRegistered m ↔ m ∈ SetOp.lastAdded ops := by
  unfold IsRegistered SetOp.lastAdded after
  simp only [modules_runFrom, new, OrderedMap.get?_written, List.mem_map, Prod.exists]
  constructor
  · intro h
    obtain ⟨start, hm⟩ := h
    exact ⟨start, m, hm, rfl⟩
  · intro h
    obtain ⟨start, m', hm, rfl⟩ := h
    exact ⟨start, hm⟩

/-- Lookup by predecessor is lookup by containment: it finds the registered module
around an address, as a scan over the modules that the history leaves does. -/
theorem findModule_exact (ops : List SetOp) (h : (after ops).RangesApart) (addr : UInt64) :
    (∀ m, (after ops).findModule addr = some m ↔ (after ops).IsRegistered m ∧ m.Contains addr) ∧
    (after ops).findModule addr = (SetOp.lastAdded ops).find? (fun m => m.Contains addr) := by
  have hiff : ∀ m, (after ops).findModule addr = some m ↔ _ :=
    fun m => findModule_iff h (atStarts_after ops)
  refine ⟨hiff, ?_⟩
  cases hscan : (SetOp.lastAdded ops).find? (fun m => m.Contains addr) with
  | none =>
    apply Option.eq_none_iff_forall_ne_some.mpr
    intro m hm
    obtain ⟨hr, hin⟩ := (hiff m).mp hm
    exact List.find?_eq_none.mp hscan m (registered_iff.mp hr) (decide_eq_true hin)
  | some m =>
    have hin : m.Contains addr := by simpa using List.find?_some hscan
    exact (hiff m).mpr ⟨registered_iff.mpr (List.mem_of_find?_eq_some hscan), hin⟩

/-- A module without sections. -/
def bareParts (avmaRange : AddrRange) : ModuleParts :=
  ⟨"bare", avmaRange, 0, 0, none, none, none, none, none⟩

/-- The first module is replaced by one that ends where the second starts, and the
third is removed. -/
def adjacentOps : List SetOp :=
  [.add (bareParts ⟨0x1000, 0x3000⟩) 0, .add (bareParts ⟨0x2000, 0x3000⟩) 1,
    .add (bareParts ⟨0x2800, 0x4000⟩) 2, .add (bareParts ⟨0x1000, 0x2000⟩) 3, .remove 0x2800]

theorem adjacentOps_registered {start : UInt64} (h : (after adjacentOps).modules.get? start = some m) :
    start = 0x2000 ∧ m = .fromParts (bareParts ⟨0x2000, 0x3000⟩) 1 ∨
    start = 0x1000 ∧ m = .fromParts (bareParts ⟨0x1000, 0x2000⟩) 3 := by
  unfold after at h
  rw [modules_runFrom] at h
  have hleft : OrderedMap.surviving (adjacentOps.map SetOp.write) =
      [(0x2000, .fromParts (bareParts ⟨0x2000, 0x3000⟩) 1),
        (0x1000, .fromParts (bareParts ⟨0x1000, 0x2000⟩) 3)] := rfl
  have hin := OrderedMap.get?_written.mp h
  rw [hleft] at hin
  simpa using hin

theorem adjacentOps_apart : (after adjacentOps).RangesApart where
  nonempty start m hm := by
    obtain ⟨rfl, rfl⟩ | ⟨rfl, rfl⟩ := adjacentOps_registered hm
    · decide
    · decide
  disjoint start m start' m' hm hm' hne addr := by
    intro h
    obtain ⟨rfl, rfl⟩ | ⟨rfl, rfl⟩ := adjacentOps_registered hm
    · obtain ⟨rfl, rfl⟩ | ⟨rfl, rfl⟩ := adjacentOps_registered hm'
      · exact hne rfl
      · exact absurd h.1.1 (not_le.mpr h.2.2)
    · obtain ⟨rfl, rfl⟩ | ⟨rfl, rfl⟩ := adjacentOps_registered hm'
      · exact absurd h.2.1 (not_le.mpr h.1.2)
      · exact hne rfl

theorem adjacentOps_found : (after adjacentOps).RangesApart ∧
    (after adjacentOps).findModule 0x2000 = some (.fromParts (bareParts ⟨0x2000, 0x3000⟩) 1) ∧
    (SetOp.lastAdded adjacentOps).find? (fun m => m.Contains 0x2000) =
      some (.fromParts (bareParts ⟨0x2000, 0x3000⟩) 1) := by
  obtain ⟨hiff, hscan⟩ := findModule_exact adjacentOps adjacentOps_apart 0x2000
  have hfound := (hiff _).mpr ⟨⟨0x2000, rfl⟩, by decide⟩
  exact ⟨adjacentOps_apart, hfound, hscan.symm.trans hfound⟩

end ModuleSet

end Unwinder
