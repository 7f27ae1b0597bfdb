import Unwinder.ModuleSet
import Unwinder.Lib.Runs

namespace Unwinder
open Lib

/-- The end of a mirrored section, saturated, is as far behind its start as the
section has bytes. -/
def LocalSection.Mirrors (sec : LocalSection) : Prop :=
  sec.avmaEnd = saturatingAdd sec.avmaStart (UInt64.ofNat sec.localPtr.bytes.len)

/-- Where the bytes of a section end, in unbounded arithmetic. -/
def LocalSection.byteEnd (sec : LocalSection) : Nat :=
  sec.avmaStart.toNat + sec.localPtr.bytes.len

theorem LocalSection.Mirrors.avmaEnd {sec : LocalSection} (h : sec.Mirrors) :
    sec.avmaEnd.toNat = min sec.byteEnd (2 ^ 64 - 1) := by
  have hb := sec.localPtr.bytes.bound
  have hl : sec.localPtr.bytes.len = sec.localPtr.bytes.data.length := rfl
  rw [h, saturatingAdd_toNat, UInt64.toNat_ofNat', Nat.mod_eq_of_lt (by omega)]
  rfl

/-- Every section of a built module mirrors the bytes it was given. -/
theorem ModuleData.fromParts_mirrors (p : ModuleParts) (cache : Nat) :
    ∀ sec ∈ (ModuleData.fromParts p cache).localSections, sec.Mirrors := by
  intro sec hsec
  simp only [ModuleData.fromParts, List.mem_append, Option.mem_toList, Option.map_eq_some_iff]
    at hsec
  rcases hsec with ⟨_, -, rfl⟩ | ⟨_, -, rfl⟩
  · rfl
  · rfl

/-- The operations on a module set; a module is built from its parts. -/
inductive SetOp where
  | add (parts : ModuleParts) (functionCache : Nat)
  | remove (avmaStart : UInt64)

namespace ModuleSet

def apply (s : ModuleSet) : SetOp → ModuleSet
  | .add parts cache => s.add (.fromParts parts cache)
  | .remove avmaStart => s.remove avmaStart

/-- The set after a sequence of operations on the empty one. -/
def after (ops : List SetOp) : ModuleSet := runFrom apply new ops

/-- The last of some sections that starts at an address. -/
def lastSection (secs : List LocalSection) (key : UInt64) : Option LocalSection :=
  (secs.filter (fun sec => sec.avmaStart = key)).getLast?

theorem mem_of_lastSection {secs : List LocalSection} {key : UInt64} {sec : LocalSection}
    (h : lastSection secs key = some sec) : sec ∈ secs ∧ sec.avmaStart = key := by
  have hm := List.mem_filter.mp (List.mem_of_getLast? h)
  exact ⟨hm.1, by simpa using hm.2⟩

theorem lastSection_eq_none {secs : List LocalSection} {key : UInt64} :
    lastSection secs key = none ↔ key ∉ secs.map LocalSection.avmaStart := by
  rw [lastSection, List.getLast?_eq_none_iff, List.filter_eq_nil_iff]
  simp only [decide_eq_true_eq, List.mem_map, not_exists, not_and]

/-- A folded insertion leaves the last section of each start. -/
theorem get?_addRedirects (data : ModuleData) (r : OrderedMap UInt64 RedirectEntry) (key : UInt64) :
    (addRedirects data r).get? key =
      ((lastSection data.localSections key).map (RedirectEntry.mk · data)).or (r.get? key) := by
  unfold addRedirects
  induction data.localSections using List.reverseRecOn with
  | nil => rfl
  | append_singleton secs sec ih =>
    rw [List.foldl_append, List.foldl_cons, List.foldl_nil, OrderedMap.get?_insert, ih]
    unfold lastSection
    by_cases h : sec.avmaStart = key
    · rw [if_pos h.symm]
      simp [h]
    · rw [if_neg (fun he => h he.symm)]
      simp [h]

theorem get?_removeRedirects (data : ModuleData) (r : OrderedMap UInt64 RedirectEntry)
    (key : UInt64) : (removeRedirects data r).get? key =
      if key ∈ data.localSections.map LocalSection.avmaStart then none else r.get? key := by
  unfold removeRedirects
  induction data.localSections using List.reverseRecOn with
  | nil => rfl
  | append_singleton secs sec ih =>
    rw [List.foldl_append, List.foldl_cons, List.foldl_nil, OrderedMap.get?_erase, ih]
    by_cases h : key = sec.avmaStart
    · simp [h]
    · simp [h]

/-- Redirects stand under their own start, and sections mirror their bytes. -/
structure Placed (s : ModuleSet) : Prop where
  key : ∀ key e, s.redirects.get? key = some e → e.mirror.avmaStart = key
  redirect : ∀ key e, s.redirects.get? key = some e → e.mirror.Mirrors
  registered : ∀ start m, s.modules.get? start = some m → ∀ sec ∈ m.localSections, sec.Mirrors

theorem Placed.new : Placed new where
  key _ _ h := by cases h
  redirect _ _ h := by cases h
  registered _ _ h := by cases h

variable {s : ModuleSet} {m : ModuleData} {start key : UInt64} {e : RedirectEntry}

/-- A redirect after adding a module is one of its sections or an older one. -/
theorem redirect_add (h : (s.add m).redirects.get? key = some e) :
    (lastSection m.localSections key = some e.mirror ∧ e.owner = m) ∨
      (key ∉ m.localSections.map LocalSection.avmaStart ∧ s.redirects.get? key = some e) := by
  rw [add, get?_addRedirects] at h
  cases hl : lastSection m.localSections key with
  | none =>
    rw [hl] at h
    exact .inr ⟨lastSection_eq_none.mp hl, h⟩
  | some sec =>
    rw [hl] at h
    obtain rfl := Option.some.inj h
    exact .inl ⟨rfl, rfl⟩

theorem redirect_remove (hm : s.modules.get? start = some m)
    (h : (s.remove start).redirects.get? key = some e) :
    key ∉ m.localSections.map LocalSection.avmaStart ∧ s.redirects.get? key = some e := by
  simp only [remove, hm, get?_removeRedirects] at h
  split at h
  · cases h
  · next hk => exact ⟨hk, h⟩

theorem remove_absent (hm : s.modules.get? start = none) : s.remove start = s := by
  simp only [remove, hm]

theorem modules_remove (hm : s.modules.get? start = some m) :
    (s.remove start).modules = s.modules.erase start := by
  simp only [remove, hm]

theorem Placed.add (h : Placed s) (hm : ∀ sec ∈ m.localSections, sec.Mirrors) : Placed (s.add m) where
  key key e he := by
    rcases redirect_add he with ⟨hl, -⟩ | ⟨-, ho⟩
    · exact (mem_of_lastSection hl).2
    · exact h.key key e ho
  redirect key e he := by
    rcases redirect_add he with ⟨hl, -⟩ | ⟨-, ho⟩
    · exact hm _ (mem_of_lastSection hl).1
    · exact h.redirect key e ho
  registered k m' hk := by
    rw [ModuleSet.add, OrderedMap.get?_insert] at hk
    split at hk
    · obtain rfl := Option.some.inj hk
      exact hm
    · exact h.registered k m' hk

theorem Placed.remove (h : Placed s) (start : UInt64) : Placed (s.remove start) := by
  cases hm : s.modules.get? start with
  | none =>
    rw [remove_absent hm]
    exact h
  | some m =>
    refine ⟨fun key e he => h.key key e (redirect_remove hm he).2,
      fun key e he => h.redirect key e (redirect_remove hm he).2, fun k m' hk => ?_⟩
    rw [modules_remove hm, OrderedMap.get?_erase] at hk
    split at hk
    · cases hk
    · exact h.registered k m' hk

theorem Placed.apply (h : Placed s) (op : SetOp) : Placed (s.apply op) := by
  cases op with
  | add parts cache => exact h.add (ModuleData.fromParts_mirrors parts cache)
  | remove avmaStart => exact h.remove avmaStart

theorem placed_after (ops : List SetOp) : Placed (after ops) :=
  runFrom_inv (fun _ op _ h => h.apply op) Placed.new

/-- Every module is registered at its own start. -/
def AtStarts (s : ModuleSet) : Prop :=
  ∀ start m, s.modules.get? start = some m → m.avmaRange.start = start

theorem AtStarts.apply {s : ModuleSet} (h : s.AtStarts) (op : SetOp) : (s.apply op).AtStarts := by
  intro start m hm
  cases op with
  | add parts cache =>
    rw [ModuleSet.apply, add, OrderedMap.get?_insert] at hm
    split at hm
    · next he =>
      obtain rfl := Option.some.inj hm
      exact he.symm
    · exact h start m hm
  | remove removed =>
    cases hr : s.modules.get? removed with
    | none =>
      rw [ModuleSet.apply, remove_absent hr] at hm
      exact h start m hm
    | some old =>
      rw [ModuleSet.apply, modules_remove hr, OrderedMap.get?_erase] at hm
      split at hm
      · cases hm
      · exact h start m hm

theorem atStarts_after (ops : List SetOp) : (after ops).AtStarts :=
  runFrom_inv (fun _ op _ h => h.apply op) (fun _ _ h => by cases h)

/-- The nearest mirror at or below an address ends at the top of the address
space or behind it, and too early for eight bytes at that address. -/
def EndsAtTop (s : ModuleSet) (addr : UInt64) : Prop :=
  ∃ key e, s.redirects.lastLE addr = some (key, e) ∧
    2 ^ 64 - 1 ≤ e.mirror.byteEnd ∧ e.mirror.byteEnd < addr.toNat + 8

/-- Eight bytes fit the mirror's saturated range exactly when they fit its
bytes or the two saturations hide that they do not. -/
theorem fits_iff {sec : LocalSection} (h : sec.Mirrors) (addr : UInt64) :
    saturatingAdd addr 8 ≤ sec.avmaEnd ↔ addr.toNat + 8 ≤ sec.byteEnd ∨ 2 ^ 64 - 1 ≤ sec.byteEnd := by
  rw [UInt64.le_iff_toNat_le, saturatingAdd_toNat, h.avmaEnd]
  have ha := addr.toNat_lt
  have h8 : (8 : UInt64).toNat = 8 := rfl
  omega

/-- A served read lies in the section's bytes unless the section ends at the top
of the address space, where both saturating additions meet. -/
theorem lookupLocal_inside_iff (ops : List SetOp) (addr : UInt64) :
    (∀ b off, (after ops).lookupLocal addr = some (b, off) → off + 8 ≤ b.bytes.len) ↔
      ¬ EndsAtTop (after ops) addr := by
  have hp := placed_after ops
  generalize after ops = s at hp
  unfold lookupLocal EndsAtTop
  cases hl : s.redirects.lastLE addr with
  | none => simp
  | some p =>
    obtain ⟨key, e⟩ := p
    obtain ⟨hg, hle, -⟩ := OrderedMap.lastLE_eq_some.mp hl
    have hkey := hp.key key e hg
    have hfits := fits_iff (hp.redirect key e hg) addr
    subst hkey
    have hle' := UInt64.le_iff_toNat_le.mp hle
    have hoff : (addr - e.mirror.avmaStart).toNat = addr.toNat - e.mirror.avmaStart.toNat :=
      UInt64.toNat_sub_of_le _ _ hle
    have hend : e.mirror.byteEnd = e.mirror.avmaStart.toNat + e.mirror.localPtr.bytes.len := rfl
    constructor
    · intro h hbad
      obtain ⟨key', e', he, htop, hlt⟩ := hbad
      obtain ⟨rfl, rfl⟩ := Prod.mk.inj (Option.some.inj he)
      have hin := h e.mirror.localPtr (addr - e.mirror.avmaStart).toNat
        (if_pos ⟨hle, hfits.mpr (.inr htop)⟩)
      omega
    · intro h b off hs
      by_cases hc : e.mirror.avmaStart ≤ addr ∧ saturatingAdd addr 8 ≤ e.mirror.avmaEnd
      · simp only [if_pos hc, Option.some.injEq, Prod.mk.injEq] at hs
        obtain ⟨rfl, rfl⟩ := hs
        rw [hoff]
        rcases hfits.mp hc.2 with hin | htop
        · omega
        · by_contra hout
          exact h ⟨_, e, rfl, htop, by omega⟩
      · simp only [if_neg hc] at hs
        cases hs

/-- A section of sixteen bytes whose last one is the last but one address. -/
def topSection : ModuleParts where
  name := "top"
  avmaRange := ⟨0x1000, 0x2000⟩
  baseAvma := 0
  baseSvma := 0
  textSvma := none
  ehFrameSvma := some ⟨0xffffffffffffffef, 0xffffffffffffffff⟩
  ehFrame := some ⟨0x7000, ⟨List.replicate 16 0, by simp⟩⟩
  ehFrameHdrSvma := none
  ehFrameHdr := none

theorem topSection_read_outside :
    ¬ ∀ b off, (after [.add topSection 0]).lookupLocal 0xfffffffffffffffc = some (b, off) →
      off + 8 ≤ b.bytes.len := by
  intro h
  have hout := h ⟨0x7000, ⟨List.replicate 16 0, by simp⟩⟩ 13 rfl
  exact absurd hout (by decide)

end ModuleSet

end Unwinder
