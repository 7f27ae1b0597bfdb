import Unwinder.Proofs.Registry

namespace Unwinder.ModuleSet
open Lib

variable {s : ModuleSet} {m data : ModuleData} {a key addr : UInt64}

/-- Of some modules, the last one with a section at an address has it mirrored there. -/
def lastMirror (ms : List ModuleData) (key : UInt64) : Option LocalSection :=
  (ms.filterMap (fun m => lastSection m.localSections key)).getLast?

theorem lastMirror_append (ms ns : List ModuleData) (key : UInt64) :
    lastMirror (ms ++ ns) key = (lastMirror ns key).or (lastMirror ms key) := by
  unfold lastMirror
  rw [List.filterMap_append, List.getLast?_append]

theorem lastMirror_singleton (m : ModuleData) (key : UInt64) :
    lastMirror [m] key = lastSection m.localSections key := by
  unfold lastMirror
  cases h : lastSection m.localSections key with
  | none => simp [h]
  | some sec => simp [h]

/-- Adding modules one after the other leaves, at each address, the last mirror there. -/
theorem redirects_foldl_add (ms : List ModuleData) (s : ModuleSet) (key : UInt64) :
    ((ms.foldl add s).redirects.get? key).map RedirectEntry.mirror =
      (lastMirror ms key).or ((s.redirects.get? key).map RedirectEntry.mirror) := by
  induction ms using List.reverseRecOn with
  | nil => rfl
  | append_singleton ms m ih =>
    rw [List.foldl_append, List.foldl_cons, List.foldl_nil, add, get?_addRedirects,
      lastMirror_append, lastMirror_singleton]
    cases lastSection m.localSections key with
    | none => exact ih
    | some sec => rfl

theorem modules_foldl_add (ms : List ModuleData) (s : ModuleSet) (start : UInt64) :
    (ms.foldl add s).modules.get? start =
      ((ms.filter (fun m => m.avmaRange.start = start)).getLast?).or (s.modules.get? start) := by
  induction ms using List.reverseRecOn with
  | nil => rfl
  | append_singleton ms m ih =>
    rw [List.foldl_append, List.foldl_cons, List.foldl_nil, add, OrderedMap.get?_insert, ih]
    by_cases h : m.avmaRange.start = start
    · rw [if_pos h.symm]
      simp [h]
    · rw [if_neg (fun he => h he.symm)]
      simp [h]

/-- A clone has the modules of the original. -/
theorem clone_modules (h : s.AtStarts) : s.clone.modules = s.modules := by
  apply OrderedMap.ext
  intro start
  unfold clone
  rw [modules_foldl_add, show ModuleSet.new.modules.get? start = none from rfl, Option.or_none]
  have hmem : ∀ m, m ∈ s.modules.values.filter (fun m => m.avmaRange.start = start) ↔
      s.modules.get? start = some m := by
    intro m
    rw [List.mem_filter, OrderedMap.values, List.mem_map]
    constructor
    · intro hm
      obtain ⟨⟨e, he, rfl⟩, hstart⟩ := hm
      have hg : s.modules.get? e.1 = some e.2 := OrderedMap.get?_eq_some.mpr he
      have hat := h e.1 e.2 hg
      rw [← of_decide_eq_true hstart, hat, hg]
    · intro hg
      exact ⟨⟨(start, m), OrderedMap.get?_eq_some.mp hg, rfl⟩, decide_eq_true (h start m hg)⟩
  apply Option.ext
  intro m
  constructor
  · intro hl
    exact (hmem m).mp (List.mem_of_getLast? hl)
  · intro hg
    obtain ⟨m', hl⟩ := List.getLast?_isSome.mpr (List.ne_nil_of_mem ((hmem m).mpr hg)) |>
      Option.isSome_iff_exists.mp
    have hm' := (hmem m').mp (List.mem_of_getLast? hl)
    rw [hg] at hm'
    rw [hl, hm']

/-- What a clone of these modules mirrors at an address: the section of the highest
one that has a section there. -/
def cloneMirror (modules : OrderedMap UInt64 ModuleData) (key : UInt64) : Option LocalSection :=
  lastMirror modules.values key

theorem clone_redirects (s : ModuleSet) (key : UInt64) :
    (s.clone.redirects.get? key).map RedirectEntry.mirror = cloneMirror s.modules key := by
  unfold clone cloneMirror
  rw [redirects_foldl_add]
  exact Option.or_none

section Modules

variable (modules : OrderedMap UInt64 ModuleData) (a key : UInt64)

theorem cloneMirror_insert (data : ModuleData) : cloneMirror (modules.insert a data) key =
    (cloneMirror (modules.above a) key).or
      ((lastSection data.localSections key).or (cloneMirror (modules.below a) key)) := by
  unfold cloneMirror
  rw [OrderedMap.values_insert, lastMirror_append, ← List.singleton_append, lastMirror_append,
    lastMirror_singleton, Option.or_assoc]

theorem cloneMirror_erase : cloneMirror (modules.erase a) key =
    (cloneMirror (modules.above a) key).or (cloneMirror (modules.below a) key) := by
  unfold cloneMirror
  rw [OrderedMap.values_erase, lastMirror_append]

/-- A module without a section at the address does not matter there. -/
theorem cloneMirror_erase_of_not_mem {modules : OrderedMap UInt64 ModuleData} {a key : UInt64}
    (h : ∀ m, modules.get? a = some m → key ∉ starts m) :
    cloneMirror (modules.erase a) key = cloneMirror modules key := by
  cases hg : modules.get? a with
  | none => rw [OrderedMap.erase_of_get? hg]
  | some m =>
    have hsplit := cloneMirror_insert modules a key m
    rw [OrderedMap.insert_of_get? hg, lastSection_eq_none.mpr (h m hg), Option.none_or] at hsplit
    rw [cloneMirror_erase, hsplit]

theorem cloneMirror_eq_none {modules : OrderedMap UInt64 ModuleData} {key : UInt64} :
    cloneMirror modules key = none ↔ ∀ start m, modules.get? start = some m → key ∉ starts m := by
  unfold cloneMirror lastMirror OrderedMap.values
  rw [List.getLast?_eq_none_iff, List.filterMap_eq_nil_iff]
  constructor
  · intro h start m hm
    exact lastSection_eq_none.mp (h m (List.mem_map_of_mem (OrderedMap.get?_eq_some.mp hm)))
  · intro h m hm
    obtain ⟨e, he, rfl⟩ := List.mem_map.mp hm
    exact lastSection_eq_none.mpr (h e.1 e.2 (OrderedMap.get?_eq_some.mpr he))

end Modules

/-- The set mirrors the same bytes at the same addresses as its clone. -/
def MirrorsAsCloned (s : ModuleSet) : Prop := ∀ key,
  (s.redirects.get? key).map (·.mirror.localPtr.bytes) =
    (cloneMirror s.modules key).map (·.localPtr.bytes)

/-- The operation leaves the mirrors that adding the modules in address order would
leave. A removed module shares no section start with another one. Where an added module
has a section, the highest module above it with a section there has the same bytes; and
where only the module that it replaces has one, another module has the bytes mirrored. -/
def MirrorsInOrder (s : ModuleSet) : SetOp → Prop
  | .remove a => ∀ old, s.modules.get? a = some old → ∀ start sec, start ≠ a →
      s.Registers start sec → sec.avmaStart ∉ starts old
  | .add parts cache =>
    let data := ModuleData.fromParts parts cache
    let a := data.avmaRange.start
    (∀ key sec top, lastSection data.localSections key = some sec →
      cloneMirror (s.modules.above a) key = some top → sec.localPtr.bytes = top.localPtr.bytes) ∧
    ∀ old, s.modules.get? a = some old → ∀ key ∈ starts old, key ∉ starts data →
      ∃ e other, s.redirects.get? key = some e ∧ cloneMirror (s.modules.erase a) key = some other ∧
        e.mirror.localPtr.bytes = other.localPtr.bytes

theorem others_none_iff {old : ModuleData} : (∀ start sec, start ≠ a → s.Registers start sec →
      sec.avmaStart ∉ starts old) ↔
    ∀ key ∈ starts old, cloneMirror (s.modules.erase a) key = none := by
  simp only [cloneMirror_eq_none, OrderedMap.get?_erase]
  constructor
  · intro h key hkey start m hm hin
    by_cases hs : start = a
    · rw [if_pos hs] at hm
      cases hm
    · rw [if_neg hs] at hm
      obtain ⟨sec, hsec, rfl⟩ := List.mem_map.mp hin
      exact h start sec hs ⟨m, hm, hsec⟩ hkey
  · intro h start sec hs hr hin
    obtain ⟨m, hm, hsec⟩ := hr
    exact h _ hin start m (by rw [if_neg hs, hm]) (List.mem_map_of_mem hsec)

theorem mirrorsAsCloned_remove_iff (h : s.MirrorsAsCloned) (a : UInt64) :
    s.MirrorsInOrder (.remove a) ↔ (s.remove a).MirrorsAsCloned := by
  cases hm : s.modules.get? a with
  | none =>
    rw [remove_absent hm]
    refine ⟨fun _ => h, fun _ old hold => ?_⟩
    rw [hm] at hold
    cases hold
  | some m =>
    have hcond : s.MirrorsInOrder (.remove a) ↔
        ∀ key ∈ starts m, cloneMirror (s.modules.erase a) key = none := by
      rw [← others_none_iff]
      constructor
      · intro h'
        exact h' m hm
      · intro h' old hold
        obtain rfl := Option.some.inj (hm.symm.trans hold)
        exact h'
    have hred : ∀ key, (s.remove a).redirects.get? key =
        if key ∈ starts m then none else s.redirects.get? key := by
      intro key
      simp only [remove, hm]
      exact get?_removeRedirects m s.redirects key
    rw [hcond]
    unfold MirrorsAsCloned
    rw [modules_remove hm]
    constructor
    · intro hnone key
      rw [hred]
      by_cases hk : key ∈ starts m
      · rw [if_pos hk, hnone key hk]
        rfl
      · rw [if_neg hk, h key, cloneMirror_erase_of_not_mem]
        intro m' hm'
        obtain rfl := Option.some.inj (hm.symm.trans hm')
        exact hk
    · intro hall key hk
      have hkey := hall key
      rw [hred, if_pos hk] at hkey
      exact Option.map_eq_none_iff.mp hkey.symm

/-- Where an added module has a section, the modules above it decide. -/
theorem added_mirror_iff {sec : LocalSection} (hsec : lastSection data.localSections key = some sec) :
    ((s.add data).redirects.get? key).map (·.mirror.localPtr.bytes) =
        (cloneMirror (s.add data).modules key).map (·.localPtr.bytes) ↔
      ∀ top, cloneMirror (s.modules.above data.avmaRange.start) key = some top →
        sec.localPtr.bytes = top.localPtr.bytes := by
  simp only [add, get?_addRedirects, cloneMirror_insert, hsec, Option.map_some, Option.some_or]
  cases cloneMirror (s.modules.above data.avmaRange.start) key with
  | none => simp
  | some top => simp

/-- Where it has none, the module that it replaces decides. -/
theorem kept_mirror_iff (h : s.MirrorsAsCloned) (hkey : key ∉ starts data) :
    ((s.add data).redirects.get? key).map (·.mirror.localPtr.bytes) =
        (cloneMirror (s.add data).modules key).map (·.localPtr.bytes) ↔
      ∀ old, s.modules.get? data.avmaRange.start = some old → key ∈ starts old →
        ∃ e other, s.redirects.get? key = some e ∧
          cloneMirror (s.modules.erase data.avmaRange.start) key = some other ∧
          e.mirror.localPtr.bytes = other.localPtr.bytes := by
  have hnone := lastSection_eq_none.mpr hkey
  have hred : (s.add data).redirects.get? key = s.redirects.get? key := by
    rw [add, get?_addRedirects, hnone]
    rfl
  have hmir : cloneMirror (s.add data).modules key =
      cloneMirror (s.modules.erase data.avmaRange.start) key := by
    rw [add, cloneMirror_insert, hnone, Option.none_or, cloneMirror_erase]
  rw [hred, hmir]
  constructor
  · intro heq old hold hin
    cases hr : s.redirects.get? key with
    | none =>
      have hk := h key
      rw [hr] at hk
      have hall := cloneMirror_eq_none.mp (Option.map_eq_none_iff.mp hk.symm)
      exact absurd hin (hall _ old hold)
    | some e =>
      rw [hr] at heq
      obtain ⟨other, hother, hbytes⟩ := Option.map_eq_some_iff.mp heq.symm
      exact ⟨e, other, rfl, hother, hbytes.symm⟩
  · intro hold
    by_cases hin : ∃ old, s.modules.get? data.avmaRange.start = some old ∧ key ∈ starts old
    · obtain ⟨old, hg, hk⟩ := hin
      obtain ⟨e, other, he, hother, hbytes⟩ := hold old hg hk
      rw [he, hother]
      exact congrArg some hbytes
    · rw [h key, cloneMirror_erase_of_not_mem]
      intro m hm hk
      exact hin ⟨m, hm, hk⟩

theorem mirrorsAsCloned_add_iff (h : s.MirrorsAsCloned) (parts : ModuleParts) (cache : Nat) :
    s.MirrorsInOrder (.add parts cache) ↔
      (s.add (ModuleData.fromParts parts cache)).MirrorsAsCloned := by
  constructor
  · intro hc key
    obtain ⟨hnew, hold⟩ := hc
    cases hl : lastSection (ModuleData.fromParts parts cache).localSections key with
    | some sec => exact (added_mirror_iff hl).mpr (fun top => hnew key sec top hl)
    | none =>
      have hkey := lastSection_eq_none.mp hl
      exact (kept_mirror_iff h hkey).mpr (fun old hg hin => hold old hg key hin hkey)
  · intro hall
    refine ⟨?_, ?_⟩
    · intro key sec top hl
      exact (added_mirror_iff hl).mp (hall key) top
    · intro old hg key hin hkey
      exact (kept_mirror_iff h hkey).mp (hall key) old hg hin

/-- A run mirrors what clones of its sets mirror throughout exactly if every step does. -/
theorem mirrorsAsCloned_iff (ops : List SetOp) :
    Always apply MirrorsAsCloned new ops ↔ EachStep apply MirrorsInOrder new ops := by
  refine always_iff_eachStep (I := fun _ => True) (fun _ _ _ _ => trivial) ?_ trivial
    (fun _ => rfl)
  intro s op _ _ h
  cases op with
  | add parts cache => exact mirrorsAsCloned_add_iff h parts cache
  | remove a => exact mirrorsAsCloned_remove_iff h a

/-- What a section at an address serves a read from. -/
def serve (addr key : UInt64) (bytes : Slice) : Option (Slice × Nat) :=
  if key ≤ addr ∧ saturatingAdd addr 8 ≤ saturatingAdd key (UInt64.ofNat bytes.len) then
    some (bytes, (addr - key).toNat)
  else none

/-- The bytes that a read is served from depend on what is mirrored where only. -/
theorem lookupLocal_bytes (h : s.Placed) (addr : UInt64) :
    (s.lookupLocal addr).map (Prod.map (·.bytes) id) =
      ((s.redirects.lastLE addr).map (Prod.map id (·.mirror.localPtr.bytes))).bind
        (fun p => serve addr p.1 p.2) := by
  unfold lookupLocal
  cases hl : s.redirects.lastLE addr with
  | none => rfl
  | some p =>
    obtain ⟨key, e⟩ := p
    have hg := (OrderedMap.lastLE_eq_some.mp hl).1
    have hmir : e.mirror.avmaEnd = _ := h.redirect key e hg
    obtain rfl := h.key key e hg
    simp only [Option.map_some, Prod.map, id, Option.bind_some, serve, hmir]
    split <;> rfl

theorem Placed.foldl_add {ms : List ModuleData} (h : s.Placed)
    (hms : ∀ m ∈ ms, ∀ sec ∈ m.localSections, sec.Mirrors) : (ms.foldl ModuleSet.add s).Placed := by
  induction ms generalizing s with
  | nil => exact h
  | cons m ms ih =>
    exact ih (h.add (hms m List.mem_cons_self)) (fun m' hm' => hms m' (List.mem_cons_of_mem _ hm'))

theorem Placed.clone (h : s.Placed) : s.clone.Placed := by
  refine Placed.new.foldl_add ?_
  intro m hm
  obtain ⟨e, he, rfl⟩ := List.mem_map.mp hm
  exact h.registered e.1 e.2 (OrderedMap.get?_eq_some.mpr he)

/-- The clone finds the same modules, whatever it then says about them. -/
structure ClonesModules (s : ModuleSet) : Prop where
  findModule : ∀ addr, s.clone.findModule addr = s.findModule addr
  hasUnwindInfo : ∀ addr, s.clone.hasUnwindInfo addr = s.hasUnwindInfo addr
  unwindInfoError : ∀ addr, s.clone.unwindInfoError addr = s.unwindInfoError addr
  isSignalFrame : ∀ caches addr, s.clone.isSignalFrame caches addr = s.isSignalFrame caches addr
  maxKnownCodeAddress : s.clone.maxKnownCodeAddress = s.maxKnownCodeAddress

/-- A clone gives the answers of the original: the same modules, and the same bytes at
the same offset for every read. -/
structure ClonesFaithfully (s : ModuleSet) : Prop extends ClonesModules s where
  lookupLocal : ∀ addr, (s.clone.lookupLocal addr).map (Prod.map (·.bytes) id) =
    (s.lookupLocal addr).map (Prod.map (·.bytes) id)

theorem clonesModules (h : s.AtStarts) : s.ClonesModules := by
  have hmods := clone_modules h
  have hfind : ∀ addr, s.clone.findModule addr = s.findModule addr := by
    intro addr
    unfold findModule
    rw [hmods]
  refine ⟨hfind, ?_, ?_, ?_, ?_⟩
  · intro addr
    unfold hasUnwindInfo
    rw [hfind]
  · intro addr
    unfold unwindInfoError
    rw [hfind]
  · intro caches addr
    unfold isSignalFrame
    rw [hfind]
  · unfold maxKnownCodeAddress
    rw [hmods]

theorem clonesFaithfully (hat : s.AtStarts) (hp : s.Placed) (h : s.MirrorsAsCloned) :
    s.ClonesFaithfully := by
  refine ⟨clonesModules hat, fun addr => ?_⟩
  rw [lookupLocal_bytes hp, lookupLocal_bytes hp.clone]
  congr 1
  refine OrderedMap.lastLE_congr ?_ addr
  intro key
  have hclone := congrArg (Option.map (·.localPtr.bytes)) (clone_redirects s key)
  rw [Option.map_map] at hclone
  exact hclone.trans (h key).symm

/-- In every state of a run the clone finds the modules of the original, and it serves
the same reads in every state of a run that mirrors sections in address order. -/
theorem clones_faithful (ops : List SetOp) : Always apply ClonesModules new ops ∧
    (EachStep apply MirrorsInOrder new ops → Always apply ClonesFaithfully new ops) := by
  refine ⟨always_iff_shorter.mpr (fun bs _ => clonesModules (atStarts_after bs)), ?_⟩
  intro h
  have hmirrors := always_iff_shorter.mp ((mirrorsAsCloned_iff ops).mpr h)
  refine always_iff_shorter.mpr ?_
  intro bs hbs
  exact clonesFaithfully (atStarts_after bs) (placed_after bs) (hmirrors bs hbs)

/-- Two images, the first of which is then removed. -/
def apartImages : List SetOp :=
  [.add (imageParts ⟨0x1000, 0x2000⟩ 0x5000) 0, .add (imageParts ⟨0x2000, 0x3000⟩ 0x6000) 1,
    .remove 0x1000]

theorem apartImages_inOrder : EachStep apply MirrorsInOrder new apartImages := by
  refine ⟨⟨?_, ?_⟩, ⟨?_, ?_⟩, ?_, trivial⟩
  · intro key sec top _ htop
    cases htop
  · intro old hold
    cases hold
  · intro key sec top _ htop
    cases htop
  · intro old hold
    cases hold
  · intro old hold start sec hne hr
    obtain rfl := Option.some.inj hold
    obtain ⟨m, hm, hsec⟩ := hr
    have hmem := OrderedMap.get?_eq_some.mp hm
    change (start, m) ∈ [(0x1000, _), (0x2000, _)] at hmem
    rcases List.mem_pair.mp hmem with he | he
    · exact absurd (Prod.mk.inj he).1 hne
    · obtain ⟨rfl, rfl⟩ := Prod.mk.inj he
      obtain rfl := List.mem_singleton.mp hsec
      change (0x6000 : UInt64) ∉ [0x5000]
      decide

theorem apartImages_clones : Always apply ClonesFaithfully new apartImages :=
  (clones_faithful apartImages).2 apartImages_inOrder

/-- The clone serves the section that the original no longer does. -/
theorem sharedImage_clone_differs :
    ((after sharedImage).lookupLocal 0x5000).isSome = false ∧
      ((after sharedImage).clone.lookupLocal 0x5000).isSome = true ∧
      ¬ Always apply ClonesFaithfully new sharedImage := by
  have hnone : ((after sharedImage).lookupLocal 0x5000).isSome = false := by decide +kernel
  have hsome : ((after sharedImage).clone.lookupLocal 0x5000).isSome = true := by decide +kernel
  refine ⟨hnone, hsome, ?_⟩
  intro h
  have hlast := (always_iff_shorter.mp h sharedImage List.prefix_rfl).lookupLocal 0x5000
  have heq := congrArg Option.isSome hlast
  rw [Option.isSome_map, Option.isSome_map] at heq
  exact absurd (hsome.symm.trans (heq.trans hnone)) (by decide)

end Unwinder.ModuleSet
