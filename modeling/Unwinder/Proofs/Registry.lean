import Unwinder.Proofs.Redirects

namespace Unwinder.ModuleSet
open Lib

variable {s : ModuleSet} {m : ModuleData} {start key : UInt64} {e : RedirectEntry}

/-- The module registered at an address has the section. -/
def Registers (s : ModuleSet) (start : UInt64) (sec : LocalSection) : Prop :=
  ∃ m, s.modules.get? start = some m ∧ sec ∈ m.localSections

/-- Every redirect is a section of a registered module, and so is every mirror
that a read is served from. -/
structure Current (s : ModuleSet) : Prop where
  redirect : ∀ key e, s.redirects.get? key = some e → ∃ start, s.Registers start e.mirror
  served : ∀ addr b off, s.lookupLocal addr = some (b, off) →
    ∃ start sec, s.Registers start sec ∧ sec.localPtr = b

/-- The starts of the sections that adding a module stores. -/
def starts (m : ModuleData) : List UInt64 := m.localSections.map LocalSection.avmaStart

/-- Adding a module at a registered address leaves no mirror of the module it
replaces: each redirect to one is overwritten, or another module has it too. -/
def ReplacesCleanly (s : ModuleSet) : SetOp → Prop
  | .remove _ => True
  | .add parts cache =>
    let data := ModuleData.fromParts parts cache
    ∀ old, s.modules.get? data.avmaRange.start = some old → ∀ sec ∈ old.localSections,
      (∃ e, s.redirects.get? sec.avmaStart = some e ∧ e.mirror = sec) →
      sec.avmaStart ∈ starts data ∨ ∃ start, start ≠ data.avmaRange.start ∧ s.Registers start sec

theorem current_of_redirects
    (h : ∀ key e, s.redirects.get? key = some e → ∃ start, s.Registers start e.mirror) :
    s.Current := by
  refine ⟨h, fun addr b off hl => ?_⟩
  unfold lookupLocal at hl
  cases hn : s.redirects.lastLE addr with
  | none => simp [hn] at hl
  | some p =>
    obtain ⟨key, e⟩ := p
    simp only [hn] at hl
    split at hl
    · obtain ⟨rfl, -⟩ := Prod.mk.inj (Option.some.inj hl)
      obtain ⟨start, hr⟩ := h key e (OrderedMap.lastLE_eq_some.mp hn).1
      exact ⟨start, e.mirror, hr, rfl⟩
    · cases hl

theorem registers_add {sec : LocalSection} (h : start ≠ m.avmaRange.start) :
    (s.add m).Registers start sec ↔ s.Registers start sec := by
  unfold Registers
  rw [add, OrderedMap.get?_insert_ne _ _ h]

theorem registers_add_self {sec : LocalSection} :
    (s.add m).Registers m.avmaRange.start sec ↔ sec ∈ m.localSections := by
  unfold Registers
  rw [add, OrderedMap.get?_insert_self]
  simp

theorem redirect_of_not_mem (hk : key ∉ starts m) (h : s.redirects.get? key = some e) :
    (s.add m).redirects.get? key = some e := by
  rw [add, get?_addRedirects, lastSection_eq_none.mpr hk]
  exact h

/-- Adding keeps the redirects current exactly if it replaces cleanly. -/
theorem current_add_iff (hp : s.Placed) (hc : s.Current) (parts : ModuleParts) (cache : Nat) :
    s.ReplacesCleanly (.add parts cache) ↔ (s.apply (.add parts cache)).Current := by
  change (∀ old, _ → _) ↔ (s.add (ModuleData.fromParts parts cache)).Current
  generalize ModuleData.fromParts parts cache = data
  constructor
  · intro h
    apply current_of_redirects
    intro key e he
    rcases redirect_add he with ⟨hl, -⟩ | ⟨hk, ho⟩
    · exact ⟨data.avmaRange.start, registers_add_self.mpr (mem_of_lastSection hl).1⟩
    obtain ⟨start, hr⟩ := hc.redirect key e ho
    by_cases hs : start = data.avmaRange.start
    · subst hs
      obtain ⟨old, hold, hsec⟩ := hr
      have hkey := hp.key key e ho
      rcases h old hold e.mirror hsec ⟨e, by rw [hkey, ho], rfl⟩ with hin | ⟨start', hne, hr'⟩
      · exact absurd (hkey ▸ hin) hk
      · exact ⟨start', (registers_add hne).mpr hr'⟩
    · exact ⟨start, (registers_add hs).mpr hr⟩
  · intro h old hold sec hsec hred
    obtain ⟨e, he, rfl⟩ := hred
    by_cases hin : e.mirror.avmaStart ∈ starts data
    · exact .inl hin
    obtain ⟨start, hr⟩ := h.redirect _ e (redirect_of_not_mem hin he)
    by_cases hs : start = data.avmaRange.start
    · subst hs
      exact absurd (List.mem_map_of_mem (registers_add_self.mp hr)) hin
    · exact .inr ⟨start, hs, (registers_add hs).mp hr⟩

/-- Removing a module drops every redirect to one of its sections. -/
theorem Current.remove (hp : s.Placed) (hc : s.Current) (start : UInt64) :
    (s.remove start).Current := by
  cases hm : s.modules.get? start with
  | none =>
    rw [remove_absent hm]
    exact hc
  | some m =>
    apply current_of_redirects
    intro key e he
    obtain ⟨hk, ho⟩ := redirect_remove hm he
    obtain ⟨start', m', hm', hsec⟩ := hc.redirect key e ho
    have hne : start' ≠ start := by
      intro hs
      subst hs
      obtain rfl := Option.some.inj (hm.symm.trans hm')
      exact hk (hp.key key e ho ▸ List.mem_map_of_mem hsec)
    refine ⟨start', m', ?_, hsec⟩
    rw [modules_remove hm, OrderedMap.get?_erase, if_neg hne]
    exact hm'

theorem Current.new : Current new :=
  current_of_redirects (fun _ _ h => by cases h)

/-- A sequence of operations keeps every redirect current throughout exactly if
every module it adds in the place of another replaces that one cleanly. -/
theorem redirects_current_iff (ops : List SetOp) :
    Always apply Current new ops ↔ EachStep apply ReplacesCleanly new ops := by
  refine always_iff_eachStep (I := Placed) (fun _ op _ h => h.apply op) ?_ Placed.new Current.new
  intro s op _ hp hc
  cases op with
  | add parts cache => exact current_add_iff hp hc parts cache
  | remove start => exact ⟨fun _ => hc.remove hp start, fun _ => trivial⟩

/-- One loaded image at a range, with its `.eh_frame` at an address. -/
def imageParts (range : AddrRange) (frame : UInt64) : ModuleParts where
  name := "image"
  avmaRange := range
  baseAvma := 0
  baseSvma := 0
  textSvma := none
  ehFrameSvma := some ⟨frame, frame + 8⟩
  ehFrame := some ⟨frame.toNat, ⟨List.replicate 8 0, by simp⟩⟩
  ehFrameHdrSvma := none
  ehFrameHdr := none

/-- Adding an image at the address of another leaves a redirect to the old one. -/
theorem replaced_image_still_mirrored :
    ¬ Always apply Current new
      [.add (imageParts ⟨0x1000, 0x2000⟩ 0x5000) 0, .add (imageParts ⟨0x1000, 0x2000⟩ 0x6000) 1] := by
  intro h
  obtain ⟨start, m, hm, hsec⟩ := h.2.2.redirect 0x5000 _ rfl
  have hmem := OrderedMap.get?_eq_some.mp hm
  obtain ⟨-, rfl⟩ := Prod.mk.inj (List.mem_singleton.mp hmem)
  have heq := congrArg LocalSection.avmaStart (List.mem_singleton.mp hsec)
  exact absurd heq (by decide)

/-- The addresses a section covers. -/
def Covers (sec : LocalSection) (addr : UInt64) : Prop :=
  sec.avmaStart ≤ addr ∧ addr < sec.avmaEnd

/-- Two sections share no address, or cover the same ones with the same bytes. -/
def Compatible (a b : LocalSection) : Prop :=
  (∀ addr, ¬ (Covers a addr ∧ Covers b addr)) ∨
    (a.avmaStart = b.avmaStart ∧ a.avmaEnd = b.avmaEnd ∧
      a.localPtr.bytes.data = b.localPtr.bytes.data)

/-- The sections that an operation brings in. -/
def brought : SetOp → List LocalSection
  | .add parts cache => (ModuleData.fromParts parts cache).localSections
  | .remove _ => []

def SectionsAgree (ops : List SetOp) : Prop :=
  ∀ a ∈ ops.flatMap brought, ∀ b ∈ ops.flatMap brought, Compatible a b

/-- A redirect at the start of the section covers the same addresses. -/
def Served (s : ModuleSet) (sec : LocalSection) : Prop :=
  ∃ e, s.redirects.get? sec.avmaStart = some e ∧ e.mirror.avmaStart = sec.avmaStart ∧
    e.mirror.avmaEnd = sec.avmaEnd

/-- Every section of a registered module that has bytes is served. -/
def AllServed (s : ModuleSet) : Prop :=
  ∀ start sec, s.Registers start sec → 0 < sec.localPtr.bytes.len → s.Served sec

/-- The operation withdraws no mirror in use: a removed module shares no section
start with a section of another module, and the section that an added module
stores at the start of one that stays is not empty (at the last address of
all, where the end saturates, it may be). -/
def KeepsServed (s : ModuleSet) : SetOp → Prop
  | .remove start => ∀ old, s.modules.get? start = some old → ∀ start' sec, start' ≠ start →
      s.Registers start' sec → 0 < sec.localPtr.bytes.len → sec.avmaStart ∉ starts old
  | .add parts cache =>
    let data := ModuleData.fromParts parts cache
    ∀ sec, (sec ∈ data.localSections ∨
        ∃ start, start ≠ data.avmaRange.start ∧ s.Registers start sec) →
      0 < sec.localPtr.bytes.len → ∀ stored, lastSection data.localSections sec.avmaStart = some stored →
      0 < stored.localPtr.bytes.len ∨ sec.avmaStart.toNat = 2 ^ 64 - 1

theorem registers_add_cases {sec : LocalSection} : (∃ start, (s.add m).Registers start sec) ↔
    sec ∈ m.localSections ∨ ∃ start, start ≠ m.avmaRange.start ∧ s.Registers start sec := by
  constructor
  · intro h
    obtain ⟨start, hr⟩ := h
    by_cases hs : start = m.avmaRange.start
    · subst hs
      exact .inl (registers_add_self.mp hr)
    · exact .inr ⟨start, hs, (registers_add hs).mp hr⟩
  · intro h
    rcases h with hin | ⟨start, hne, hr⟩
    · exact ⟨_, registers_add_self.mpr hin⟩
    · exact ⟨start, (registers_add hne).mpr hr⟩

/-- Sections with bytes at one start that agree end at one address. -/
theorem same_end {a b : LocalSection} (ha : a.Mirrors) (hb : b.Mirrors) (hab : Compatible a b)
    (hs : a.avmaStart = b.avmaStart) (hla : 0 < a.localPtr.bytes.len)
    (hlb : 0 < b.localPtr.bytes.len) : a.avmaEnd = b.avmaEnd := by
  rcases hab with hdis | ⟨-, he, -⟩
  · have hea := ha.avmaEnd
    have heb := hb.avmaEnd
    have hna := hdis a.avmaStart
    have hlt := a.avmaStart.toNat_lt
    unfold Covers at hna
    rw [← hs] at hna
    simp only [UInt64.le_iff_toNat_le, UInt64.lt_iff_toNat_lt] at hna
    unfold LocalSection.byteEnd at hea heb
    rw [← hs] at heb
    apply UInt64.toNat.inj
    omega
  · exact he

/-- An empty section ends where it starts, and one with bytes later, below the
last address. -/
theorem end_ne_of_empty {a b : LocalSection} (ha : a.Mirrors) (hb : b.Mirrors)
    (hs : a.avmaStart = b.avmaStart) (hla : ¬ 0 < a.localPtr.bytes.len)
    (hlb : 0 < b.localPtr.bytes.len) (htop : b.avmaStart.toNat ≠ 2 ^ 64 - 1) :
    a.avmaEnd ≠ b.avmaEnd := by
  intro he
  have hea := ha.avmaEnd
  have heb := hb.avmaEnd
  have hlt := b.avmaStart.toNat_lt
  unfold LocalSection.byteEnd at hea heb
  rw [he, hs] at hea
  omega

/-- At the last address all sections end. -/
theorem same_end_at_top {a b : LocalSection} (ha : a.Mirrors) (hb : b.Mirrors)
    (hs : a.avmaStart = b.avmaStart) (htop : b.avmaStart.toNat = 2 ^ 64 - 1) :
    a.avmaEnd = b.avmaEnd := by
  have hea := ha.avmaEnd
  have heb := hb.avmaEnd
  unfold LocalSection.byteEnd at hea heb
  rw [hs] at hea
  apply UInt64.toNat.inj
  omega

/-- What the sections known so far satisfy, when all come from one pool. -/
structure FromPool (pool : List LocalSection) (s : ModuleSet) : Prop where
  placed : s.Placed
  known : ∀ start sec, s.Registers start sec → sec ∈ pool

theorem allServed_add_iff {pool : List LocalSection}
    (hagree : ∀ a ∈ pool, ∀ b ∈ pool, Compatible a b) (hi : FromPool pool s) (hs : s.AllServed)
    (hmir : ∀ sec ∈ m.localSections, sec.Mirrors) (hpool : ∀ sec ∈ m.localSections, sec ∈ pool) :
    (∀ sec, (sec ∈ m.localSections ∨ ∃ start, start ≠ m.avmaRange.start ∧ s.Registers start sec) →
      0 < sec.localPtr.bytes.len → ∀ stored, lastSection m.localSections sec.avmaStart = some stored →
      0 < stored.localPtr.bytes.len ∨ sec.avmaStart.toNat = 2 ^ 64 - 1) ↔ (s.add m).AllServed := by
  have hknown : ∀ sec, (sec ∈ m.localSections ∨
      ∃ start, start ≠ m.avmaRange.start ∧ s.Registers start sec) → sec ∈ pool ∧ sec.Mirrors := by
    intro sec hsec
    rcases hsec with hin | ⟨start, -, hr⟩
    · exact ⟨hpool sec hin, hmir sec hin⟩
    · obtain ⟨m', hm', hin⟩ := hr
      exact ⟨hi.known start sec ⟨m', hm', hin⟩, hi.placed.registered start m' hm' sec hin⟩
  constructor
  · intro h start sec hr hlen
    have hsec := registers_add_cases.mp ⟨start, hr⟩
    obtain ⟨hsp, hsm⟩ := hknown sec hsec
    cases hl : lastSection m.localSections sec.avmaStart with
    | some stored =>
      obtain ⟨hin, hstart⟩ := mem_of_lastSection hl
      refine ⟨⟨stored, m⟩, ?_, hstart, ?_⟩
      · rw [add, get?_addRedirects, hl]
        rfl
      · rcases h sec hsec hlen stored hl with hpos | htop
        · exact same_end (hmir stored hin) hsm (hagree _ (hpool stored hin) _ hsp) hstart hpos hlen
        · exact same_end_at_top (hmir stored hin) hsm hstart htop
    | none =>
      have hout := lastSection_eq_none.mp hl
      rcases hsec with hin | ⟨start', -, hr'⟩
      · exact absurd (List.mem_map_of_mem hin) hout
      · obtain ⟨e, he, hst, hen⟩ := hs start' sec hr' hlen
        exact ⟨e, redirect_of_not_mem hout he, hst, hen⟩
  · intro h sec hsec hlen stored hl
    obtain ⟨hsp, hsm⟩ := hknown sec hsec
    obtain ⟨start, hr⟩ := registers_add_cases.mpr hsec
    obtain ⟨e, he, -, hend⟩ := h start sec hr hlen
    obtain ⟨hin, hstart⟩ := mem_of_lastSection hl
    rw [add, get?_addRedirects, hl] at he
    obtain rfl := Option.some.inj he
    by_contra hno
    rw [not_or] at hno
    exact end_ne_of_empty (hmir stored hin) hsm hstart hno.1 hlen hno.2 hend

theorem allServed_remove_iff (hs : s.AllServed) (start : UInt64) :
    s.KeepsServed (.remove start) ↔ (s.remove start).AllServed := by
  cases hm : s.modules.get? start with
  | none =>
    rw [remove_absent hm]
    refine ⟨fun _ => hs, fun _ old hold => ?_⟩
    rw [hm] at hold
    cases hold
  | some m =>
    have hreg : ∀ start' sec, (s.remove start).Registers start' sec ↔
        start' ≠ start ∧ s.Registers start' sec := by
      intro start' sec
      unfold Registers
      rw [modules_remove hm, OrderedMap.get?_erase]
      by_cases he : start' = start
      · simp [he]
      · simp [he]
    have hred : ∀ key, (s.remove start).redirects.get? key =
        if key ∈ starts m then none else s.redirects.get? key := by
      intro key
      simp only [remove, hm]
      exact get?_removeRedirects m s.redirects key
    constructor
    · intro h start' sec hr hlen
      obtain ⟨hne, hr⟩ := (hreg start' sec).mp hr
      obtain ⟨e, he, hst, hen⟩ := hs start' sec hr hlen
      exact ⟨e, by rw [hred, if_neg (h m hm start' sec hne hr hlen)]; exact he, hst, hen⟩
    · intro h old hold start' sec hne hr hlen hin
      obtain rfl := Option.some.inj (hm.symm.trans hold)
      obtain ⟨e, he, -⟩ := h start' sec ((hreg start' sec).mpr ⟨hne, hr⟩) hlen
      rw [hred, if_pos hin] at he
      cases he

theorem FromPool.apply {pool : List LocalSection} (h : FromPool pool s) {op : SetOp}
    (hop : ∀ sec ∈ brought op, sec ∈ pool) : FromPool pool (s.apply op) := by
  refine ⟨h.placed.apply op, ?_⟩
  cases op with
  | add parts cache =>
    intro start sec hr
    rcases registers_add_cases.mp ⟨start, hr⟩ with hin | ⟨start', -, hr'⟩
    · exact hop sec hin
    · exact h.known start' sec hr'
  | remove start =>
    intro start' sec hr
    obtain ⟨m', hm', hin⟩ := hr
    apply h.known start' sec
    cases hm : s.modules.get? start with
    | none =>
      rw [ModuleSet.apply, remove_absent hm] at hm'
      exact ⟨m', hm', hin⟩
    | some m =>
      rw [ModuleSet.apply, modules_remove hm, OrderedMap.get?_erase] at hm'
      split at hm'
      · cases hm'
      · exact ⟨m', hm', hin⟩

/-- Over sections that agree, a sequence of operations keeps every section with
bytes served throughout exactly if no operation withdraws a mirror in use. -/
theorem sections_served_iff (ops : List SetOp) (hagree : SectionsAgree ops) :
    Always apply AllServed new ops ↔ EachStep apply KeepsServed new ops := by
  have hpool : ∀ op ∈ ops, ∀ sec ∈ brought op, sec ∈ ops.flatMap brought :=
    fun op hop sec hsec => List.mem_flatMap.mpr ⟨op, hop, hsec⟩
  refine always_iff_eachStep (I := FromPool (ops.flatMap brought))
    (fun s op hop h => h.apply (hpool op hop)) ?_ ⟨Placed.new, ?_⟩ ?_
  · intro s op hop hi hs
    cases op with
    | add parts cache =>
      exact allServed_add_iff hagree hi hs (ModuleData.fromParts_mirrors parts cache) (hpool _ hop)
    | remove start => exact allServed_remove_iff hs start
  · intro start sec hr
    obtain ⟨m, hm, -⟩ := hr
    cases hm
  · intro start sec hr
    obtain ⟨m, hm, -⟩ := hr
    cases hm

/-- Two ranges of one loaded image, the first of which is then removed. -/
def sharedImage : List SetOp :=
  [.add (imageParts ⟨0x1000, 0x2000⟩ 0x5000) 0, .add (imageParts ⟨0x2000, 0x3000⟩ 0x5000) 1,
    .remove 0x1000]

theorem sharedImage_agrees : SectionsAgree sharedImage := by
  have hone : ∀ sec ∈ sharedImage.flatMap brought, sec = LocalSection.ofBytes 0x5000
      ⟨0x5000, ⟨List.replicate 8 0, by simp⟩⟩ := by
    intro sec hsec
    change sec ∈ [_, _] at hsec
    simp only [List.mem_cons, List.not_mem_nil, or_false] at hsec
    rcases hsec with rfl | rfl
    · rfl
    · rfl
  intro a ha b hb
  rw [hone a ha, hone b hb]
  exact .inr ⟨rfl, rfl, rfl⟩

theorem sharedImage_served_iff : SectionsAgree sharedImage ∧
    (Always apply AllServed new sharedImage ↔ EachStep apply KeepsServed new sharedImage) :=
  ⟨sharedImage_agrees, sections_served_iff sharedImage sharedImage_agrees⟩

/-- The range that stays is no longer served. -/
theorem sharedImage_not_served :
    SectionsAgree sharedImage ∧ ¬ Always apply AllServed new sharedImage := by
  refine ⟨sharedImage_agrees, fun h => ?_⟩
  have hlast := h.2.2.2 0x2000 (LocalSection.ofBytes 0x5000 ⟨0x5000, ⟨List.replicate 8 0, by simp⟩⟩)
    ⟨_, rfl, List.mem_singleton.mpr rfl⟩ (by decide)
  obtain ⟨e, he, -⟩ := hlast
  cases he

end Unwinder.ModuleSet
