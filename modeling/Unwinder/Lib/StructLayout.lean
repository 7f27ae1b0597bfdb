import Mathlib.Data.List.GetD
import Unwinder.Lib.Words

namespace Unwinder.Lib.StructLayout

/-- The bytes from the address of a struct on. -/
abbrev Mem := Nat → UInt8

/-- A member of a struct: an integer of some bytes, aligned to its size, or a
bit-field of some bits in such an integer. -/
inductive Member where
  | int (size : Nat)
  | bits (unit width : Nat)
deriving DecidableEq

/-- Where a member is: some bits of the integer at an offset. -/
structure Place where
  offset : Nat
  size : Nat
  bit : Nat
  width : Nat
deriving DecidableEq

def alignUp (n a : Nat) : Nat := (n + a - 1) / a * a

/-- Places a member behind the bits taken so far. A bit-field goes into the aligned
unit that they end in as long as it fits, whatever else is in that unit. -/
def Member.place (taken : Nat) : Member → Place
  | int size => ⟨alignUp taken (8 * size) / 8, size, 0, 8 * size⟩
  | bits unit width =>
    let start := if taken % (8 * unit) + width ≤ 8 * unit then taken else alignUp taken (8 * unit)
    ⟨start / (8 * unit) * unit, unit, start % (8 * unit), width⟩

/-- The bits taken up to the end of a member. -/
def Place.stop (p : Place) : Nat := 8 * p.offset + p.bit + p.width

def layout (taken : Nat) : List Member → List Place
  | [] => []
  | m :: ms => m.place taken :: layout (m.place taken).stop ms

def Member.alignment : Member → Nat
  | int size => size
  | bits unit _ => unit

/-- The size of a struct: its last member's end, rounded up to the strictest alignment. -/
def byteSize (ms : List Member) : Nat :=
  let used := ((layout 0 ms).getLast?.map Place.stop).getD 0
  alignUp ((used + 7) / 8) ((ms.map Member.alignment).foldl max 1)

/-- Reads a member: its unit, shifted and masked. -/
def Place.load (p : Place) (mem : Mem) : Nat :=
  leValue ((List.range p.size).map (fun i => mem (p.offset + i))) / 2 ^ p.bit % 2 ^ p.width

/-- Writes an integer member. -/
def Place.store (p : Place) (v : Nat) (mem : Mem) : Mem := fun a =>
  if p.offset ≤ a then (leBytes p.size v).getD (a - p.offset) (mem a) else mem a

/-- Writes integer members over whatever bytes were there. -/
def storeAll : List (Place × Nat) → Mem → Mem
  | [], mem => mem
  | (p, v) :: rest, mem => storeAll rest (p.store v mem)

/-- The byte belongs to the unit of the member. -/
def Place.Holds (p : Place) (a : Nat) : Prop := p.offset ≤ a ∧ a < p.offset + p.size

instance Place.instDecidableHolds (p : Place) (a : Nat) : Decidable (p.Holds a) :=
  inferInstanceAs (Decidable (_ ∧ _))

variable {p q : Place} {v a : Nat} {mem : Mem}

theorem store_apart (h : ¬ p.Holds a) : p.store v mem a = mem a := by
  unfold Place.store
  split
  · next hle =>
    refine List.getD_eq_default _ _ ?_
    rw [leBytes_length]
    unfold Place.Holds at h
    omega
  · rfl

theorem storeAll_apart {fields : List (Place × Nat)} (h : ∀ f ∈ fields, ¬ f.1.Holds a) :
    storeAll fields mem a = mem a := by
  induction fields generalizing mem with
  | nil => rfl
  | cons f rest ih =>
    obtain ⟨p, v⟩ := f
    rw [storeAll, ih (fun f hf => h f (List.mem_cons_of_mem _ hf))]
    exact store_apart (h (p, v) List.mem_cons_self)

/-- A member depends on the bytes of its unit only. -/
theorem load_congr {mem' : Mem} (h : ∀ a, p.Holds a → mem a = mem' a) : p.load mem = p.load mem' := by
  unfold Place.load
  congr 3
  refine List.map_congr_left ?_
  intro i hi
  exact h _ ⟨by omega, by have := List.mem_range.mp hi; omega⟩

/-- An integer member reads back what was written last. -/
theorem load_store (hbit : p.bit = 0) (hwidth : p.width = 8 * p.size) (hv : v < 256 ^ p.size) :
    p.load (p.store v mem) = v := by
  have hbytes : (List.range p.size).map (fun i => p.store v mem (p.offset + i)) =
      leBytes p.size v := by
    refine List.ext_getElem (by simp) ?_
    intro i h1 h2
    rw [leBytes_length] at h2
    simp only [List.getElem_map, List.getElem_range, Place.store]
    rw [if_pos (by omega), Nat.add_sub_cancel_left, List.getD_eq_getElem]
  unfold Place.load
  rw [hbytes, leValue_leBytes_of_lt hv, hbit, hwidth, Nat.pow_zero, Nat.div_one, Nat.pow_mul]
  exact Nat.mod_eq_of_lt hv

/-- No byte belongs to both. -/
def Apart (p q : Place) : Prop := ∀ a, ¬ (p.Holds a ∧ q.Holds a)

/-- Members that share no byte all read back what was written. -/
theorem load_storeAll {fields : List (Place × Nat)}
    (hapart : fields.Pairwise (fun f g => Apart f.1 g.1))
    (hint : ∀ f ∈ fields, f.1.bit = 0 ∧ f.1.width = 8 * f.1.size ∧ f.2 < 256 ^ f.1.size)
    {f : Place × Nat} (hf : f ∈ fields) : f.1.load (storeAll fields mem) = f.2 := by
  induction fields generalizing mem with
  | nil => cases hf
  | cons g rest ih =>
    obtain ⟨hg, hrest⟩ := List.pairwise_cons.mp hapart
    rcases List.mem_cons.mp hf with rfl | hin
    · obtain ⟨hbit, hwidth, hv⟩ := hint f List.mem_cons_self
      have hkeep : f.1.load (storeAll rest (f.1.store f.2 mem)) = f.1.load (f.1.store f.2 mem) := by
        refine load_congr ?_
        intro a ha
        exact storeAll_apart (fun g' hg' hh => hg g' hg' a ⟨ha, hh⟩)
      exact hkeep.trans (load_store hbit hwidth hv)
    · exact ih hrest (fun f hf => hint f (List.mem_cons_of_mem _ hf)) hin

theorem le_alignUp (n : Nat) {a : Nat} (ha : 0 < a) : n ≤ alignUp n a := by
  have hdiv := Nat.div_add_mod (n + a - 1) a
  have hmod := Nat.mod_lt (n + a - 1) ha
  unfold alignUp
  rw [Nat.mul_comm]
  omega

/-- An integer starts behind the bits taken so far. -/
theorem taken_le_place (taken : Nat) {size : Nat} (h : 0 < size) :
    taken ≤ 8 * ((Member.int size).place taken).offset := by
  have hle := le_alignUp taken (a := 8 * size) (by omega)
  have hdvd : 8 ∣ alignUp taken (8 * size) := by
    unfold alignUp
    exact Dvd.dvd.mul_left (Nat.dvd_mul_right 8 size) _
  change taken ≤ 8 * (alignUp taken (8 * size) / 8)
  omega

/-- The members of a struct without bit-fields share no byte. -/
theorem layout_apart (sizes : List Nat) (h : ∀ size ∈ sizes, 0 < size) (taken : Nat) :
    (∀ p ∈ layout taken (sizes.map .int), taken ≤ 8 * p.offset) ∧
      (layout taken (sizes.map .int)).Pairwise Apart := by
  induction sizes generalizing taken with
  | nil => exact ⟨by simp [layout], List.Pairwise.nil⟩
  | cons size sizes ih =>
    obtain ⟨hbehind, hpair⟩ := ih (fun s hs => h s (List.mem_cons_of_mem _ hs))
      ((Member.int size).place taken).stop
    have hfirst := taken_le_place taken (h size List.mem_cons_self)
    simp only [List.map_cons, layout]
    refine ⟨?_, List.pairwise_cons.mpr ⟨?_, hpair⟩⟩
    · intro p hp
      rcases List.mem_cons.mp hp with rfl | hp
      · exact hfirst
      · have hle := hbehind p hp
        unfold Place.stop at hle
        omega
    · intro p hp a ha
      have hle := hbehind p hp
      obtain ⟨⟨-, h1⟩, h2, -⟩ := ha
      simp only [Place.stop, Member.place] at hle h1
      omega

theorem leValue_drop (bs : List UInt8) (k : Nat) : leValue bs / 256 ^ k = leValue (bs.drop k) := by
  induction k generalizing bs with
  | zero => simp
  | succ k ih =>
    cases bs with
    | nil => simp [leValue]
    | cons b bs =>
      have hb := b.toNat_lt
      rw [Nat.pow_succ', ← Nat.div_div_eq_div_mul, leValue, List.drop_succ_cons, ← ih bs]
      congr 1
      omega

theorem low_bits (b n : Nat) {j w : Nat} (h : j + w ≤ 8) :
    (b + 256 * n) / 2 ^ j % 2 ^ w = b / 2 ^ j % 2 ^ w := by
  have hsplit : 256 * n = 2 ^ j * (2 ^ w * (2 ^ (8 - (j + w)) * n)) := by
    rw [← Nat.mul_assoc, ← Nat.mul_assoc, ← Nat.pow_add, ← Nat.pow_add, Nat.add_sub_cancel' h]
  rw [hsplit, Nat.add_mul_div_left _ _ (Nat.two_pow_pos j), Nat.add_mul_mod_self_left]

/-- A bit-field in one byte is read from that byte. -/
theorem load_byte (hsize : p.bit / 8 < p.size) (hfit : p.bit % 8 + p.width ≤ 8) :
    p.load mem = (mem (p.offset + p.bit / 8)).toNat / 2 ^ (p.bit % 8) % 2 ^ p.width := by
  have hbyte : ((List.range p.size).map (fun i => mem (p.offset + i))).drop (p.bit / 8) =
      mem (p.offset + p.bit / 8) ::
        ((List.range p.size).map (fun i => mem (p.offset + i))).drop (p.bit / 8 + 1) := by
    rw [List.drop_eq_getElem_cons (by simpa using hsize)]
    simp
  have hshift : 2 ^ p.bit = 256 ^ (p.bit / 8) * 2 ^ (p.bit % 8) := by
    rw [show 256 = 2 ^ 8 from rfl, ← Nat.pow_mul, ← Nat.pow_add, Nat.div_add_mod]
  unfold Place.load
  rw [hshift, ← Nat.div_div_eq_div_mul, leValue_drop, hbyte, leValue]
  exact low_bits _ _ hfit

end Unwinder.Lib.StructLayout
