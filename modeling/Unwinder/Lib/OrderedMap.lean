import Mathlib.Data.List.Nodup
import Mathlib.Data.List.Sort

namespace Unwinder.Lib

/-- A finite map kept as its entries in strictly increasing key order. -/
structure OrderedMap (K V : Type) [LinearOrder K] where
  entries : List (K × V)
  sorted : entries.Pairwise (fun a b => a.1 < b.1)

namespace OrderedMap

variable {K V : Type} [LinearOrder K]

def empty : OrderedMap K V := ⟨[], List.Pairwise.nil⟩

/-- The value stored at a key. -/
def get? (m : OrderedMap K V) (k : K) : Option V :=
  (m.entries.find? (fun e => e.1 == k)).map Prod.snd

/-- Binds a key, replacing the value it had. -/
def insert (m : OrderedMap K V) (k : K) (v : V) : OrderedMap K V where
  entries := m.entries.filter (fun e => e.1 < k) ++ (k, v) :: m.entries.filter (fun e => k < e.1)
  sorted := by
    refine List.pairwise_append.mpr ⟨m.sorted.filter _, ?_, ?_⟩
    · exact List.pairwise_cons.mpr ⟨fun e he => by simpa using (List.mem_filter.mp he).2,
        m.sorted.filter _⟩
    · intro a ha b hb
      have hak : a.1 < k := by simpa using (List.mem_filter.mp ha).2
      rcases List.mem_cons.mp hb with he | hb
      · exact he ▸ hak
      · exact lt_trans hak (by simpa using (List.mem_filter.mp hb).2)

/-- Unbinds a key. -/
def erase (m : OrderedMap K V) (k : K) : OrderedMap K V :=
  ⟨m.entries.filter (fun e => e.1 != k), m.sorted.filter _⟩

/-- The entry with the greatest key not above `k`. -/
def lastLE (m : OrderedMap K V) (k : K) : Option (K × V) :=
  (m.entries.filter (fun e => e.1 ≤ k)).getLast?

/-- The values in key order. -/
def values (m : OrderedMap K V) : List V := m.entries.map Prod.snd

theorem key_unique (m : OrderedMap K V) {k : K} {v w : V}
    (hv : (k, v) ∈ m.entries) (hw : (k, w) ∈ m.entries) : v = w := by
  have hkeys : (m.entries.map Prod.fst).Pairwise (· < ·) := List.pairwise_map.mpr m.sorted
  have h := List.inj_on_of_nodup_map hkeys.nodup hv hw rfl
  exact (Prod.mk.inj h).2

/-- Looking a key up is membership of its entry. -/
theorem get?_eq_some {m : OrderedMap K V} {k : K} {v : V} :
    m.get? k = some v ↔ (k, v) ∈ m.entries := by
  constructor
  · intro h
    obtain ⟨e, hf, rfl⟩ := Option.map_eq_some_iff.mp h
    have hk : e.1 = k := by simpa using List.find?_some hf
    exact hk ▸ List.mem_of_find?_eq_some hf
  · intro h
    cases hf : m.entries.find? (fun e => e.1 == k) with
    | none =>
      have := List.find?_eq_none.mp hf (k, v) h
      simp at this
    | some e =>
      have hk : e.1 = k := by simpa using List.find?_some hf
      have hm := List.mem_of_find?_eq_some hf
      have : e.2 = v := m.key_unique (k := k) (hk ▸ hm) h
      simp [get?, hf, this]

@[simp] theorem get?_empty (k : K) : (empty : OrderedMap K V).get? k = none := rfl

@[simp] theorem get?_insert_self (m : OrderedMap K V) (k : K) (v : V) :
    (m.insert k v).get? k = some v :=
  get?_eq_some.mpr (by simp [insert])

theorem get?_insert_ne (m : OrderedMap K V) {k j : K} (v : V) (h : j ≠ k) :
    (m.insert k v).get? j = m.get? j := by
  apply Option.ext
  intro w
  rw [get?_eq_some, get?_eq_some]
  have hlt : j < k ∨ k < j := lt_or_gt_of_ne h
  simp only [insert, List.mem_append, List.mem_filter, List.mem_cons, Prod.mk.injEq, h,
    decide_eq_true_eq]
  tauto

theorem get?_insert (m : OrderedMap K V) (k j : K) (v : V) :
    (m.insert k v).get? j = if j = k then some v else m.get? j := by
  split
  · next h => rw [h, get?_insert_self]
  · next h => exact m.get?_insert_ne v h

theorem get?_erase (m : OrderedMap K V) (k j : K) :
    (m.erase k).get? j = if j = k then none else m.get? j := by
  apply Option.ext
  intro w
  rw [get?_eq_some]
  split
  · next h => simp [erase, h]
  · next h => simp [erase, h, get?_eq_some]

/-- Maps that agree on every lookup are equal. -/
theorem ext {m m' : OrderedMap K V} (h : ∀ k, m.get? k = m'.get? k) : m = m' := by
  have hmem : ∀ e, e ∈ m.entries ↔ e ∈ m'.entries := fun e => by
    rw [← get?_eq_some, ← get?_eq_some, h]
  have hirr : Std.Irrefl (fun a b : K × V => a.1 < b.1) := ⟨fun a => lt_irrefl a.1⟩
  have hperm := (List.perm_ext_iff_of_nodup m.sorted.nodup m'.sorted.nodup).mpr hmem
  have he : m.entries = m'.entries := hperm.eq_of_pairwise
    (fun a b _ _ hab hba => absurd hab (lt_asymm hba)) m.sorted m'.sorted
  cases m
  cases m'
  cases he
  rfl

/-- Binding a key to the value it already has changes nothing. -/
theorem insert_of_get? {m : OrderedMap K V} {k : K} {v : V} (h : m.get? k = some v) :
    m.insert k v = m := by
  apply ext
  intro j
  rw [get?_insert]
  split
  · next hj => rw [hj, h]
  · rfl

/-- The predecessor is the bound key nearest below, and nothing lies between. -/
theorem lastLE_eq_some {m : OrderedMap K V} {k j : K} {v : V} :
    m.lastLE k = some (j, v) ↔
      m.get? j = some v ∧ j ≤ k ∧ ∀ i, (m.get? i).isSome → i ≤ k → i ≤ j := by
  have hsorted := m.sorted.filter (fun e => decide (e.1 ≤ k))
  constructor
  · intro h
    obtain ⟨ys, he⟩ := List.getLast?_eq_some_iff.mp h
    have hmem := List.mem_filter.mp (List.mem_of_getLast? h)
    refine ⟨get?_eq_some.mpr hmem.1, by simpa using hmem.2, ?_⟩
    intro i hi hik
    obtain ⟨w, hw⟩ := Option.isSome_iff_exists.mp hi
    have hin : (i, w) ∈ m.entries.filter (fun e => decide (e.1 ≤ k)) :=
      List.mem_filter.mpr ⟨get?_eq_some.mp hw, by simpa using hik⟩
    rw [he] at hin hsorted
    rcases List.mem_append.mp hin with hin | hin
    · exact le_of_lt ((List.pairwise_append.mp hsorted).2.2 _ hin (j, v) (by simp))
    · simp only [List.mem_singleton, Prod.mk.injEq] at hin
      exact le_of_eq hin.1
  · intro h
    obtain ⟨hg, hjk, hmax⟩ := h
    have hin : (j, v) ∈ m.entries.filter (fun e => decide (e.1 ≤ k)) :=
      List.mem_filter.mpr ⟨get?_eq_some.mp hg, by simpa using hjk⟩
    cases hl : m.lastLE k with
    | none => simp [List.getLast?_eq_none_iff.mp hl] at hin
    | some e =>
      -- both the last entry and (j, v) bound each other's key
      obtain ⟨ys, he⟩ := List.getLast?_eq_some_iff.mp hl
      have hem := List.mem_filter.mp (List.mem_of_getLast? hl)
      have hle : e.1 ≤ j := hmax e.1 (by rw [get?_eq_some.mpr hem.1]; rfl) (by simpa using hem.2)
      rw [he] at hin hsorted
      rcases List.mem_append.mp hin with hin | hin
      · have hlt := (List.pairwise_append.mp hsorted).2.2 _ hin e (by simp)
        exact absurd hlt (not_lt.mpr hle)
      · rw [List.mem_singleton.mp hin]

theorem lastLE_eq_none {m : OrderedMap K V} {k : K} :
    m.lastLE k = none ↔ ∀ i, (m.get? i).isSome → k < i := by
  rw [lastLE, List.getLast?_eq_none_iff, List.filter_eq_nil_iff]
  constructor
  · intro h i hi
    obtain ⟨w, hw⟩ := Option.isSome_iff_exists.mp hi
    simpa using h (i, w) (get?_eq_some.mp hw)
  · intro h e he
    simpa using h e.1 (by rw [get?_eq_some.mpr he]; rfl)

/-- Maps that bind the same keys to values that look alike have predecessors that do. -/
theorem lastLE_congr {V' W : Type} {m : OrderedMap K V} {m' : OrderedMap K V'} {f : V → W}
    {g : V' → W} (h : ∀ k, (m.get? k).map f = (m'.get? k).map g) (k : K) :
    (m.lastLE k).map (Prod.map id f) = (m'.lastLE k).map (Prod.map id g) := by
  have hsome : ∀ j, (m.get? j).isSome = (m'.get? j).isSome := by
    intro j
    have hj := congrArg Option.isSome (h j)
    rwa [Option.isSome_map, Option.isSome_map] at hj
  cases hm : m.lastLE k with
  | none =>
    have hm' : m'.lastLE k = none := by
      refine lastLE_eq_none.mpr (fun i hi => lastLE_eq_none.mp hm i ?_)
      rwa [hsome]
    rw [hm']
    rfl
  | some e =>
    obtain ⟨j, v⟩ := e
    obtain ⟨hg, hle, hmax⟩ := lastLE_eq_some.mp hm
    have hj := h j
    rw [hg] at hj
    obtain ⟨v', hg', hv⟩ := Option.map_eq_some_iff.mp hj.symm
    have hm' : m'.lastLE k = some (j, v') := by
      refine lastLE_eq_some.mpr ⟨hg', hle, fun i hi => hmax i ?_⟩
      rwa [hsome]
    rw [hm']
    simp only [Option.map_some, Prod.map, id, hv]

/-- The part of a map below a key. -/
def below (m : OrderedMap K V) (k : K) : OrderedMap K V :=
  ⟨m.entries.filter (fun e => e.1 < k), m.sorted.filter _⟩

/-- The part of a map above a key. -/
def above (m : OrderedMap K V) (k : K) : OrderedMap K V :=
  ⟨m.entries.filter (fun e => k < e.1), m.sorted.filter _⟩

theorem values_insert (m : OrderedMap K V) (k : K) (v : V) :
    (m.insert k v).values = (m.below k).values ++ v :: (m.above k).values := by
  simp [values, insert, below, above]

/-- The entries at other keys are those below a key, then those above it. -/
theorem values_erase (m : OrderedMap K V) (k : K) :
    (m.erase k).values = (m.below k).values ++ (m.above k).values := by
  have hsorted := m.sorted
  unfold values
  rw [← List.map_append]
  congr 1
  simp only [erase, below, above]
  generalize m.entries = es at hsorted
  induction es with
  | nil => rfl
  | cons e es ih =>
    obtain ⟨hhead, htail⟩ := List.pairwise_cons.mp hsorted
    rcases lt_trichotomy e.1 k with hlt | heq | hgt
    · rw [List.filter_cons_of_pos (by simpa using ne_of_lt hlt), ih htail,
        List.filter_cons_of_pos (by simpa using hlt),
        List.filter_cons_of_neg (by simpa using le_of_lt hlt)]
      rfl
    · rw [List.filter_cons_of_neg (by simpa using heq), ih htail,
        List.filter_cons_of_neg (by simp [heq]), List.filter_cons_of_neg (by simp [heq])]
    · have hnone : es.filter (fun e => decide (e.1 < k)) = [] := by
        refine List.filter_eq_nil_iff.mpr (fun f hf => ?_)
        simpa using le_of_lt (lt_trans hgt (hhead f hf))
      rw [List.filter_cons_of_pos (by simpa using ne_of_gt hgt), ih htail,
        List.filter_cons_of_neg (by simpa using le_of_lt hgt),
        List.filter_cons_of_pos (by simpa using hgt), hnone]
      rfl

theorem erase_of_get? {m : OrderedMap K V} {k : K} (h : m.get? k = none) : m.erase k = m := by
  apply ext
  intro j
  rw [get?_erase]
  split
  · next hj => rw [hj, h]
  · rfl

/-- A change at one key. -/
inductive Write (K V : Type) where
  | put (k : K) (v : V)
  | delete (k : K)

def Write.key : Write K V → K
  | put k _ | delete k => k

def write (m : OrderedMap K V) : Write K V → OrderedMap K V
  | .put k v => m.insert k v
  | .delete k => m.erase k

/-- What a history of changes leaves: the entries that no later change is about. -/
def surviving : List (Write K V) → List (K × V)
  | [] => []
  | .put k v :: ws => if k ∈ ws.map Write.key then surviving ws else (k, v) :: surviving ws
  | .delete _ :: ws => surviving ws

theorem key_of_surviving {ws : List (Write K V)} {k : K} {v : V} (h : (k, v) ∈ surviving ws) :
    k ∈ ws.map Write.key := by
  induction ws with
  | nil => cases h
  | cons w ws ih =>
    rw [List.map_cons, List.mem_cons]
    cases w with
    | put j u =>
      unfold surviving at h
      split at h
      · exact Or.inr (ih h)
      · rcases List.mem_cons.mp h with he | ht
        · exact Or.inl (Prod.mk.inj he).1
        · exact Or.inr (ih ht)
    | delete j => exact Or.inr (ih h)

/-- The map after a history has the entries that the history leaves, and those from
before that it is not about. -/
theorem get?_foldl_write {ws : List (Write K V)} {m : OrderedMap K V} {k : K} {v : V} :
    (ws.foldl write m).get? k = some v ↔
      (k, v) ∈ surviving ws ∨ k ∉ ws.map Write.key ∧ m.get? k = some v := by
  induction ws generalizing m with
  | nil => simp [surviving]
  | cons w ws ih =>
    rw [List.foldl_cons, ih]
    cases w with
    | put j u =>
      simp only [write, get?_insert, surviving, List.map_cons, List.mem_cons, Write.key]
      by_cases hk : k = j
      · subst hk
        by_cases hlater : k ∈ ws.map Write.key
        · simp [hlater]
        · have hnone : (k, v) ∉ surviving ws := fun h => hlater (key_of_surviving h)
          simp [hlater, hnone, eq_comm]
      · have hrest : ((k, v) ∈ if j ∈ ws.map Write.key then surviving ws
            else (j, u) :: surviving ws) ↔ (k, v) ∈ surviving ws := by
          split
          · rfl
          · simp [hk]
        rw [if_neg hk, hrest]
        simp [hk]
    | delete j =>
      simp only [write, get?_erase, surviving, List.map_cons, List.mem_cons, Write.key]
      by_cases hk : k = j
      · simp [hk]
      · simp [hk]

/-- A map that started empty is what its history leaves. -/
theorem get?_written {ws : List (Write K V)} {k : K} {v : V} :
    (ws.foldl write empty).get? k = some v ↔ (k, v) ∈ surviving ws := by
  rw [get?_foldl_write]
  simp

end OrderedMap

end Unwinder.Lib
