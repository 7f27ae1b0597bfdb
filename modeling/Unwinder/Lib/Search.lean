import Mathlib.Order.Basic
import Mathlib.Order.Bounds.Basic

namespace Unwinder.Lib

/-- Halves `[lo, hi)` towards the last index that satisfies a test. -/
def lastIndex (p : Nat → Bool) (lo hi : Nat) : Nat :=
  if lo + 1 < hi then
    let mid := lo + (hi - lo) / 2
    if p mid then lastIndex p mid hi else lastIndex p lo mid
  else lo
termination_by hi - lo

theorem lastIndex_lt (p : Nat → Bool) {lo hi : Nat} (h : lo < hi) : lastIndex p lo hi < hi := by
  fun_induction lastIndex p lo hi with
  | case1 lo hi hlt mid hmid ih => exact ih (by omega)
  | case2 lo hi hlt mid hmid ih => exact Nat.lt_trans (ih (by omega)) (by omega)
  | case3 lo hi hlt => exact h

theorem lastIndex_congr {p q : Nat → Bool} {lo hi : Nat} (h : ∀ i < hi, p i = q i) :
    lastIndex p lo hi = lastIndex q lo hi := by
  fun_induction lastIndex p lo hi with
  | case1 lo hi hlt mid hmid ih =>
    rw [ih h, lastIndex.eq_def q lo hi, if_pos hlt]
    exact (if_pos ((h mid (by omega)).symm.trans hmid)).symm
  | case2 lo hi hlt mid hmid ih =>
    rw [ih (fun i hi' => h i (by omega)), lastIndex.eq_def q lo hi, if_pos hlt]
    refine (if_neg ?_).symm
    intro hq
    exact hmid ((h mid (by omega)).trans hq)
  | case3 lo hi hlt => rw [lastIndex, if_neg hlt]

/-- Every index the test holds at has only such indices below it. -/
def DownClosed (p : Nat → Bool) (n : Nat) : Prop := ∀ i j, i ≤ j → j < n → p j = true → p i = true

/-- The test holds at the index found if it holds at the first one, and fails behind it. -/
theorem lastIndex_spec {p : Nat → Bool} {n : Nat} (hp : DownClosed p n) {lo hi : Nat}
    (hlt : lo < hi) (hn : hi ≤ n) : (p lo = true → p (lastIndex p lo hi) = true) ∧
      ∀ i, lastIndex p lo hi < i → i < hi → p i = false := by
  fun_induction lastIndex p lo hi with
  | case1 lo hi h mid hmid ih =>
    obtain ⟨h1, h2⟩ := ih (by omega) hn
    exact ⟨fun _ => h1 hmid, h2⟩
  | case2 lo hi h mid hmid ih =>
    obtain ⟨h1, h2⟩ := ih (by omega) (by omega)
    refine ⟨h1, ?_⟩
    intro i hi' hlt'
    by_cases him : i < mid
    · exact h2 i hi' him
    · rw [← Bool.not_eq_true]
      intro hpi
      exact hmid (hp mid i (by omega) (by omega) hpi)
  | case3 lo hi h => exact ⟨id, fun i h1 h2 => by omega⟩

/-- The search finds the last index at which the test holds. -/
theorem lastIndex_isGreatest {p : Nat → Bool} {n : Nat} (hp : DownClosed p n) (hpos : 0 < n)
    (hfirst : p 0 = true) : IsGreatest {i | i < n ∧ p i = true} (lastIndex p 0 n) := by
  obtain ⟨hfound, hbehind⟩ := lastIndex_spec hp hpos (Nat.le_refl n)
  refine ⟨⟨lastIndex_lt p hpos, hfound hfirst⟩, ?_⟩
  intro i hi
  by_contra hgt
  have hfalse := hbehind i (Nat.lt_of_not_le hgt) hi.1
  rw [hi.2] at hfalse
  cases hfalse

end Unwinder.Lib
