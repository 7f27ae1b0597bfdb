import Mathlib.Data.List.Infix

namespace Unwinder.Lib

variable {σ α : Type} (step : σ → α → σ)

/-- The state after a sequence of actions. -/
def runFrom (s : σ) (as : List α) : σ := as.foldl step s

/-- A property of every state that a sequence of actions passes through. -/
def Always (P : σ → Prop) : σ → List α → Prop
  | s, [] => P s
  | s, a :: as => P s ∧ Always P (step s a) as

/-- A condition on every action of a sequence, in the state it is taken in. -/
def EachStep (C : σ → α → Prop) : σ → List α → Prop
  | _, [] => True
  | s, a :: as => C s a ∧ EachStep C (step s a) as

@[simp] theorem runFrom_nil (s : σ) : runFrom step s [] = s := rfl

@[simp] theorem runFrom_cons (s : σ) (a : α) (as : List α) :
    runFrom step s (a :: as) = runFrom step (step s a) as := rfl

variable {step}

/-- What every action preserves holds after every sequence. -/
theorem runFrom_inv {I : σ → Prop} {s : σ} {as : List α}
    (hstep : ∀ s, ∀ a ∈ as, I s → I (step s a)) (hs : I s) : I (runFrom step s as) := by
  induction as generalizing s with
  | nil => exact hs
  | cons a as ih =>
    exact ih (fun s b hb => hstep s b (List.mem_cons_of_mem a hb)) (hstep s a (by simp) hs)

theorem Always.head {P : σ → Prop} {s : σ} {as : List α} (h : Always step P s as) : P s := by
  cases as with
  | nil => exact h
  | cons a as => exact h.1

/-- Passing through good states means that every shorter sequence ends in one. -/
theorem always_iff_shorter {P : σ → Prop} {s : σ} {as : List α} :
    Always step P s as ↔ ∀ bs, bs <+: as → P (runFrom step s bs) := by
  induction as generalizing s with
  | nil =>
    constructor
    · intro h bs hb
      rw [List.prefix_nil.mp hb]
      exact h
    · intro h
      exact h [] List.prefix_rfl
  | cons a as ih =>
    constructor
    · intro h bs hb
      cases bs with
      | nil => exact h.1
      | cons b bs =>
        obtain ⟨rfl, htail⟩ := List.cons_prefix_cons.mp hb
        exact ih.mp h.2 bs htail
    · intro h
      refine ⟨h [] (List.nil_prefix), ih.mpr ?_⟩
      intro bs hb
      exact h (a :: bs) (List.cons_prefix_cons.mpr ⟨rfl, hb⟩)

/-- A condition that follows from what every action preserves holds throughout. -/
theorem eachStep_of_inv {I : σ → Prop} {C : σ → α → Prop} {s : σ} {as : List α}
    (hI : ∀ s a, I s → I (step s a)) (hC : ∀ s a, I s → C s a) (hs : I s) :
    EachStep step C s as := by
  induction as generalizing s with
  | nil => trivial
  | cons a as ih => exact ⟨hC s a hs, ih (hI s a hs)⟩

/-- Conditions that agree wherever an invariant holds agree on a run that keeps it. -/
theorem eachStep_congr {I : σ → Prop} {C D : σ → α → Prop} {s : σ} {as : List α}
    (hI : ∀ s, ∀ a ∈ as, I s → I (step s a)) (hCD : ∀ s a, I s → (C s a ↔ D s a)) (hs : I s) :
    EachStep step C s as ↔ EachStep step D s as := by
  induction as generalizing s with
  | nil => exact Iff.rfl
  | cons a as ih =>
    have hrest : ∀ s, ∀ b ∈ as, I s → I (step s b) := fun s b hb => hI s b (List.mem_cons_of_mem a hb)
    exact and_congr (hCD s a hs) (ih hrest (hI s a (by simp) hs))

/-- When a step keeps a property exactly if it meets a condition, a run keeps it
exactly if all its steps do. -/
theorem always_iff_eachStep {I P : σ → Prop} {C : σ → α → Prop} {s : σ} {as : List α}
    (hI : ∀ s, ∀ a ∈ as, I s → I (step s a))
    (hC : ∀ s, ∀ a ∈ as, I s → P s → (C s a ↔ P (step s a))) (hs : I s) (hp : P s) :
    Always step P s as ↔ EachStep step C s as := by
  induction as generalizing s with
  | nil => exact ⟨fun _ => trivial, fun _ => hp⟩
  | cons a as ih =>
    have hrest : ∀ s, ∀ b ∈ as, I s → I (step s b) := fun s b hb => hI s b (List.mem_cons_of_mem a hb)
    have hrestC : ∀ s, ∀ b ∈ as, I s → P s → (C s b ↔ P (step s b)) :=
      fun s b hb => hC s b (List.mem_cons_of_mem a hb)
    have ha := hC s a (by simp) hs hp
    constructor
    · intro h
      exact ⟨ha.mpr h.2.head, (ih hrest hrestC (hI s a (by simp) hs) h.2.head).mp h.2⟩
    · intro h
      exact ⟨hp, (ih hrest hrestC (hI s a (by simp) hs) (ha.mp h.1)).mpr h.2⟩

end Unwinder.Lib
