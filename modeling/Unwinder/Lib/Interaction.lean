import Mathlib.Logic.Basic

namespace Unwinder.Lib

/-- A program that computes by asking its environment: every path of calls is
finite, and what it does next depends only on the answers it has received. -/
inductive Interaction (Op : Type) (Ans : Op → Type) (α : Type) where
  | done (a : α)
  | call (o : Op) (k : Ans o → Interaction Op Ans α)

namespace Interaction

variable {Op : Type} {Ans : Op → Type} {α β σ τ : Type}

def bind (x : Interaction Op Ans α) (f : α → Interaction Op Ans β) : Interaction Op Ans β :=
  match x with
  | done a => f a
  | call o k => call o (fun a => (k a).bind f)

instance : Monad (Interaction Op Ans) where
  pure := done
  bind := bind

/-- One question to the environment. -/
def ask (o : Op) : Interaction Op Ans (Ans o) := call o done

/-- Runs a program against an environment with state, which may give up. -/
def run (handle : (o : Op) → σ → Option (Ans o × σ)) :
    Interaction Op Ans α → σ → Option (α × σ)
  | done a, s => some (a, s)
  | call o k, s =>
    match handle o s with
    | some (a, s') => run handle (k a) s'
    | none => none

@[simp] theorem run_done (handle : (o : Op) → σ → Option (Ans o × σ)) (a : α) (s : σ) :
    run handle (done a) s = some (a, s) := rfl

@[simp] theorem run_pure (handle : (o : Op) → σ → Option (Ans o × σ)) (a : α) (s : σ) :
    run handle (pure a) s = some (a, s) := rfl

theorem run_call (handle : (o : Op) → σ → Option (Ans o × σ)) (o : Op)
    (k : Ans o → Interaction Op Ans α) (s : σ) :
    run handle (call o k) s = (handle o s).bind (fun r => run handle (k r.1) r.2) := by
  rw [run]
  cases handle o s <;> rfl

/-- Running a sequence is running its parts in turn. -/
theorem run_bind (handle : (o : Op) → σ → Option (Ans o × σ)) (x : Interaction Op Ans α)
    (f : α → Interaction Op Ans β) (s : σ) :
    run handle (x >>= f) s = (run handle x s).bind (fun r => run handle (f r.1) r.2) := by
  induction x generalizing s with
  | done a => rfl
  | call o k ih =>
    change run handle (call o (fun a => k a >>= f)) s = _
    rw [run_call, run_call]
    cases handle o s with
    | none => rfl
    | some r => exact ih r.1 r.2

/-- The calls that such a run makes, in order. -/
def asked (handle : (o : Op) → σ → Option (Ans o × σ)) :
    Interaction Op Ans α → σ → List Op
  | done _, _ => []
  | call o k, s =>
    o :: match handle o s with
      | some (a, s') => asked handle (k a) s'
      | none => []

/-- What every answered call preserves, the whole run preserves. -/
theorem run_inv {handle : (o : Op) → σ → Option (Ans o × σ)} (I : σ → Prop)
    (hstep : ∀ o s a s', I s → handle o s = some (a, s') → I s')
    {x : Interaction Op Ans α} {s s' : σ} {a : α} (hs : I s)
    (hr : run handle x s = some (a, s')) : I s' := by
  induction x generalizing s with
  | done b =>
    cases hr
    exact hs
  | call o k ih =>
    rw [run_call] at hr
    cases hh : handle o s with
    | none => simp [hh] at hr
    | some r =>
      rw [hh] at hr
      exact ih r.1 (hstep o s r.1 r.2 hs hh) hr

/-- Two environments that answer alike from related states. -/
def Agree (h : (o : Op) → σ → Option (Ans o × σ)) (h' : (o : Op) → τ → Option (Ans o × τ))
    (R : σ → τ → Prop) : Prop :=
  ∀ o s t, R s t → (h o s = none ∧ h' o t = none) ∨
    ∃ a s' t', h o s = some (a, s') ∧ h' o t = some (a, t') ∧ R s' t'

/-- A program cannot tell apart environments that answer alike. -/
theorem run_agree {h : (o : Op) → σ → Option (Ans o × σ)}
    {h' : (o : Op) → τ → Option (Ans o × τ)} {R : σ → τ → Prop} (ha : Agree h h' R)
    (x : Interaction Op Ans α) {s : σ} {t : τ} (hR : R s t) :
    (run h x s = none ∧ run h' x t = none) ∨
      ∃ a s' t', run h x s = some (a, s') ∧ run h' x t = some (a, t') ∧ R s' t' := by
  induction x generalizing s t with
  | done a => exact Or.inr ⟨a, s, t, rfl, rfl, hR⟩
  | call o k ih =>
    rw [run_call, run_call]
    rcases ha o s t hR with ⟨hn, hn'⟩ | ⟨a, s', t', hs, ht, hR'⟩
    · exact Or.inl (by simp [hn, hn'])
    · simpa [hs, ht] using ih a hR'

/-- Every path that ends in a result of interest makes a call of interest. -/
def Passes (p : Op → Prop) (good : α → Prop) : Interaction Op Ans α → Prop
  | done a => ¬ good a
  | call o k => p o ∨ ∀ a, Passes p good (k a)

/-- A fact that the calls of interest establish and no call undoes holds after
every run that ends in a result of interest. -/
theorem run_passes {handle : (o : Op) → σ → Option (Ans o × σ)} {p : Op → Prop}
    {good : α → Prop} (J I : σ → Prop)
    (hinv : ∀ o s a s', J s → handle o s = some (a, s') → J s')
    (hmake : ∀ o s a s', J s → p o → handle o s = some (a, s') → I s')
    (hkeep : ∀ o s a s', I s → handle o s = some (a, s') → I s')
    {x : Interaction Op Ans α} (hx : x.Passes p good) {s s' : σ} {a : α} (hs : J s)
    (hr : run handle x s = some (a, s')) (hg : good a) : I s' := by
  induction x generalizing s with
  | done b =>
    cases hr
    exact absurd hg hx
  | call o k ih =>
    rw [run_call] at hr
    cases hh : handle o s with
    | none => simp [hh] at hr
    | some r =>
      rw [hh] at hr
      rcases hx with hp | hx
      · exact run_inv I hkeep (hmake o s r.1 r.2 hs hp hh) hr
      · exact ih r.1 (hx r.1) (hinv o s r.1 r.2 hs hh) hr

end Interaction

end Unwinder.Lib
