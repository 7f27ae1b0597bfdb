import Mathlib.Logic.Basic

namespace Unwinder.Lib

/-- How a routine ends: with a value, with an error it reports, or in a panic
(a failed bounds check, or an overflow in a build that checks arithmetic). -/
inductive Res (ε α : Type) where
  | ok (a : α)
  | err (e : ε)
  | panic
deriving DecidableEq

namespace Res

variable {ε ε' α β : Type}

def bind (x : Res ε α) (f : α → Res ε β) : Res ε β :=
  match x with
  | ok a => f a
  | err e => err e
  | panic => panic

instance : Monad (Res ε) where
  pure := ok
  bind := bind

/-- Rewrites a reported error and leaves everything else alone. -/
def mapErr (f : ε → ε') : Res ε α → Res ε' α
  | ok a => ok a
  | err e => err (f e)
  | panic => panic

@[simp] theorem pure_eq (a : α) : (pure a : Res ε α) = ok a := rfl

@[simp] theorem ok_bind (a : α) (f : α → Res ε β) : (ok a >>= f) = f a := rfl

@[simp] theorem err_bind (e : ε) (f : α → Res ε β) : (err e >>= f) = err e := rfl

@[simp] theorem panic_bind (f : α → Res ε β) : ((panic : Res ε α) >>= f) = panic := rfl

@[simp] theorem mapErr_ok (f : ε → ε') (a : α) : mapErr f (ok a) = ok a := rfl

@[simp] theorem mapErr_err (f : ε → ε') (e : ε) :
    mapErr f (err e : Res ε α) = err (f e) := rfl

@[simp] theorem mapErr_panic (f : ε → ε') : mapErr f (panic : Res ε α) = panic := rfl

/-- A sequence returns exactly when its first part does and the rest then does. -/
theorem bind_eq_ok {x : Res ε α} {f : α → Res ε β} {b : β} :
    (x >>= f) = ok b ↔ ∃ a, x = ok a ∧ f a = ok b := by
  cases x <;> simp

theorem mapErr_eq_ok {x : Res ε α} {f : ε → ε'} {a : α} : mapErr f x = ok a ↔ x = ok a := by
  cases x <;> simp

/-- An option read as a result, with the error reported when it is absent. -/
def ofOption (e : ε) : Option α → Res ε α
  | some a => ok a
  | none => err e

@[simp] theorem ofOption_some (e : ε) (a : α) : ofOption e (some a) = ok a := rfl

@[simp] theorem ofOption_none (e : ε) : ofOption e (none : Option α) = err e := rfl

end Res

/-- A routine that also carries a state, kept whether or not it succeeds. -/
def StateRes (σ ε α : Type) := σ → Res ε α × σ

namespace StateRes

variable {σ ε α β : Type}

def bind (x : StateRes σ ε α) (f : α → StateRes σ ε β) : StateRes σ ε β := fun s =>
  match x s with
  | (.ok a, s') => f a s'
  | (.err e, s') => (.err e, s')
  | (.panic, s') => (.panic, s')

instance : Monad (StateRes σ ε) where
  pure a := fun s => (.ok a, s)
  bind := bind

/-- A stateless result run inside a stateful routine. -/
def lift (x : Res ε α) : StateRes σ ε α := fun s => (x, s)

@[simp] theorem pure_apply (a : α) (s : σ) : (pure a : StateRes σ ε α) s = (.ok a, s) := rfl

@[simp] theorem lift_apply (x : Res ε α) (s : σ) : (lift x : StateRes σ ε α) s = (x, s) := rfl

@[simp] theorem lift_ok_bind (a : α) (f : α → StateRes σ ε β) : (lift (.ok a) >>= f) = f a := rfl

theorem bind_apply (x : StateRes σ ε α) (f : α → StateRes σ ε β) (s : σ) :
    (x >>= f) s = StateRes.bind x f s := rfl

theorem bind_of_ok {x : StateRes σ ε α} {f : α → StateRes σ ε β} {s s' : σ} {a : α}
    (h : x s = (.ok a, s')) : (x >>= f) s = f a s' := by
  rw [bind_apply, bind, h]

theorem bind_of_err {x : StateRes σ ε α} {f : α → StateRes σ ε β} {s s' : σ} {e : ε}
    (h : x s = (.err e, s')) : (x >>= f) s = (.err e, s') := by
  rw [bind_apply, bind, h]

theorem bind_of_panic {x : StateRes σ ε α} {f : α → StateRes σ ε β} {s s' : σ}
    (h : x s = (.panic, s')) : (x >>= f) s = (.panic, s') := by
  rw [bind_apply, bind, h]

/-- A sequence returns exactly when its first part does and the rest then does. -/
theorem bind_eq_ok {x : StateRes σ ε α} {f : α → StateRes σ ε β} {s s' : σ} {b : β} :
    (x >>= f) s = (.ok b, s') ↔ ∃ a t, x s = (.ok a, t) ∧ f a t = (.ok b, s') := by
  constructor
  · intro h
    rcases hx : x s with ⟨r, t⟩
    cases r with
    | ok a => exact ⟨a, t, rfl, by rwa [bind_of_ok hx] at h⟩
    | err e => simp [bind_of_err hx] at h
    | panic => simp [bind_of_panic hx] at h
  · intro h
    obtain ⟨a, t, hx, hf⟩ := h
    rw [bind_of_ok hx, hf]

end StateRes

end Unwinder.Lib
