import Unwinder.Lib.Interaction

namespace Unwinder.Lib.Interaction

variable {Op : Type} {Ans : Op → Type} {α β σ : Type}

/-- What a program computes from an oracle that knows some of the answers. -/
def consult (oracle : (o : Op) → Option (Ans o)) : Interaction Op Ans α → Option α
  | done a => some a
  | call o k => (oracle o).bind (fun a => consult oracle (k a))

@[simp] theorem consult_done (oracle : (o : Op) → Option (Ans o)) (a : α) :
    consult oracle (done a) = some a := rfl

@[simp] theorem consult_pure (oracle : (o : Op) → Option (Ans o)) (a : α) :
    consult oracle (pure a) = some a := rfl

theorem consult_bind (oracle : (o : Op) → Option (Ans o)) (x : Interaction Op Ans α)
    (f : α → Interaction Op Ans β) :
    consult oracle (x >>= f) = (consult oracle x).bind (fun a => consult oracle (f a)) := by
  induction x with
  | done a => rfl
  | call o k ih =>
    change (oracle o).bind (fun a => consult oracle (k a >>= f)) =
      ((oracle o).bind (fun a => consult oracle (k a))).bind _
    rw [Option.bind_assoc]
    congr
    funext a
    exact ih a

/-- An environment answers as an oracle does, and stays one that does. -/
def Answers (handle : (o : Op) → σ → Option (Ans o × σ)) (I : σ → Prop)
    (oracle : (o : Op) → Option (Ans o)) : Prop :=
  ∀ o a s, oracle o = some a → I s → ∃ s', handle o s = some (a, s') ∧ I s'

/-- Run against such an environment, a program ends in what the oracle lets it
compute. -/
theorem run_of_consult {handle : (o : Op) → σ → Option (Ans o × σ)} {I : σ → Prop}
    {oracle : (o : Op) → Option (Ans o)} (h : Answers handle I oracle)
    {x : Interaction Op Ans α} {a : α} (hx : consult oracle x = some a) {s : σ} (hs : I s) :
    ∃ s', run handle x s = some (a, s') ∧ I s' := by
  induction x generalizing s with
  | done b =>
    cases hx
    exact ⟨s, rfl, hs⟩
  | call o k ih =>
    obtain ⟨b, hb, hk⟩ := Option.bind_eq_some_iff.mp hx
    obtain ⟨s₁, hstep, hs₁⟩ := h o b s hb hs
    obtain ⟨s', hrun, hs'⟩ := ih b hk hs₁
    refine ⟨s', ?_, hs'⟩
    rw [run_call, hstep]
    exact hrun

section Paths

variable {ok : (o : Op) → Ans o → Prop} {p : Op → Prop}

/-- Along answers that can come, every call is of one kind, and every result of
another. -/
def Ensures (ok : (o : Op) → Ans o → Prop) (p : Op → Prop) (q : α → Prop) :
    Interaction Op Ans α → Prop
  | done a => q a
  | call o k => p o ∧ ∀ a, ok o a → Ensures ok p q (k a)

theorem Ensures.bind {q : α → Prop} {r : β → Prop} {x : Interaction Op Ans α}
    {f : α → Interaction Op Ans β} (hx : Ensures ok p q x) (hf : ∀ a, q a → Ensures ok p r (f a)) :
    Ensures ok p r (x >>= f) := by
  induction x with
  | done a => exact hf a hx
  | call o k ih => exact ⟨hx.1, fun a ha => ih a (hx.2 a ha)⟩

theorem Ensures.mono {q q' : α → Prop} {x : Interaction Op Ans α} (hx : Ensures ok p q x)
    (h : ∀ a, q a → q' a) : Ensures ok p q' x := by
  induction x with
  | done a => exact h a hx
  | call o k ih => exact ⟨hx.1, fun a ha => ih a (hx.2 a ha)⟩

/-- A run ends in a result of that kind, and keeps what calls of that kind keep. -/
theorem Ensures.run {q : α → Prop} {x : Interaction Op Ans α} (hx : Ensures ok p q x)
    {handle : (o : Op) → σ → Option (Ans o × σ)} (I : σ → Prop)
    (hok : ∀ o s a s', handle o s = some (a, s') → ok o a)
    (hkeep : ∀ o s a s', p o → I s → handle o s = some (a, s') → I s')
    {s s' : σ} {a : α} (hs : I s) (hr : run handle x s = some (a, s')) : q a ∧ I s' := by
  induction x generalizing s with
  | done b =>
    cases hr
    exact ⟨hx, hs⟩
  | call o k ih =>
    rw [run_call] at hr
    obtain ⟨r, hh, hk⟩ := Option.bind_eq_some_iff.mp hr
    exact ih r.1 (hx.2 r.1 (hok o s r.1 r.2 hh)) (hkeep o s r.1 r.2 hx.1 hs hh) hk

/-- All calls of a run are of that kind, also where the run gives up. -/
theorem Ensures.asked {q : α → Prop} {x : Interaction Op Ans α} (hx : Ensures ok p q x)
    {handle : (o : Op) → σ → Option (Ans o × σ)}
    (hok : ∀ o s a s', handle o s = some (a, s') → ok o a) {s : σ} {o : Op}
    (ho : o ∈ asked handle x s) : p o := by
  induction x generalizing s with
  | done b => cases ho
  | call o' k ih =>
    rw [Interaction.asked] at ho
    rcases List.mem_cons.mp ho with rfl | ho
    · exact hx.1
    · cases hh : handle o' s with
      | none =>
        rw [hh] at ho
        cases ho
      | some r =>
        rw [hh] at ho
        exact ih r.1 (hx.2 r.1 (hok o' s r.1 r.2 hh)) ho

/-- Every path along answers that can come makes a call of interest, or ends in a
result of the given kind. -/
def Meets (ok : (o : Op) → Ans o → Prop) (p : Op → Prop) (q : α → Prop) :
    Interaction Op Ans α → Prop
  | done a => q a
  | call o k => p o ∨ ∀ a, ok o a → Meets ok p q (k a)

theorem Meets.bind {q : α → Prop} {r : β → Prop} {x : Interaction Op Ans α}
    {f : α → Interaction Op Ans β} (hx : Meets ok p q x) (hf : ∀ a, q a → Meets ok p r (f a)) :
    Meets ok p r (x >>= f) := by
  induction x with
  | done a => exact hf a hx
  | call o k ih => exact hx.imp id (fun h a ha => ih a (h a ha))

theorem meets_true (x : Interaction Op Ans α) : Meets ok p (fun _ => True) x := by
  induction x with
  | done a => trivial
  | call o k ih => exact Or.inr (fun a _ => ih a)

/-- A count that calls do not lower, and calls of interest raise, has risen behind
every run that does not end in such a result. -/
theorem Meets.rises {q : α → Prop} {x : Interaction Op Ans α} (hx : Meets ok p q x)
    {handle : (o : Op) → σ → Option (Ans o × σ)} (count : σ → Nat)
    (hok : ∀ o s a s', handle o s = some (a, s') → ok o a)
    (hkeep : ∀ o s a s', handle o s = some (a, s') → count s ≤ count s')
    (hraise : ∀ o s a s', p o → handle o s = some (a, s') → count s < count s')
    {s s' : σ} {a : α} (hr : run handle x s = some (a, s')) : q a ∨ count s < count s' := by
  induction x generalizing s with
  | done b =>
    cases hr
    exact Or.inl hx
  | call o k ih =>
    rw [run_call] at hr
    obtain ⟨r, hh, hk⟩ := Option.bind_eq_some_iff.mp hr
    rcases hx with hp | hx
    · have hrest : count r.2 ≤ count s' := by
        refine run_inv (I := fun t => count r.2 ≤ count t) ?_ (Nat.le_refl _) hk
        intro o t a t' ht hstep
        exact Nat.le_trans ht (hkeep o t a t' hstep)
      exact Or.inr (Nat.lt_of_lt_of_le (hraise o s r.1 r.2 hp hh) hrest)
    · rcases ih r.1 (hx r.1 (hok o s r.1 r.2 hh)) hk with hq | hlt
      · exact Or.inl hq
      · exact Or.inr (Nat.lt_of_le_of_lt (hkeep o s r.1 r.2 hh) hlt)

end Paths

section Stopping

variable {ε : Type} {oracle : (o : Op) → Option (Ans o)} {a : α} {e : ε} {r r' : Except ε α}
  {x : ExceptT ε (Interaction Op Ans) α}

/-- How a program that may stop ends for an oracle. -/
def Returns (oracle : (o : Op) → Option (Ans o)) (x : ExceptT ε (Interaction Op Ans) α)
    (r : Except ε α) : Prop :=
  consult oracle x.run = some r

theorem returns_pure : Returns oracle (pure a : ExceptT ε (Interaction Op Ans) α) (.ok a) := rfl

theorem returns_throw :
    Returns oracle (throw e : ExceptT ε (Interaction Op Ans) α) (.error e) := rfl

theorem returns_ask {o : Op} {b : Ans o} (h : oracle o = some b) :
    Returns oracle (ExceptT.lift (ask o) : ExceptT ε (Interaction Op Ans) (Ans o)) (.ok b) := by
  change (oracle o).bind (fun b => some (Except.ok b)) = some (Except.ok b)
  rw [h]
  rfl

theorem returns_bind_iff {f : α → ExceptT ε (Interaction Op Ans) β} {r : Except ε β} :
    Returns oracle (x >>= f) r ↔
      (∃ a, Returns oracle x (.ok a) ∧ Returns oracle (f a) r) ∨
        ∃ e, Returns oracle x (.error e) ∧ r = .error e := by
  have hrun : consult oracle (x >>= f).run =
      (consult oracle x.run).bind (fun y => consult oracle (ExceptT.bindCont f y)) :=
    consult_bind oracle x.run (ExceptT.bindCont f)
  unfold Returns
  rw [hrun, Option.bind_eq_some_iff]
  constructor
  · rintro ⟨y, hy, hr⟩
    cases y with
    | ok a => exact Or.inl ⟨a, hy, hr⟩
    | error e => exact Or.inr ⟨e, hy, (Option.some.inj hr).symm⟩
  · rintro (⟨a, ha, hr⟩ | ⟨e, he, rfl⟩)
    · exact ⟨.ok a, ha, hr⟩
    · exact ⟨.error e, he, rfl⟩

theorem Returns.bind {f : α → ExceptT ε (Interaction Op Ans) β} {r : Except ε β}
    (hx : Returns oracle x (.ok a)) (hf : Returns oracle (f a) r) :
    Returns oracle (x >>= f) r :=
  returns_bind_iff.mpr (Or.inl ⟨a, hx, hf⟩)

theorem Returns.stop {f : α → ExceptT ε (Interaction Op Ans) β}
    (hx : Returns oracle x (.error e)) : Returns oracle (x >>= f) (.error e) :=
  returns_bind_iff.mpr (Or.inr ⟨e, hx, rfl⟩)

theorem Returns.unique (h : Returns oracle x r) (h' : Returns oracle x r') : r = r' :=
  Option.some.inj (h.symm.trans h')

/-- Along answers that can come, every call is of one kind, every value that the
program comes to of another, and so is every reason for which it comes to none. -/
def Keeps (ok : (o : Op) → Ans o → Prop) (p : Op → Prop) (stop : ε → Prop) (q : α → Prop)
    (x : ExceptT ε (Interaction Op Ans) α) : Prop :=
  Ensures ok p (fun | .ok a => q a | .error e => stop e) x.run

variable {ok : (o : Op) → Ans o → Prop} {p : Op → Prop} {stop : ε → Prop} {q : α → Prop}

theorem keeps_pure (h : q a) : Keeps ok p stop q (pure a : ExceptT ε (Interaction Op Ans) α) := h

theorem keeps_throw (h : stop e) : Keeps ok p stop q (throw e : ExceptT ε (Interaction Op Ans) α) := h

theorem keeps_ask {o : Op} (h : p o) :
    Keeps ok p stop (ok o) (ExceptT.lift (ask o) : ExceptT ε (Interaction Op Ans) (Ans o)) :=
  ⟨h, fun _ ha => ha⟩

theorem Keeps.bind {f : α → ExceptT ε (Interaction Op Ans) β} {r : β → Prop}
    (hx : Keeps ok p stop q x) (hf : ∀ a, q a → Keeps ok p stop r (f a)) :
    Keeps ok p stop r (x >>= f) := by
  refine Ensures.bind (f := ExceptT.bindCont f) hx ?_
  intro y hy
  cases y with
  | ok a => exact hf a hy
  | error e => exact hy

theorem Keeps.mono {q' : α → Prop} (hx : Keeps ok p stop q x) (h : ∀ a, q a → q' a) :
    Keeps ok p stop q' x := by
  refine Ensures.mono hx ?_
  intro r hr
  cases r with
  | ok a => exact h a hr
  | error e => exact hr

end Stopping

end Unwinder.Lib.Interaction
