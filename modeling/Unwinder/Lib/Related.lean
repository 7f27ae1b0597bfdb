import Unwinder.Lib.Res

namespace Unwinder.Lib

variable {ε ε' α α' β β' : Type}

/-- Two results are related values, or neither is a value. -/
def Res.Related (V : α → α' → Prop) (x : Res ε α) (y : Res ε' α') : Prop :=
  (∃ a b, x = .ok a ∧ y = .ok b ∧ V a b) ∨ ((∀ a, x ≠ .ok a) ∧ ∀ b, y ≠ .ok b)

namespace Res.Related

variable {V : α → α' → Prop} {W : β → β' → Prop} {x : Res ε α} {y : Res ε' α'}

theorem ok {a : α} {b : α'} (h : V a b) : Related V (.ok a : Res ε α) (.ok b : Res ε' α') :=
  .inl ⟨a, b, rfl, rfl, h⟩

theorem err (e : ε) (e' : ε') : Related V (.err e) (.err e') := by
  refine .inr ⟨?_, ?_⟩
  · intro a h
    cases h
  · intro b h
    cases h

theorem refl (x : Res ε α) : Related Eq x x := by
  cases x with
  | ok a => exact .ok rfl
  | err e => exact .err e e
  | panic => exact .inr ⟨by simp, by simp⟩

/-- A result next to itself behind a function. -/
theorem bind_ok (x : Res ε α) (f : α → β) :
    Related (fun a b => b = f a) x (x.bind (fun a => (.ok (f a) : Res ε β))) := by
  cases x with
  | ok a => exact .ok rfl
  | err e => exact .err e e
  | panic => exact .inr ⟨by simp, by simp [Res.bind]⟩

theorem bind (h : Related V x y) {f : α → Res ε β} {g : α' → Res ε' β'}
    (hf : ∀ a b, x = .ok a → y = .ok b → V a b → Related W (f a) (g b)) :
    Related W (x >>= f) (y >>= g) := by
  rcases h with ⟨a, b, rfl, rfl, hv⟩ | ⟨hx, hy⟩
  · exact hf a b rfl rfl hv
  · refine .inr ⟨?_, ?_⟩
    · intro c hc
      obtain ⟨a, ha, -⟩ := Res.bind_eq_ok.mp hc
      exact hx a ha
    · intro c hc
      obtain ⟨b, hb, -⟩ := Res.bind_eq_ok.mp hc
      exact hy b hb

theorem mono {V' : α → α' → Prop} (h : Related V x y) (hv : ∀ a b, V a b → V' a b) :
    Related V' x y := by
  rcases h with ⟨a, b, rfl, rfl, hab⟩ | hn
  · exact .ok (hv a b hab)
  · exact .inr hn

theorem mapErr {ε₁ ε₂ : Type} (h : Related V x y) (f : ε → ε₁) (g : ε' → ε₂) :
    Related V (x.mapErr f) (y.mapErr g) := by
  rcases h with ⟨a, b, rfl, rfl, hv⟩ | ⟨hx, hy⟩
  · exact .ok hv
  · exact .inr ⟨fun a ha => hx a (Res.mapErr_eq_ok.mp ha), fun b hb => hy b (Res.mapErr_eq_ok.mp hb)⟩

/-- Related results are values together. -/
theorem isOk_iff (h : Related V x y) : (∃ a, x = .ok a) ↔ ∃ b, y = .ok b := by
  rcases h with ⟨a, b, rfl, rfl, -⟩ | ⟨hx, hy⟩
  · simp
  · exact ⟨fun ⟨a, ha⟩ => absurd ha (hx a), fun ⟨b, hb⟩ => absurd hb (hy b)⟩

theorem value (h : Related V x y) {a : α} {b : α'} (hx : x = .ok a) (hy : y = .ok b) : V a b := by
  rcases h with ⟨a', b', rfl, rfl, hv⟩ | ⟨hn, -⟩
  · cases hx
    cases hy
    exact hv
  · exact absurd hx (hn a)

end Res.Related

variable {σ τ : Type}

/-- From related states, two routines end in related values and related states, or
neither returns. -/
def StateRes.Related (R : σ → τ → Prop) (V : α → α' → Prop) (x : StateRes σ ε α)
    (y : StateRes τ ε' α') : Prop :=
  ∀ s t, R s t → (∃ a b s' t', x s = (.ok a, s') ∧ y t = (.ok b, t') ∧ V a b ∧ R s' t') ∨
    ((∀ a, (x s).1 ≠ .ok a) ∧ ∀ b, (y t).1 ≠ .ok b)

namespace StateRes.Related

variable {R : σ → τ → Prop} {V : α → α' → Prop} {W : β → β' → Prop} {x : StateRes σ ε α}
  {y : StateRes τ ε' α'}

theorem pure {a : α} {b : α'} (h : V a b) :
    Related R V (pure a : StateRes σ ε α) (pure b : StateRes τ ε' α') :=
  fun s t hr => .inl ⟨a, b, s, t, rfl, rfl, h, hr⟩

theorem lift {r : Res ε α} {r' : Res ε' α'} (h : r.Related V r') :
    Related R V (StateRes.lift r) (StateRes.lift r') := by
  intro s t hr
  rcases h with ⟨a, b, rfl, rfl, hv⟩ | hn
  · exact .inl ⟨a, b, s, t, rfl, rfl, hv, hr⟩
  · exact .inr hn

theorem bind (h : Related R V x y) {f : α → StateRes σ ε β} {g : α' → StateRes τ ε' β'}
    (hf : ∀ a b, V a b → Related R W (f a) (g b)) : Related R W (x >>= f) (y >>= g) := by
  intro s t hr
  rcases h s t hr with ⟨a, b, s', t', hx, hy, hv, hr'⟩ | ⟨hx, hy⟩
  · rw [bind_of_ok hx, bind_of_ok hy]
    exact hf a b hv s' t' hr'
  · refine .inr ⟨?_, ?_⟩
    · intro c hc
      obtain ⟨a, s', hs, -⟩ := bind_eq_ok.mp (Prod.ext hc rfl)
      exact hx a (by rw [hs])
    · intro c hc
      obtain ⟨b, t', ht, -⟩ := bind_eq_ok.mp (Prod.ext hc rfl)
      exact hy b (by rw [ht])

theorem map (h : Related R V x y) {f : α → β} {g : α' → β'} (hf : ∀ a b, V a b → W (f a) (g b)) :
    Related R W (f <$> x) (g <$> y) :=
  h.bind (fun a b hv => .pure (hf a b hv))

theorem ite {p : Prop} [Decidable p] {x₁ x₂ : StateRes σ ε α} {y₁ y₂ : StateRes τ ε' α'}
    (h₁ : Related R V x₁ y₁) (h₂ : Related R V x₂ y₂) :
    Related R V (if p then x₁ else x₂) (if p then y₁ else y₂) := by
  split
  · exact h₁
  · exact h₂

/-- Running related routines from related states gives related results. -/
theorem run (h : Related R V x y) {s : σ} {t : τ} (hr : R s t) : (x s).1.Related V (y t).1 := by
  rcases h s t hr with ⟨a, b, s', t', hx, hy, hv, -⟩ | hn
  · rw [hx, hy]
    exact .ok hv
  · exact .inr hn

theorem state (h : Related R V x y) {s s' : σ} {t t' : τ} {a : α} {b : α'} (hr : R s t)
    (hx : x s = (.ok a, s')) (hy : y t = (.ok b, t')) : R s' t' := by
  rcases h s t hr with ⟨a₁, b₁, s₁, t₁, hx₁, hy₁, -, hr₁⟩ | ⟨hn, -⟩
  · rw [hx] at hx₁
    rw [hy] at hy₁
    cases hx₁
    cases hy₁
    exact hr₁
  · exact absurd (by rw [hx]) (hn a)

end StateRes.Related

end Unwinder.Lib
