import Unwinder.Dwarf.Cursor
import Unwinder.Lib.Leb128

namespace Unwinder.Dwarf
open Lib

namespace Cursor

def Valid (c : Cursor) : Prop := c.pos ≤ c.bytes.len

def rest (c : Cursor) : List UInt8 := c.bytes.data.drop c.pos

def advance (c : Cursor) (n : Nat) : Cursor := { c with pos := c.pos + n }

@[simp] theorem advance_zero (c : Cursor) : c.advance 0 = c := rfl

@[simp] theorem advance_advance (c : Cursor) (m n : Nat) :
    (c.advance m).advance n = c.advance (m + n) := by
  simp [advance, Nat.add_assoc]

@[simp] theorem advance_pos (c : Cursor) (n : Nat) : (c.advance n).pos = c.pos + n := rfl

@[simp] theorem advance_bytes (c : Cursor) (n : Nat) : (c.advance n).bytes = c.bytes := rfl

@[simp] theorem advance_avmaBase (c : Cursor) (n : Nat) : (c.advance n).avmaBase = c.avmaBase := rfl

theorem rest_length {c : Cursor} (hv : c.Valid) : c.pos + c.rest.length = c.bytes.len := by
  unfold Valid at hv
  simp only [rest, List.length_drop]
  unfold Slice.len at *
  omega

theorem rest_advance {c : Cursor} {bs tl : List UInt8} (h : c.rest = bs ++ tl) :
    (c.advance bs.length).rest = tl := by
  have hd : (c.advance bs.length).rest = c.rest.drop bs.length := by
    simp [rest, List.drop_drop]
  rw [hd, h, List.drop_left]

theorem valid_advance {c : Cursor} {bs tl : List UInt8} (hv : c.Valid) (h : c.rest = bs ++ tl) :
    (c.advance bs.length).Valid := by
  have hl := rest_length hv
  rw [h, List.length_append] at hl
  unfold Valid
  simp only [advance_pos, advance_bytes]
  omega

/-- A cursor with a byte left stands in its slice. -/
theorem valid_of_rest {c : Cursor} {b : UInt8} {tl : List UInt8} (h : c.rest = b :: tl) :
    c.Valid := by
  have hlen := congrArg List.length h
  rw [rest, List.length_drop, List.length_cons] at hlen
  unfold Valid Slice.len
  omega

/-- A position in a slice is far from overflowing. -/
theorem Valid.pos_lt {c : Cursor} (hv : c.Valid) : c.pos < 2 ^ 63 :=
  Nat.lt_of_le_of_lt hv c.bytes.bound

end Cursor

variable {α β : Type}

/-- A read that never panics, never moves back and never leaves the slice,
whether or not it succeeds. -/
def Safe (p : Parse α) : Prop :=
  ∀ c, c.Valid → ∃ r n, p c = (r, c.advance n) ∧ (c.advance n).Valid ∧ r ≠ .panic

/-- The routine reads exactly these bytes and returns this value. -/
def Reads (p : Parse α) (c : Cursor) (bs : List UInt8) (a : α) : Prop :=
  c.rest.take bs.length = bs ∧ p c = (.ok a, c.advance bs.length)

theorem Safe.pure (a : α) : Safe (pure a) :=
  fun c hv => ⟨.ok a, 0, rfl, hv, by simp⟩

theorem Safe.bind {x : Parse α} {f : α → Parse β} (hx : Safe x) (hf : ∀ a, Safe (f a)) :
    Safe (x >>= f) := by
  intro c hv
  obtain ⟨r, n, he, hn, hp⟩ := hx c hv
  cases r with
  | ok a =>
    obtain ⟨r', m, he', hm, hp'⟩ := hf a (c.advance n) hn
    rw [Cursor.advance_advance] at he' hm
    exact ⟨r', n + m, by rw [StateRes.bind_of_ok he, he'], hm, hp'⟩
  | err e => exact ⟨.err e, n, StateRes.bind_of_err he, hn, by simp⟩
  | panic => exact absurd rfl hp

theorem Safe.map {x : Parse α} (f : α → β) (hx : Safe x) : Safe (f <$> x) :=
  hx.bind (fun a => Safe.pure (f a))

theorem Safe.ite {p : Prop} [Decidable p] {x y : Parse α} (hx : Safe x) (hy : Safe y) :
    Safe (if p then x else y) := by
  split
  · exact hx
  · exact hy

theorem cursor_apply (c : Cursor) : cursor c = (.ok c, c) := rfl

theorem safe_cursor : Safe cursor := fun c hv => ⟨.ok c, 0, rfl, hv, by simp⟩

theorem safe_failAt (offset : Nat) (kind : DwarfParseErrorKind) : Safe (failAt offset kind : Parse α) :=
  fun c hv => ⟨.err ⟨offset, kind⟩, 0, rfl, hv, by simp⟩

theorem safe_fail (kind : DwarfParseErrorKind) : Safe (fail kind : Parse α) :=
  safe_cursor.bind (fun c => safe_failAt c.pos kind)

/-- What a safe read returned, it read from a prefix of the remaining bytes. -/
theorem Safe.reads {p : Parse α} (hp : Safe p) {c c' : Cursor} {a : α} (hv : c.Valid)
    (h : p c = (.ok a, c')) :
    ∃ bs, Reads p c bs a ∧ c' = c.advance bs.length ∧ c'.Valid := by
  obtain ⟨r, n, he, hn, _⟩ := hp c hv
  obtain ⟨rfl, rfl⟩ := Prod.mk.inj (he.symm.trans h)
  have hl := Cursor.rest_length hv
  have hlen : (c.rest.take n).length = n := by
    have := hn
    unfold Cursor.Valid at this
    simp only [Cursor.advance_pos, Cursor.advance_bytes] at this
    rw [List.length_take]
    omega
  exact ⟨c.rest.take n, ⟨by rw [hlen], by rw [hlen]; exact h⟩, by rw [hlen], hn⟩

theorem Reads.rest {p : Parse α} {c : Cursor} {bs : List UInt8} {a : α} (h : Reads p c bs a) :
    c.rest = bs ++ (c.advance bs.length).rest := by
  have hd : (c.advance bs.length).rest = c.rest.drop bs.length := by
    simp [Cursor.rest, List.drop_drop]
  calc c.rest = c.rest.take bs.length ++ c.rest.drop bs.length :=
        (List.take_append_drop bs.length c.rest).symm
    _ = bs ++ (c.advance bs.length).rest := by rw [h.1, hd]

theorem Reads.valid {p : Parse α} {c : Cursor} {bs : List UInt8} {a : α} (h : Reads p c bs a)
    (hv : c.Valid) : (c.advance bs.length).Valid :=
  Cursor.valid_advance hv h.rest

theorem reads_of_rest {p : Parse α} {c : Cursor} {bs tl : List UInt8} {a : α}
    (hr : c.rest = bs ++ tl) (h : p c = (.ok a, c.advance bs.length)) : Reads p c bs a :=
  ⟨by rw [hr, List.take_left], h⟩

theorem Reads.bind {x : Parse α} {f : α → Parse β} {c : Cursor} {bs cs : List UInt8} {a : α}
    {b : β} (hx : Reads x c bs a) (hf : Reads (f a) (c.advance bs.length) cs b) :
    Reads (x >>= f) c (bs ++ cs) b := by
  have hrest : c.rest = (bs ++ cs) ++ ((c.advance bs.length).advance cs.length).rest := by
    rw [hx.rest, hf.rest, List.append_assoc]
  apply reads_of_rest hrest
  rw [StateRes.bind_of_ok hx.2, hf.2, Cursor.advance_advance, List.length_append]

theorem reads_pure (a : α) (c : Cursor) : Reads (pure a) c [] a := ⟨rfl, rfl⟩

theorem reads_cursor (c : Cursor) : Reads cursor c [] c := ⟨rfl, rfl⟩

theorem Reads.map {x : Parse α} {c : Cursor} {bs : List UInt8} {a : α} (f : α → β)
    (hx : Reads x c bs a) : Reads (f <$> x) c bs (f a) := by
  have := hx.bind (f := fun a => pure (f a)) (reads_pure (f a) _)
  rwa [List.append_nil] at this

theorem readU8_cons {c : Cursor} {b : UInt8} {tl : List UInt8} (hv : c.Valid)
    (h : c.rest = b :: tl) : readU8 c = (.ok b, c.advance 1) := by
  have hg : c.bytes.data[c.pos]? = some b := by
    rw [← List.head?_drop]
    exact congrArg List.head? h
  have ha : c.pos + 1 < 2 ^ 64 := by have := hv.pos_lt; omega
  simp only [readU8, StateRes.bind_of_ok (cursor_apply c), hg,
    usizeAdd_of_lt ha]
  rfl

theorem readU8_nil {c : Cursor} (hv : c.Valid) (h : c.rest = []) :
    readU8 c = (.err ⟨c.pos, .truncated (c.pos + 1) c.bytes.len⟩, c) := by
  have hg : c.bytes.data[c.pos]? = none := by
    rw [← List.head?_drop]
    exact congrArg List.head? h
  have ha : c.pos + 1 < 2 ^ 64 := by have := hv.pos_lt; omega
  simp only [readU8, StateRes.bind_of_ok (cursor_apply c), hg,
    usizeAdd_of_lt ha]
  rfl

theorem reads_readU8 {c : Cursor} {b : UInt8} {tl : List UInt8} (hv : c.Valid)
    (h : c.rest = b :: tl) : Reads readU8 c [b] b :=
  reads_of_rest (show c.rest = [b] ++ tl from h) (readU8_cons hv h)

theorem safe_readU8 : Safe readU8 := by
  intro c hv
  cases h : c.rest with
  | nil => exact ⟨_, 0, readU8_nil hv h, hv, by simp⟩
  | cons b tl => exact ⟨_, 1, readU8_cons hv h, Cursor.valid_advance hv (show c.rest = [b] ++ tl from h),
      by simp⟩

theorem Reads.byte {c : Cursor} {bs : List UInt8} {b : UInt8} (h : Reads readU8 c bs b)
    (hv : c.Valid) : bs = [b] := by
  cases hr : c.rest with
  | nil => simp [Reads, readU8_nil hv hr] at h
  | cons d tl =>
    have he := h.2
    rw [readU8_cons hv hr] at he
    simp only [Prod.mk.injEq, Res.ok.injEq, Cursor.advance, Cursor.mk.injEq] at he
    obtain ⟨rfl, -, hp, -⟩ := he
    have hl : bs.length = 1 := by omega
    have := h.1
    rw [hr, hl] at this
    simpa using this.symm

theorem readFixed_append {c : Cursor} {bs tl : List UInt8} (hv : c.Valid) (h : c.rest = bs ++ tl)
    (hl : bs.length < 2 ^ 63) : readFixed bs.length c = (.ok bs, c.advance bs.length) := by
  have ha : c.pos + bs.length < 2 ^ 64 := by have := hv.pos_lt; omega
  have hstop := Cursor.valid_advance hv h
  unfold Cursor.Valid at hstop
  simp only [Cursor.advance_pos, Cursor.advance_bytes] at hstop
  have hg : c.bytes.get? c.pos (c.pos + bs.length) = some bs := by
    unfold Slice.get?
    rw [if_pos ⟨by omega, hstop⟩, Nat.add_sub_cancel_left]
    change some (c.rest.take bs.length) = some bs
    rw [h, List.take_left]
  simp only [readFixed, StateRes.bind_of_ok (cursor_apply c),
    usizeAdd_of_lt ha]
  rw [StateRes.bind_of_ok (StateRes.lift_apply _ _), hg]
  rfl

theorem readFixed_short {c : Cursor} {n : Nat} (hv : c.Valid) (h : c.rest.length < n)
    (hn : n < 2 ^ 63) :
    readFixed n c = (.err ⟨c.pos, .truncated (c.pos + n) c.bytes.len⟩, c) := by
  have ha : c.pos + n < 2 ^ 64 := by have := hv.pos_lt; omega
  have hl := Cursor.rest_length hv
  have hg : c.bytes.get? c.pos (c.pos + n) = none := by
    unfold Slice.get?
    rw [if_neg (by omega)]
  simp only [readFixed, StateRes.bind_of_ok (cursor_apply c),
    usizeAdd_of_lt ha]
  rw [StateRes.bind_of_ok (StateRes.lift_apply _ _), hg]
  rfl

theorem reads_readFixed {c : Cursor} {bs tl : List UInt8} {n : Nat} (hv : c.Valid)
    (h : c.rest = bs ++ tl) (hl : bs.length = n) (hn : n < 2 ^ 63) : Reads (readFixed n) c bs bs := by
  subst n
  exact reads_of_rest h (readFixed_append hv h hn)

/-- A fixed-width read takes all its bytes, or reports that the slice is too short
and leaves the cursor where it was. -/
theorem readFixed_cases {c : Cursor} {n : Nat} (hv : c.Valid) (hn : n < 2 ^ 63) :
    (∃ bs, Reads (readFixed n) c bs bs ∧ bs.length = n) ∨
      (readFixed n c = (.err ⟨c.pos, .truncated (c.pos + n) c.bytes.len⟩, c) ∧
        c.bytes.len < c.pos + n) := by
  have hlen := Cursor.rest_length hv
  by_cases h : n ≤ c.rest.length
  · have hl : (c.rest.take n).length = n := by simp [h]
    exact Or.inl ⟨_, reads_readFixed hv (List.take_append_drop n c.rest).symm hl hn, hl⟩
  · exact Or.inr ⟨readFixed_short hv (by omega) hn, by omega⟩

theorem safe_readFixed {n : Nat} (hn : n < 2 ^ 63) : Safe (readFixed n) := by
  intro c hv
  rcases readFixed_cases hv hn with ⟨bs, hr, -⟩ | ⟨he, -⟩
  · exact ⟨_, bs.length, hr.2, hr.valid hv, by simp⟩
  · exact ⟨_, 0, he, hv, by simp⟩

theorem safe_readU16 : Safe readU16 := (safe_readFixed (by omega)).map _

theorem safe_readU32 : Safe readU32 := (safe_readFixed (by omega)).map _

theorem safe_readU64 : Safe readU64 := (safe_readFixed (by omega)).map _

theorem Reads.fixed {c : Cursor} {n : Nat} {bs out : List UInt8} (h : Reads (readFixed n) c bs out)
    (hv : c.Valid) (hn : n < 2 ^ 63) : bs.length = n ∧ out = bs := by
  rcases readFixed_cases hv hn with ⟨xs, hr, hl⟩ | ⟨he, -⟩
  · have he := hr.2.symm.trans h.2
    simp only [Prod.mk.injEq, Res.ok.injEq, Cursor.advance, Cursor.mk.injEq] at he
    have hlen : bs.length = xs.length := by omega
    refine ⟨hlen.trans hl, ?_⟩
    rw [← he.1, ← h.1, hlen, hr.1]
  · rw [Reads, he] at h
    simp at h

/-- Every error of a routine at a position in the slice is one of these. -/
def Errors (P : Slice → DwarfParseError → Prop) (p : Parse α) : Prop :=
  ∀ c c' e, c.Valid → p c = (.err e, c') → P c.bytes e

section Errors

variable {P : Slice → DwarfParseError → Prop}

theorem Errors.pure (a : α) : Errors P (pure a) := by
  intro c c' e hv h
  cases h

theorem Errors.bind {x : Parse α} {f : α → Parse β} (hs : Safe x) (hx : Errors P x)
    (hf : ∀ a, Errors P (f a)) : Errors P (x >>= f) := by
  intro c c' e hv h
  obtain ⟨r, n, hr, hn, -⟩ := hs c hv
  cases r with
  | ok a =>
    rw [StateRes.bind_of_ok hr] at h
    exact hf a (c.advance n) c' e hn h
  | err e' =>
    rw [StateRes.bind_of_err hr] at h
    cases h
    exact hx c _ e hv hr
  | panic =>
    rw [StateRes.bind_of_panic hr] at h
    cases h

theorem Errors.map {x : Parse α} (f : α → β) (hs : Safe x) (hx : Errors P x) :
    Errors P (f <$> x) :=
  hx.bind hs (fun a => Errors.pure (f a))

theorem Errors.ite {p : Prop} [Decidable p] {x y : Parse α} (hx : Errors P x)
    (hy : Errors P y) : Errors P (if p then x else y) := by
  split
  · exact hx
  · exact hy

theorem errors_cursor : Errors P cursor := by
  intro c c' e hv h
  cases h

theorem errors_fail {kind : DwarfParseErrorKind} (h : ∀ s offset, P s ⟨offset, kind⟩) :
    Errors P (fail kind : Parse α) := by
  intro c c' e hv he
  cases he
  exact h c.bytes c.pos

/-- A fixed-width read reports a slice that is shorter than what it needs. -/
theorem errors_readFixed {n : Nat} (hn : n < 2 ^ 63)
    (h : ∀ s offset needed, s.len < needed → P s ⟨offset, .truncated needed s.len⟩) :
    Errors P (readFixed n) := by
  intro c c' e hv he
  rcases readFixed_cases hv hn with ⟨bs, hr, -⟩ | ⟨hshort, hlt⟩
  · cases hr.2.symm.trans he
  · cases hshort.symm.trans he
    exact h c.bytes c.pos _ hlt

variable (h : ∀ s offset needed, s.len < needed → P s ⟨offset, .truncated needed s.len⟩)
include h

theorem errors_readU16 : Errors P readU16 :=
  (errors_readFixed (by omega) h).map _ (safe_readFixed (by omega))

theorem errors_readU32 : Errors P readU32 :=
  (errors_readFixed (by omega) h).map _ (safe_readFixed (by omega))

theorem errors_readU64 : Errors P readU64 :=
  (errors_readFixed (by omega) h).map _ (safe_readFixed (by omega))

end Errors

/-- Undoes a mapped read. -/
theorem Reads.of_map {x : Parse α} {f : α → β} {c : Cursor} {bs : List UInt8} {b : β}
    (h : Reads (f <$> x) c bs b) : ∃ a, Reads x c bs a ∧ b = f a := by
  obtain ⟨a, t, ha, hb⟩ := StateRes.bind_eq_ok.mp h.2
  obtain ⟨he, rfl⟩ := Prod.mk.inj hb
  exact ⟨a, ⟨h.1, ha⟩, (Res.ok.inj he).symm⟩

/-- Undoes a sequence whose first part is safe. -/
theorem Reads.of_bind {x : Parse α} {f : α → Parse β} {c : Cursor} {bs : List UInt8} {b : β}
    (h : Reads (x >>= f) c bs b) (hx : Safe x) (hf : ∀ a, Safe (f a)) (hv : c.Valid) :
    ∃ a xs ys, bs = xs ++ ys ∧ Reads x c xs a ∧ Reads (f a) (c.advance xs.length) ys b := by
  obtain ⟨a, t, ha, hb⟩ := StateRes.bind_eq_ok.mp h.2
  obtain ⟨xs, hxs, rfl, ht⟩ := hx.reads hv ha
  obtain ⟨ys, hys, he, _⟩ := (hf a).reads ht hb
  rw [Cursor.advance_advance] at he
  have hlen : bs.length = (xs ++ ys).length := by
    have := congrArg Cursor.pos he
    simp only [Cursor.advance_pos] at this
    rw [List.length_append]
    omega
  refine ⟨a, xs, ys, ?_, hxs, hys⟩
  rw [← h.1, ← (hxs.bind hys).1, hlen]

/-- The accumulator stays below the bits the next group goes to, so the bitwise
or of a new group is an addition. -/
theorem or_shl_toNat {r v : UInt64} {s : Nat} (hs : s < 64) (hr : r.toNat < 2 ^ s) :
    (r ||| v <<< UInt64.ofNat s).toNat = (r.toNat + v.toNat * 2 ^ s) % 2 ^ 64 := by
  have hmod : (UInt64.ofNat s).toNat % 64 = s := by
    simp only [UInt64.toNat_ofNat']
    omega
  have hsplit : (2 : Nat) ^ 64 = 2 ^ s * 2 ^ (64 - s) := by
    rw [← Nat.pow_add]
    congr 1
    omega
  have hshl : v.toNat <<< s % 2 ^ 64 = (v.toNat % 2 ^ (64 - s)) <<< s := by
    rw [Nat.shiftLeft_eq, Nat.shiftLeft_eq, hsplit, Nat.mul_comm, Nat.mul_mod_mul_left,
      Nat.mul_comm]
  rw [UInt64.toNat_or, UInt64.toNat_shiftLeft, hmod, hshl, Nat.or_comm,
    ← Nat.shiftLeft_add_eq_or_of_lt hr, Nat.add_comm, ← hshl, Nat.shiftLeft_eq]
  have hlow : r.toNat + v.toNat * 2 ^ s % 2 ^ 64 < 2 ^ 64 := by
    have hv : v.toNat * 2 ^ s % 2 ^ 64 = (v.toNat % 2 ^ (64 - s)) * 2 ^ s := by
      rw [← Nat.shiftLeft_eq, hshl, Nat.shiftLeft_eq]
    have hb : v.toNat % 2 ^ (64 - s) < 2 ^ (64 - s) := Nat.mod_lt _ (Nat.two_pow_pos _)
    rw [hv, hsplit]
    calc r.toNat + v.toNat % 2 ^ (64 - s) * 2 ^ s
        < 2 ^ s + v.toNat % 2 ^ (64 - s) * 2 ^ s := by omega
      _ = (v.toNat % 2 ^ (64 - s) + 1) * 2 ^ s := by ring
      _ ≤ 2 ^ (64 - s) * 2 ^ s := Nat.mul_le_mul_right _ hb
      _ = 2 ^ s * 2 ^ (64 - s) := Nat.mul_comm _ _
  rw [Nat.add_mod, Nat.mod_eq_of_lt (a := r.toNat) r.toNat_lt, Nat.mod_eq_of_lt hlow]

end Unwinder.Dwarf
