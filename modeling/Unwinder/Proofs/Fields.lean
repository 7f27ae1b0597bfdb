import Unwinder.Proofs.Pointers

namespace Unwinder.Dwarf
open Lib

variable {α β : Type}

/-- The bytes stand at the read position. -/
def Cursor.Ahead (c : Cursor) (bs : List UInt8) : Prop := c.rest.take bs.length = bs

namespace Cursor

theorem ahead_of_rest {c : Cursor} {bs tl : List UInt8} (h : c.rest = bs ++ tl) : c.Ahead bs := by
  unfold Ahead
  rw [h, List.take_left]

theorem Ahead.rest {c : Cursor} {bs : List UInt8} (h : c.Ahead bs) :
    c.rest = bs ++ (c.advance bs.length).rest := by
  have hd : (c.advance bs.length).rest = c.rest.drop bs.length := by
    simp [Cursor.rest, List.drop_drop]
  calc c.rest = c.rest.take bs.length ++ c.rest.drop bs.length :=
        (List.take_append_drop bs.length c.rest).symm
    _ = bs ++ (c.advance bs.length).rest := by rw [h, hd]

theorem Ahead.valid {c : Cursor} {bs : List UInt8} (h : c.Ahead bs) (hv : c.Valid) :
    (c.advance bs.length).Valid := valid_advance hv h.rest

theorem ahead_append {c : Cursor} {xs ys : List UInt8} :
    c.Ahead (xs ++ ys) ↔ c.Ahead xs ∧ (c.advance xs.length).Ahead ys := by
  constructor
  · intro h
    have hr := h.rest
    rw [List.append_assoc] at hr
    exact ⟨ahead_of_rest hr, ahead_of_rest (rest_advance hr)⟩
  · intro h
    obtain ⟨hx, hy⟩ := h
    have h : c.rest = (xs ++ ys) ++ ((c.advance xs.length).advance ys.length).rest := by
      rw [hx.rest, hy.rest, List.append_assoc]
    exact ahead_of_rest h

theorem ahead_nil (c : Cursor) : c.Ahead [] := rfl

theorem currentAvma_advance (c : Cursor) (n : Nat) :
    (c.advance n).currentAvma = c.currentAvma + UInt64.ofNat n := by
  simp [currentAvma, UInt64.add_assoc]

theorem advance_append (c : Cursor) (xs ys : List UInt8) :
    c.advance (xs ++ ys).length = (c.advance xs.length).advance ys.length := by
  rw [advance_advance, List.length_append]

theorem advance_inj {c : Cursor} {m n : Nat} (h : c.advance m = c.advance n) : m = n := by
  have := congrArg Cursor.pos h
  simp only [advance_pos] at this
  omega

end Cursor

/-- A sequence of safe parts reads what they read one behind the other. -/
theorem reads_bind {x : Parse α} {f : α → Parse β} {c : Cursor} {bs : List UInt8} {b : β}
    (hx : Safe x) (hf : ∀ a, Safe (f a)) (hv : c.Valid) :
    Reads (x >>= f) c bs b ↔
      ∃ a xs ys, bs = xs ++ ys ∧ Reads x c xs a ∧ Reads (f a) (c.advance xs.length) ys b := by
  constructor
  · intro h
    exact h.of_bind hx hf hv
  · intro h
    obtain ⟨a, xs, ys, rfl, h, h'⟩ := h
    exact h.bind h'

theorem reads_bind_cursor {k : Cursor → Parse α} {c : Cursor} {bs : List UInt8} {a : α} :
    Reads (cursor >>= k) c bs a ↔ Reads (k c) c bs a := Iff.rfl

theorem reads_return {c : Cursor} {bs : List UInt8} {a b : α} :
    Reads (pure a) c bs b ↔ bs = [] ∧ b = a := by
  constructor
  · intro h
    obtain ⟨hr, hc⟩ := Prod.mk.inj h.2
    exact ⟨List.length_eq_zero_iff.mp (Cursor.advance_inj (n := 0) hc.symm), (Res.ok.inj hr).symm⟩
  · intro h
    obtain ⟨rfl, rfl⟩ := h
    exact reads_pure b c

theorem not_reads_failAt {n : Nat} {kind : DwarfParseErrorKind} {c : Cursor} {bs : List UInt8}
    {a : α} : ¬ Reads (failAt n kind) c bs a := by
  intro h
  simpa [failAt] using h.2

theorem not_reads_failBefore {n : Nat} {kind : DwarfParseErrorKind} {c : Cursor} {bs : List UInt8}
    {a : α} : ¬ Reads (failBefore n kind) c bs a := not_reads_failAt

/-- A check reads nothing and lets pass only what meets it. -/
theorem reads_check {p : Prop} [Decidable p] {x : Parse α} {c : Cursor} {bs : List UInt8} {a b : α}
    (hx : ¬ Reads x c bs b) : Reads (if p then x else pure a) c bs b ↔ ¬ p ∧ bs = [] ∧ b = a := by
  by_cases h : p
  · simp [h, hx]
  · simp [h, reads_return]

theorem reads_orFail {o : Option α} {kind : DwarfParseErrorKind} {c : Cursor} {bs : List UInt8}
    {a : α} : Reads (orFail kind o) c bs a ↔ bs = [] ∧ o = some a := by
  cases o with
  | none => exact ⟨fun h => absurd h not_reads_fail, by simp⟩
  | some v =>
    rw [orFail, reads_return]
    simp [eq_comm]

theorem reads_u8 {c : Cursor} {bs : List UInt8} {b : UInt8} (hv : c.Valid) :
    Reads readU8 c bs b ↔ c.Ahead bs ∧ bs = [b] := by
  constructor
  · intro h
    exact ⟨h.1, h.byte hv⟩
  · intro h
    obtain ⟨h, rfl⟩ := h
    exact reads_readU8 hv h.rest

theorem reads_fixed {c : Cursor} {bs : List UInt8} {w : Nat} {f : List UInt8 → α} {a : α}
    (hv : c.Valid) (hw : w < 2 ^ 63) :
    Reads (f <$> readFixed w) c bs a ↔ c.Ahead bs ∧ bs.length = w ∧ a = f bs := by
  constructor
  · intro h
    obtain ⟨out, hr, rfl⟩ := h.of_map
    obtain ⟨hlen, rfl⟩ := hr.fixed hv hw
    exact ⟨h.1, hlen, rfl⟩
  · intro h
    obtain ⟨h, hlen, rfl⟩ := h
    exact (reads_readFixed hv h.rest hlen hw).map f

theorem reads_uleb {c : Cursor} {bs : List UInt8} {v : UInt64} (hv : c.Valid) :
    Reads readUleb128 c bs v ↔
      c.Ahead bs ∧ (IsLeb bs ∧ bs.length ≤ 10) ∧ v = UInt64.ofNat (ulebValue bs) := by
  constructor
  · intro h
    have hs := h.uleb hv
    exact ⟨h.1, hs, h.unique (reads_readUleb128 hv h.rest hs.1 hs.2)⟩
  · intro h
    obtain ⟨h, hs, rfl⟩ := h
    exact reads_readUleb128 hv h.rest hs.1 hs.2

theorem reads_sleb {c : Cursor} {bs : List UInt8} {v : Int64} (hv : c.Valid) :
    Reads readSleb128 c bs v ↔
      c.Ahead bs ∧ (IsLeb bs ∧ bs.length ≤ 10) ∧ v = Int64.ofInt (slebValue bs) := by
  constructor
  · intro h
    have hs := h.sleb hv
    exact ⟨h.1, hs, h.unique (reads_readSleb128 hv h.rest hs.1 hs.2)⟩
  · intro h
    obtain ⟨h, hs, rfl⟩ := h
    exact reads_readSleb128 hv h.rest hs.1 hs.2

theorem safe_failBefore (n : Nat) (kind : DwarfParseErrorKind) :
    Safe (failBefore n kind : Parse α) :=
  safe_cursor.bind (fun c => safe_failAt (c.pos - n) kind)

theorem safe_orFail (kind : DwarfParseErrorKind) (o : Option α) : Safe (orFail kind o) := by
  cases o with
  | none => exact safe_fail kind
  | some v => exact Safe.pure v

theorem safe_entryEndFrom (n : Nat) : Safe (entryEndFrom n) :=
  safe_cursor.bind (fun _ => safe_orFail _ _)

theorem safe_readEntryLen (len32 : UInt32) (wide : Bool) : Safe (readEntryLen len32 wide) :=
  Safe.ite (safe_readU64.map _) (Safe.pure _)

theorem safe_readEntryLength : Safe readEntryLength :=
  safe_readU32.bind (fun len32 => (safe_readEntryLen len32 _).bind (fun n =>
    (safe_entryEndFrom n).bind (fun e => Safe.pure (_, e))))

theorem reads_entryEndFrom {n e : Nat} {c : Cursor} {bs : List UInt8} :
    Reads (entryEndFrom n) c bs e ↔ bs = [] ∧ c.pos + n < 2 ^ 64 ∧ e = c.pos + n := by
  unfold entryEndFrom
  rw [reads_bind_cursor, reads_orFail, checkedAdd]
  simp [eq_comm]

theorem word_spelling {bs : List UInt8} {w : Nat} (h : bs.length = w) :
    bs = leBytes w (leValue bs) := by rw [← h, leBytes_leValue]

theorem mark_iff {xs : List UInt8} (h : xs.length = 4) :
    UInt32.ofNat (leValue xs) = 0xffffffff ↔ leValue xs = 0xffffffff := by
  have hlt := leValue_lt xs
  rw [h] at hlt
  constructor
  · intro he
    have := congrArg UInt32.toNat he
    simp at this
    omega
  · intro he
    rw [he]
    rfl

/-- The two halves of a length field, the second present behind the mark. -/
structure LengthParts (wide : Bool) (len : Nat) (xs ys : List UInt8) : Prop where
  first : xs.length = 4
  mark : wide = true ↔ leValue xs = 0xffffffff
  second : ys.length = if wide then 8 else 0
  value : len = if wide then leValue ys else leValue xs

theorem lengthParts_iff {wide : Bool} {len : Nat} {bs : List UInt8} :
    (∃ xs ys, bs = xs ++ ys ∧ LengthParts wide len xs ys) ↔
      bs = lengthField wide len ∧ LengthFits wide len := by
  cases wide with
  | true =>
    simp only [lengthField, LengthFits, if_true]
    constructor
    · intro h
      obtain ⟨xs, ys, rfl, h1, hm, h2, rfl⟩ := h
      rw [if_pos rfl] at h2
      have hlt := leValue_lt ys
      rw [h2] at hlt
      rw [if_pos rfl, ← hm.mp rfl, ← word_spelling h1, ← word_spelling h2]
      exact ⟨rfl, hlt⟩
    · intro h
      obtain ⟨rfl, hf⟩ := h
      refine ⟨_, _, rfl, leBytes_length _ _, by decide, leBytes_length _ _, ?_⟩
      rw [if_pos rfl, leValue_leBytes_of_lt (by omega)]
  | false =>
    simp only [lengthField, LengthFits, Bool.false_eq_true, if_false]
    constructor
    · intro h
      obtain ⟨xs, ys, rfl, h1, hm, h2, rfl⟩ := h
      have hlt := leValue_lt xs
      rw [h1] at hlt
      have hne : leValue xs ≠ 0xffffffff := fun he => by simpa using hm.mpr he
      rw [List.length_eq_zero_iff.mp h2, if_neg (by simp), ← word_spelling h1]
      exact ⟨List.append_nil _, by omega⟩
    · intro h
      obtain ⟨rfl, hf⟩ := h
      have hval : leValue (leBytes 4 len) = len := leValue_leBytes_of_lt (by omega)
      refine ⟨_, [], (List.append_nil _).symm, leBytes_length _ _, ?_, rfl, ?_⟩
      · rw [hval]
        simp
        omega
      · rw [hval]
        rfl

theorem reads_readEntryLen {c : Cursor} {xs ys : List UInt8} {n : Nat} (hv : c.Valid)
    (hx : xs.length = 4) :
    Reads (readEntryLen (UInt32.ofNat (leValue xs)) (UInt32.ofNat (leValue xs) = 0xffffffff)) c ys n ↔
      c.Ahead ys ∧ LengthParts (UInt32.ofNat (leValue xs) = 0xffffffff) n xs ys := by
  have hmark := mark_iff hx
  have hlt := leValue_lt xs
  rw [hx] at hlt
  by_cases hm : UInt32.ofNat (leValue xs) = 0xffffffff
  · simp only [hm, decide_true, readEntryLen, if_true]
    constructor
    · intro h
      obtain ⟨v, hr, rfl⟩ := h.of_map
      obtain ⟨ha, hl, rfl⟩ := (reads_fixed hv (by omega)).mp hr
      have hy := leValue_lt ys
      rw [hl] at hy
      refine ⟨ha, hx, by simpa using hmark.mp hm, hl, ?_⟩
      rw [if_pos rfl, UInt64.toNat_ofNat', Nat.mod_eq_of_lt (by omega)]
    · intro h
      obtain ⟨ha, -, -, hl, rfl⟩ := h
      rw [if_pos rfl] at hl
      have hy := leValue_lt ys
      rw [hl] at hy
      have hr : Reads readU64 c ys (UInt64.ofNat (leValue ys)) :=
        (reads_fixed hv (by omega)).mpr ⟨ha, hl, rfl⟩
      have := hr.map UInt64.toNat
      rwa [UInt64.toNat_ofNat', Nat.mod_eq_of_lt (by omega)] at this
  · have hval : (UInt32.ofNat (leValue xs)).toNat = leValue xs := by
      rw [UInt32.toNat_ofNat', Nat.mod_eq_of_lt (by omega)]
    simp only [hm, decide_false, readEntryLen, Bool.false_eq_true, if_false, reads_return, hval]
    constructor
    · intro h
      obtain ⟨rfl, rfl⟩ := h
      exact ⟨c.ahead_nil, hx, by simpa using fun he => hm (hmark.mpr he), rfl, rfl⟩
    · intro h
      obtain ⟨-, -, -, hl, rfl⟩ := h
      exact ⟨List.length_eq_zero_iff.mp hl, rfl⟩

theorem safe_entryEndPair (wide : Bool) (n : Nat) :
    Safe (entryEndFrom n >>= fun e => pure (wide, e)) :=
  (safe_entryEndFrom n).bind (fun e => Safe.pure (wide, e))

theorem reads_entryEndPair (wide : Bool) {n : Nat} {c : Cursor} {bs : List UInt8} {r : Bool × Nat}
    (hv : c.Valid) : Reads (entryEndFrom n >>= fun e => pure (wide, e)) c bs r ↔
      bs = [] ∧ c.pos + n < 2 ^ 64 ∧ r = (wide, c.pos + n) := by
  rw [reads_bind (safe_entryEndFrom n) (fun e => Safe.pure (wide, e)) hv]
  constructor
  · intro h
    obtain ⟨e, xs, ys, rfl, hx, hy⟩ := h
    obtain ⟨rfl, ho, rfl⟩ := reads_entryEndFrom.mp hx
    obtain ⟨rfl, rfl⟩ := reads_return.mp hy
    exact ⟨rfl, ho, rfl⟩
  · intro h
    obtain ⟨rfl, ho, rfl⟩ := h
    exact ⟨_, [], [], rfl, reads_entryEndFrom.mpr ⟨rfl, ho, rfl⟩, reads_pure _ _⟩

/-- The length field is read exactly as it is spelled. -/
theorem reads_entryLength {c : Cursor} {bs : List UInt8} {wide : Bool} {e : Nat} (hv : c.Valid) :
    Reads readEntryLength c bs (wide, e) ↔ c.Ahead bs ∧ ∃ len, bs = lengthField wide len ∧
      LengthFits wide len ∧ c.pos + bs.length + len < 2 ^ 64 ∧ e = c.pos + bs.length + len := by
  unfold readEntryLength
  rw [reads_bind safe_readU32
    (fun len32 => (safe_readEntryLen len32 _).bind (safe_entryEndPair _)) hv]
  constructor
  · intro h
    obtain ⟨len32, xs, ys, rfl, hx, hy⟩ := h
    obtain ⟨hax, hlx, rfl⟩ := (reads_fixed hv (by omega)).mp hx
    have hvx := hax.valid hv
    obtain ⟨n, ys, zs, rfl, hl, hz⟩ :=
      (reads_bind (safe_readEntryLen _ _) (safe_entryEndPair _) hvx).mp hy
    obtain ⟨rfl, ho, he⟩ := (reads_entryEndPair _ (hl.valid hvx)).mp hz
    obtain ⟨hay, hp⟩ := (reads_readEntryLen hvx hlx).mp hl
    obtain ⟨rfl, rfl⟩ := Prod.mk.inj he
    obtain ⟨hb, hf⟩ := lengthParts_iff.mp ⟨xs, ys, rfl, hp⟩
    rw [List.append_nil]
    simp only [Cursor.advance_advance, Cursor.advance_pos] at ho ⊢
    rw [List.length_append, ← Nat.add_assoc] at *
    exact ⟨Cursor.ahead_append.mpr ⟨hax, hay⟩, n, hb, hf, ho, rfl⟩
  · intro h
    obtain ⟨ha, len, hb, hf, ho, rfl⟩ := h
    obtain ⟨xs, ys, rfl, hp⟩ := lengthParts_iff.mpr ⟨hb, hf⟩
    obtain ⟨hax, hay⟩ := Cursor.ahead_append.mp ha
    have hvx := hax.valid hv
    have hw : wide = decide (UInt32.ofNat (leValue xs) = 0xffffffff) := by
      rw [Bool.eq_iff_iff, decide_eq_true_iff, mark_iff hp.first]
      exact hp.mark
    subst hw
    have hr := (reads_readEntryLen hvx hp.first).mpr ⟨hay, hp⟩
    refine ⟨_, xs, ys, rfl, (reads_fixed hv (by omega)).mpr ⟨hax, hp.first, rfl⟩, ?_⟩
    have hpos : ((c.advance xs.length).advance ys.length).pos + len =
        c.pos + (xs ++ ys).length + len := by simp [Nat.add_assoc]
    have hend := (reads_entryEndPair
      (decide (UInt32.ofNat (leValue xs) = 0xffffffff)) (hay.valid hvx)).mpr
      ⟨rfl, hpos ▸ ho, rfl⟩
    rw [hpos] at hend
    have := hr.bind (f := fun n => entryEndFrom n >>= fun e =>
      pure (decide (UInt32.ofNat (leValue xs) = 0xffffffff), e)) hend
    rwa [List.append_nil] at this

theorem safe_readEntryId (wide : Bool) : Safe (readEntryId wide) :=
  Safe.ite safe_readU64 (safe_readU32.map _)

theorem reads_entryId {wide : Bool} {c : Cursor} {bs : List UInt8} {v : UInt64} (hv : c.Valid) :
    Reads (readEntryId wide) c bs v ↔
      c.Ahead bs ∧ bs = idField wide v.toNat ∧ v.toNat < 256 ^ idWidth wide := by
  have hspell : ∀ {w : Nat}, w ≤ 8 → (bs.length = w ∧ v = UInt64.ofNat (leValue bs) ↔
      bs = leBytes w v.toNat ∧ v.toNat < 256 ^ w) := by
    intro w hw
    have hpow : 256 ^ w ≤ 2 ^ 64 := by
      calc 256 ^ w ≤ 256 ^ 8 := Nat.pow_le_pow_right (by omega) hw
        _ = 2 ^ 64 := by norm_num
    constructor
    · intro h
      obtain ⟨hl, rfl⟩ := h
      have hlt := leValue_lt bs
      rw [hl] at hlt
      rw [UInt64.toNat_ofNat', Nat.mod_eq_of_lt (by omega)]
      exact ⟨word_spelling hl, hlt⟩
    · intro h
      obtain ⟨rfl, hlt⟩ := h
      refine ⟨leBytes_length _ _, ?_⟩
      rw [leValue_leBytes_of_lt hlt, UInt64.ofNat_toNat]
  cases wide with
  | true =>
    simp only [readEntryId, idField, idWidth, if_true]
    rw [← hspell (by omega)]
    exact reads_fixed hv (by omega)
  | false =>
    simp only [readEntryId, idField, idWidth, Bool.false_eq_true, if_false]
    rw [← hspell (by omega)]
    constructor
    · intro h
      obtain ⟨w, hr, rfl⟩ := h.of_map
      obtain ⟨ha, hl, rfl⟩ := (reads_fixed hv (by omega)).mp hr
      exact ⟨ha, hl, zext32 hl⟩
    · intro h
      obtain ⟨ha, hl, rfl⟩ := h
      have hr : Reads readU32 c bs (UInt32.ofNat (leValue bs)) :=
        (reads_fixed hv (by omega)).mpr ⟨ha, hl, rfl⟩
      rw [← zext32 hl]
      exact hr.map _

theorem safe_readCieId (wide : Bool) : Safe (readCieId wide) :=
  safe_cursor.bind (fun _ => (safe_readEntryId wide).bind (fun _ =>
    Safe.ite (safe_failAt _ _) (Safe.pure ())))

/-- A read followed by a check of what it returned. -/
theorem reads_checked {p : α → Prop} [DecidablePred p] {x : Parse α} {bad : α → Parse β}
    {g : α → β} {c : Cursor} {bs : List UInt8} {b : β} (hx : Safe x) (hb : ∀ a, Safe (bad a))
    (hbad : ∀ {a c bs b}, ¬ Reads (bad a) c bs b) (hv : c.Valid) :
    Reads (x >>= fun a => if p a then bad a else pure (g a)) c bs b ↔
      ∃ a, Reads x c bs a ∧ ¬ p a ∧ b = g a := by
  rw [reads_bind hx (fun a => Safe.ite (hb a) (Safe.pure (g a))) hv]
  constructor
  · intro h
    obtain ⟨a, xs, ys, rfl, hr, hc⟩ := h
    obtain ⟨hp, rfl, rfl⟩ := (reads_check hbad).mp hc
    exact ⟨a, by rwa [List.append_nil], hp, rfl⟩
  · intro h
    obtain ⟨a, hr, hp, rfl⟩ := h
    exact ⟨a, bs, [], (List.append_nil bs).symm, hr, (reads_check hbad).mpr ⟨hp, rfl, rfl⟩⟩

theorem reads_cieId {wide : Bool} {c : Cursor} {bs : List UInt8} (hv : c.Valid) :
    Reads (readCieId wide) c bs () ↔ c.Ahead bs ∧ bs = idField wide 0 := by
  unfold readCieId
  rw [reads_bind_cursor, reads_checked (safe_readEntryId wide) (fun _ => safe_failAt _ _)
    not_reads_failAt hv]
  constructor
  · intro h
    obtain ⟨v, hr, hz, -⟩ := h
    obtain rfl : v = 0 := by simpa using hz
    obtain ⟨ha, hb, -⟩ := (reads_entryId hv).mp hr
    exact ⟨ha, hb⟩
  · intro h
    obtain ⟨ha, hb⟩ := h
    exact ⟨0, (reads_entryId hv).mpr ⟨ha, hb, by simp⟩, by simp, rfl⟩

theorem safe_readCiePointer (wide : Bool) : Safe (readCiePointer wide) :=
  safe_cursor.bind (fun _ => (safe_readEntryId wide).bind (fun _ =>
    Safe.ite (safe_failAt _ _) (Safe.pure ())))

theorem reads_ciePointer {wide : Bool} {c : Cursor} {bs : List UInt8} (hv : c.Valid) :
    Reads (readCiePointer wide) c bs () ↔
      c.Ahead bs ∧ ∃ n, bs = idField wide n ∧ 0 < n ∧ n < 256 ^ idWidth wide := by
  unfold readCiePointer
  rw [reads_bind_cursor, reads_checked (safe_readEntryId wide) (fun _ => safe_failAt _ _)
    not_reads_failAt hv]
  constructor
  · intro h
    obtain ⟨v, hr, hz, -⟩ := h
    obtain ⟨ha, hb, hlt⟩ := (reads_entryId hv).mp hr
    have hne : v.toNat ≠ 0 := fun h => hz (UInt64.toNat.inj h)
    exact ⟨ha, v.toNat, hb, by omega, hlt⟩
  · intro h
    obtain ⟨ha, n, rfl, hpos, hlt⟩ := h
    have hpow : 256 ^ idWidth wide ≤ 2 ^ 64 := by cases wide <;> simp [idWidth]
    have hval : (UInt64.ofNat n).toNat = n := by
      rw [UInt64.toNat_ofNat', Nat.mod_eq_of_lt (by omega)]
    refine ⟨UInt64.ofNat n, (reads_entryId hv).mpr ?_, ?_, rfl⟩
    · rw [hval]
      exact ⟨ha, rfl, hlt⟩
    · intro h
      rw [h] at hval
      simp at hval
      omega

theorem safe_readVersion : Safe readVersion :=
  safe_readU8.bind (fun _ => Safe.ite (safe_failBefore _ _) (Safe.pure _))

theorem reads_version {c : Cursor} {bs : List UInt8} {v : UInt8} (hv : c.Valid) :
    Reads readVersion c bs v ↔ c.Ahead bs ∧ bs = [v] ∧ (v = 1 ∨ v = 3 ∨ v = 4) := by
  unfold readVersion
  rw [reads_checked safe_readU8 (fun _ => safe_failBefore _ _) not_reads_failBefore hv]
  constructor
  · intro h
    obtain ⟨w, hr, hw, rfl⟩ := h
    obtain ⟨ha, hb⟩ := (reads_u8 hv).mp hr
    refine ⟨ha, hb, ?_⟩
    by_contra hn
    simp only [not_or] at hn
    exact hw hn
  · intro h
    obtain ⟨ha, hb, hw⟩ := h
    refine ⟨v, (reads_u8 hv).mpr ⟨ha, hb⟩, ?_, rfl⟩
    intro h
    obtain ⟨h1, h3, h4⟩ := h
    exact hw.elim h1 (fun h => h.elim h3 h4)

theorem readAugmentation_split {c : Cursor} {aug tl : List UInt8} (hv : c.Valid)
    (h : c.rest = aug ++ 0 :: tl) (hz : (0 : UInt8) ∉ aug) :
    readAugmentation c = (.ok aug, c.advance (aug.length + 1)) := by
  have hidx : (c.bytes.data.drop c.pos).findIdx? (· = 0) = some aug.length := by
    change c.rest.findIdx? (· = 0) = some aug.length
    have hnone : aug.findIdx? (fun b => decide (b = 0)) = none := by
      rw [List.findIdx?_eq_none_iff]
      intro b hb
      simpa using fun he : b = 0 => hz (he ▸ hb)
    rw [h, List.findIdx?_append, hnone]
    simp [List.findIdx?_cons]
  have hend := Cursor.rest_length hv
  rw [h] at hend
  simp only [List.length_append, List.length_cons] at hend
  have hb := c.bytes.bound
  have hlen : c.bytes.len = c.bytes.data.length := rfl
  have ha : c.pos + aug.length < 2 ^ 64 := by omega
  have ha' : c.pos + aug.length + 1 < 2 ^ 64 := by omega
  have htake : (c.bytes.data.drop c.pos).take aug.length = aug := by
    change c.rest.take aug.length = aug
    rw [h, List.take_left]
  unfold readAugmentation
  rw [StateRes.bind_of_ok (cursor_apply c),
    if_neg (by have := hv; unfold Cursor.Valid at this; omega), hidx]
  simp only [usizeAdd_of_lt ha, usizeAdd_of_lt ha', StateRes.lift_ok_bind, htake]
  rfl

theorem readAugmentation_unterminated {c : Cursor} (hv : c.Valid) (h : (0 : UInt8) ∉ c.rest) :
    readAugmentation c = (.err ⟨c.pos, .unterminatedAugmentationString⟩, c) := by
  have hidx : (c.bytes.data.drop c.pos).findIdx? (· = 0) = none := by
    rw [List.findIdx?_eq_none_iff]
    intro b hb
    simpa using fun he : b = 0 => h (he ▸ hb)
  unfold readAugmentation
  rw [StateRes.bind_of_ok (cursor_apply c),
    if_neg (by have := hv; unfold Cursor.Valid at this; omega), hidx]
  rfl

theorem safe_readAugmentation : Safe readAugmentation := by
  intro c hv
  by_cases hm : (0 : UInt8) ∈ c.rest
  · obtain ⟨aug, tl, h, hz⟩ := List.eq_append_cons_of_mem hm
    have hv' := Cursor.valid_advance hv (show c.rest = (aug ++ [0]) ++ tl by simpa using h)
    rw [List.length_append] at hv'
    exact ⟨_, _, readAugmentation_split hv h hz, hv', by simp⟩
  · exact ⟨_, 0, readAugmentation_unterminated hv hm, hv, by simp⟩

theorem reads_augmentation {c : Cursor} {bs aug : List UInt8} (hv : c.Valid) :
    Reads readAugmentation c bs aug ↔ c.Ahead bs ∧ bs = aug ++ [0] ∧ (0 : UInt8) ∉ aug := by
  constructor
  · intro h
    by_cases hm : (0 : UInt8) ∈ c.rest
    · obtain ⟨s, tl, hr, hz⟩ := List.eq_append_cons_of_mem hm
      have he := (readAugmentation_split hv hr hz).symm.trans h.2
      obtain ⟨hok, hc⟩ := Prod.mk.inj he
      obtain rfl := Res.ok.inj hok
      have hl := Cursor.advance_inj hc
      refine ⟨h.1, ?_, hz⟩
      rw [← h.1, ← hl, hr, List.append_cons, ← List.length_singleton (a := (0 : UInt8)),
        ← List.length_append, List.take_left]
    · have := h.2
      rw [readAugmentation_unterminated hv hm] at this
      simp at this
  · intro h
    obtain ⟨ha, rfl, hz⟩ := h
    refine ⟨ha, ?_⟩
    have hr := ha.rest
    rw [List.append_assoc] at hr
    rw [readAugmentation_split hv hr hz, List.length_append]
    rfl

theorem safe_sizeCheck (a s : UInt8) : Safe (if a ≠ 8 ∨ s ≠ 0 then
    failBefore 2 (.unsupportedCieAddressSize a s) else return () : Parse Unit) :=
  Safe.ite (safe_failBefore _ _) (Safe.pure ())

theorem safe_readAddressSizes (version : UInt8) : Safe (readAddressSizes version) :=
  Safe.ite (safe_readU8.bind (fun a => safe_readU8.bind (safe_sizeCheck a))) (Safe.pure ())

theorem reads_addressSizes {version : UInt8} {c : Cursor} {bs : List UInt8} (hv : c.Valid) :
    Reads (readAddressSizes version) c bs () ↔
      c.Ahead bs ∧ bs = if version = 4 then [8, 0] else [] := by
  unfold readAddressSizes
  by_cases h4 : version = 4
  · rw [if_pos h4, if_pos h4,
      reads_bind safe_readU8 (fun a => safe_readU8.bind (safe_sizeCheck a)) hv]
    constructor
    · intro h
      obtain ⟨a, xs, ys, rfl, hx, hy⟩ := h
      obtain ⟨hax, rfl⟩ := (reads_u8 hv).mp hx
      obtain ⟨s, hs, hp, -⟩ := (reads_checked safe_readU8 (fun _ => safe_failBefore _ _)
        not_reads_failBefore (hax.valid hv)).mp hy
      obtain ⟨has, rfl⟩ := (reads_u8 (hax.valid hv)).mp hs
      simp only [ne_eq, not_or, not_not] at hp
      obtain ⟨rfl, rfl⟩ := hp
      exact ⟨Cursor.ahead_append.mpr ⟨hax, has⟩, rfl⟩
    · intro h
      obtain ⟨ha, rfl⟩ := h
      obtain ⟨hax, has⟩ := Cursor.ahead_append.mp (show c.Ahead ([8] ++ [0]) from ha)
      refine ⟨8, [8], [0], rfl, (reads_u8 hv).mpr ⟨hax, rfl⟩, ?_⟩
      exact (reads_checked safe_readU8 (fun _ => safe_failBefore _ _) not_reads_failBefore
        (hax.valid hv)).mpr ⟨0, (reads_u8 (hax.valid hv)).mpr ⟨has, rfl⟩, by simp, rfl⟩
  · rw [if_neg h4, if_neg h4, reads_return]
    constructor
    · intro h
      obtain ⟨rfl, -⟩ := h
      exact ⟨c.ahead_nil, rfl⟩
    · intro h
      obtain ⟨-, rfl⟩ := h
      exact ⟨rfl, rfl⟩

theorem safe_readReturnColumn (version : UInt8) : Safe (readReturnColumn version) :=
  Safe.ite (safe_readU8.map _) safe_readUleb128

theorem reads_returnColumn {version : UInt8} {c : Cursor} {bs : List UInt8} {v : UInt64}
    (hv : c.Valid) : Reads (readReturnColumn version) c bs v ↔
      c.Ahead bs ∧ ColumnShape version bs ∧ v = columnOf version bs := by
  unfold readReturnColumn ColumnShape columnOf
  by_cases h1 : version = 1
  · simp only [if_pos h1]
    constructor
    · intro h
      obtain ⟨b, hr, rfl⟩ := h.of_map
      obtain ⟨ha, rfl⟩ := (reads_u8 hv).mp hr
      exact ⟨ha, rfl, rfl⟩
    · intro h
      obtain ⟨ha, hl, rfl⟩ := h
      obtain ⟨b, rfl⟩ := List.length_eq_one_iff.mp hl
      exact ((reads_u8 hv).mpr ⟨ha, rfl⟩).map _
  · simp only [if_neg h1]
    exact reads_uleb hv

end Unwinder.Dwarf
