import Unwinder.Proofs.ExprOps
import Unwinder.Proofs.Fetch

namespace Unwinder.Native
open Lib Interaction Dwarf Ffi

theorem ExprOp.ofCode_code (op : ExprOp) : ofCode op.code = some op := by
  cases op with
  | lit n | reg n | breg n =>
    revert n
    decide +kernel
  | unary op | binary op => cases op <;> decide +kernel
  | _ => decide +kernel

section Operands

variable {known : Oracle} {addr : UInt64}

/-- The bits from a place on, as a number. -/
theorem highOnes_toNat {bits : UInt64} (hlt : bits.toNat < 64) :
    ((0 - 1 : UInt64) <<< bits).toNat = (2 ^ (64 - bits.toNat) - 1) <<< bits.toNat := by
  have hpow : 2 ^ 64 = 2 ^ (64 - bits.toNat) * 2 ^ bits.toNat := by
    rw [← Nat.pow_add, Nat.sub_add_cancel hlt.le]
  have hp : 0 < 2 ^ (64 - bits.toNat) := Nat.two_pow_pos _
  have hq : 0 < 2 ^ bits.toNat := Nat.two_pow_pos _
  rw [UInt64.toNat_shiftLeft, Nat.mod_eq_of_lt hlt, show (0 - 1 : UInt64).toNat = 2 ^ 64 - 1 from rfl,
    Nat.shiftLeft_eq, Nat.shiftLeft_eq, hpow, Nat.mul_mod_mul_right]
  congr 1
  generalize 2 ^ (64 - bits.toNat) = p at *
  generalize 2 ^ bits.toNat = q at *
  have hsum : p * q - 1 = p * (q - 1) + (p - 1) := by
    rw [Nat.mul_sub, Nat.mul_one]
    have := Nat.le_mul_of_pos_right p hq
    omega
  rw [hsum, Nat.mul_add_mod, Nat.mod_eq_of_lt (by omega)]

theorem signBit_iff {bits x : UInt64} (hpos : 0 < bits.toNat) (hlt : bits.toNat < 64)
    (hx : x.toNat < 2 ^ bits.toNat) :
    x &&& ((1 : UInt64) <<< (bits - 1)) ≠ 0 ↔ 2 ^ (bits.toNat - 1) ≤ x.toNat := by
  have hsub : (bits - 1).toNat = bits.toNat - 1 :=
    UInt64.toNat_sub_of_le _ _ (UInt64.le_iff_toNat_le.mpr hpos)
  have hsign : ((1 : UInt64) <<< (bits - 1)).toNat = 2 ^ (bits.toNat - 1) := by
    rw [UInt64.toNat_shiftLeft, hsub, Nat.mod_eq_of_lt (a := bits.toNat - 1) (by omega),
      UInt64.toNat_one, Nat.one_shiftLeft,
      Nat.mod_eq_of_lt (Nat.pow_lt_pow_right (by omega) (by omega))]
  rw [ne_eq, ← UInt64.toNat_inj, UInt64.toNat_and, hsign, Nat.and_two_pow, UInt64.toNat_zero]
  have hone := Nat.two_pow_pos (bits.toNat - 1)
  constructor
  · intro hne
    apply Nat.ge_two_pow_of_testBit
    cases hbit : x.toNat.testBit (bits.toNat - 1) with
    | true => rfl
    | false => simp [hbit] at hne
  · intro hle
    rw [Nat.testBit_of_two_pow_le_and_two_pow_add_one_gt hle (by rwa [Nat.sub_add_cancel hpos])]
    simp

/-- Setting the high bits is what sign extension does. -/
theorem extendSign_eq {bits x : UInt64} (hpos : 0 < bits.toNat) (hlt : bits.toNat < 64)
    (v : BitVec bits.toNat) (hx : x.toNat = v.toNat) :
    extendSign bits x = UInt64.ofBitVec (v.signExtend 64) := by
  have hv : x.toNat < 2 ^ bits.toNat := hx ▸ v.isLt
  have hpow : 2 ^ (64 - bits.toNat) * 2 ^ bits.toNat = 2 ^ 64 := by
    rw [← Nat.pow_add, Nat.sub_add_cancel hlt.le]
  apply UInt64.toNat.inj
  change (extendSign bits x).toNat = (v.signExtend 64).toNat
  rw [BitVec.toNat_signExtend, BitVec.msb_eq_decide, BitVec.toNat_setWidth,
    Nat.mod_eq_of_lt (hx ▸ x.toNat_lt), ← hx]
  unfold extendSign
  split
  · next h =>
    rw [if_pos (decide_eq_true ((signBit_iff hpos hlt hv).mp h)), UInt64.toNat_or,
      highOnes_toNat hlt, Nat.or_comm, or_parts hv, Nat.sub_mul, hpow, Nat.one_mul, Nat.add_comm]
  · next h =>
    rw [decide_eq_false (fun hle => h ((signBit_iff hpos hlt hv).mpr hle))]
    rfl

theorem extendSign_int8 (v : Int8) : extendSign 8 v.toUInt8.toUInt64 = v.toInt64.toUInt64 :=
  @extendSign_eq 8 _ (by decide) (by decide) v.toBitVec rfl

theorem extendSign_int16 (v : Int16) : extendSign 16 v.toUInt16.toUInt64 = v.toInt64.toUInt64 :=
  @extendSign_eq 16 _ (by decide) (by decide) v.toBitVec rfl

theorem extendSign_int32 (v : Int32) : extendSign 32 v.toUInt32.toUInt64 = v.toInt64.toUInt64 :=
  @extendSign_eq 32 _ (by decide) (by decide) v.toBitVec rfl

variable {m : Machine}

/-- What a machine has in memory is what libunwind reads. -/
def SeesMemory (known : Oracle) (m : Machine) : Prop :=
  ∀ addr b, m.byte addr = some b → HasByte known addr b

theorem load_bytes {k n : Nat} (hm : SeesMemory known m) (h : m.load k addr = some n) :
    HasBytes known addr (leBytes k n) ∧ n < 256 ^ k := by
  induction k generalizing addr n with
  | zero =>
    cases h
    exact ⟨trivial, by decide⟩
  | succ k ih =>
    obtain ⟨b, hb, h⟩ := Option.bind_eq_some_iff.mp h
    obtain ⟨rest, hrest, h⟩ := Option.bind_eq_some_iff.mp h
    cases h
    obtain ⟨hbytes, hlt⟩ := ih hrest
    have hb' : b.toNat < 256 := b.toNat_lt
    have hlow : (b.toNat + 256 * rest) % 256 = b.toNat := by omega
    have hhigh : (b.toNat + 256 * rest) / 256 = rest := by omega
    constructor
    · rw [leBytes, hlow, hhigh, UInt8.ofNat_toNat]
      exact ⟨hm _ _ hb, hbytes⟩
    · rw [Nat.pow_succ']
      omega

/-- The distance of a jump ahead. -/
theorem jumpDistance {d : Nat} (h : d < 2 ^ 15) :
    (UInt16.ofNat d).toUInt64.toUInt16.toInt16.toInt64.toUInt64 = UInt64.ofNat d := by
  have hmsb : (BitVec.ofNat 16 d).msb = false := by
    rw [BitVec.msb_eq_decide, BitVec.toNat_ofNat]
    simp only [decide_eq_false_iff_not, Nat.not_le]
    omega
  rw [UInt16.toUInt16_toUInt64]
  apply UInt64.toNat.inj
  change ((BitVec.ofNat 16 d).signExtend 64).toNat = (UInt64.ofNat d).toNat
  rw [BitVec.signExtend_eq_setWidth_of_msb_false hmsb, BitVec.toNat_setWidth, BitVec.toNat_ofNat,
    UInt64.toNat_ofNat']
  omega

end Operands

section Loop

variable {known : Oracle} {toRegnum : UInt64 → UInt64} {getReg : UInt64 → Code UInt64}
  {addr addr' endAddr x : UInt64} {stack stack' : ExprStack} {rounds rounds' : Nat}
  {r : UInt64 × Bool}

theorem returns_push (h : stack.length < MAX_EXPR_STACK_SIZE) :
    Returns known (push stack x) (.ok (x :: stack)) := by
  unfold push
  rw [if_neg (Nat.not_le.mpr h)]
  exact returns_pure

/-- More rounds than are needed do no harm. -/
theorem exprLoop_mono (rounds : Nat) (hle : rounds ≤ rounds')
    (h : Returns known (exprLoop toRegnum getReg endAddr rounds addr stack) (.ok r)) :
    Returns known (exprLoop toRegnum getReg endAddr rounds' addr stack) (.ok r) := by
  induction rounds generalizing rounds' addr stack with
  | zero =>
    unfold exprLoop at h
    split at h
    · cases h
    · next hend =>
      cases rounds' <;>
      · unfold exprLoop
        rw [if_neg hend]
        exact h
  | succ rounds ih =>
    obtain ⟨rounds', rfl⟩ : ∃ k, rounds' = k + 1 := ⟨rounds' - 1, by omega⟩
    unfold exprLoop at h ⊢
    split
    · next hlt =>
      rw [if_pos hlt] at h
      rcases returns_bind_iff.mp h with ⟨res, hres, hgo⟩ | ⟨e, -, he⟩
      · refine Returns.bind hres ?_
        cases res with
        | more addr stack => exact ih (by omega) hgo
        | register num => exact hgo
      · cases he
    · next hend => rwa [if_neg hend] at h

theorem readOperands_nil : Returns known (readOperands [] addr) (.ok (0, 0, behind addr [])) := by
  rw [behind_nil]
  exact returns_pure

theorem readOperands_byte {b : UInt8} {kinds : List Operand} (hk : kinds = [.val8])
    (h : HasBytes known addr [b]) :
    Returns known (readOperands kinds addr) (.ok (b.toUInt64, 0, behind addr [b])) := by
  subst hk
  rw [behind_cons, behind_nil]
  exact Returns.bind (Returns.bind h.1 returns_pure) returns_pure

theorem readOperands_jump {d : Nat} {kinds : List Operand} (hk : kinds = [.val16])
    (h : HasBytes known addr (leBytes 2 d)) :
    Returns known (readOperands kinds addr)
      (.ok ((UInt16.ofNat d).toUInt64, 0, behind addr (leBytes 2 d))) := by
  subst hk
  exact Returns.bind (Returns.bind (returns_readu16 h) returns_pure) returns_pure

/-- One round on an operator and its operands. -/
theorem exprLoop_step {op : ExprOp} {operand1 operand2 : UInt64} {rest : List UInt8}
    (hb : HasBytes known addr (op.code :: rest))
    (hin : addr.toNat + (op.code :: rest).length ≤ endAddr.toNat)
    (hops : Returns known (readOperands op.operands (addr + 1))
      (.ok (operand1, operand2, behind (addr + 1) rest)))
    (hinstr : Returns known
      (exprInstr toRegnum getReg op operand1 operand2 (behind addr (op.code :: rest)) stack)
      (.ok (.more addr' stack')))
    (hgo : Returns known (exprLoop toRegnum getReg endAddr rounds addr' stack') (.ok r)) :
    Returns known (exprLoop toRegnum getReg endAddr (rounds + 1) addr stack) (.ok r) := by
  have hlt : addr < endAddr := UInt64.lt_iff_toNat_lt.mpr (by rw [List.length_cons] at hin; omega)
  have hround : Returns known (exprRound toRegnum getReg addr stack) (.ok (.more addr' stack')) := by
    refine Returns.bind hb.1 ?_
    dsimp only
    rw [ExprOp.ofCode_code]
    rw [behind_cons] at hinstr
    exact Returns.bind hops hinstr
  unfold exprLoop
  rw [if_pos hlt]
  exact Returns.bind hround hgo

theorem returns_pop : Returns known (pop (x :: stack)) (.ok (x, stack)) := returns_pure

end Loop

/-! What the operators make of the stack. -/
section Operators

variable {known : Oracle} {toRegnum : UInt64 → UInt64} {getReg : UInt64 → Code UInt64}
  {operand1 operand2 next x y v : UInt64} {stack : ExprStack}

theorem deref_spec (h : stack.length < MAX_EXPR_STACK_SIZE) {behind : UInt64}
    (hread : Returns known (dwarfReadw x) (.ok (v, behind))) :
    Returns known (exprInstr toRegnum getReg .deref operand1 operand2 next (x :: stack))
      (.ok (.more next (v :: stack))) :=
  Returns.bind returns_pop (Returns.bind hread (Returns.bind (returns_push h) returns_pure))

theorem derefSize_spec (h : stack.length < MAX_EXPR_STACK_SIZE)
    (hread : Returns known (derefSize operand1 x) (.ok v)) :
    Returns known (exprInstr toRegnum getReg .derefSize operand1 operand2 next (x :: stack))
      (.ok (.more next (v :: stack))) :=
  Returns.bind returns_pop (Returns.bind hread (Returns.bind (returns_push h) returns_pure))

theorem unary_spec (h : stack.length < MAX_EXPR_STACK_SIZE) (op : UnaryOp) :
    Returns known (exprInstr toRegnum getReg (.unary op) operand1 operand2 next (x :: stack))
      (.ok (.more next (op.apply x :: stack))) :=
  Returns.bind returns_pop (Returns.bind (returns_push h) returns_pure)

theorem plusUconst_spec (h : stack.length < MAX_EXPR_STACK_SIZE) :
    Returns known (exprInstr toRegnum getReg .plusUconst operand1 operand2 next (x :: stack))
      (.ok (.more next ((x + operand1) :: stack))) :=
  Returns.bind returns_pop (Returns.bind (returns_push h) returns_pure)

theorem binary_spec (h : stack.length < MAX_EXPR_STACK_SIZE) {op : BinaryOp}
    (hv : op.apply y x = some v) :
    Returns known (exprInstr toRegnum getReg (.binary op) operand1 operand2 next (y :: x :: stack))
      (.ok (.more next (v :: stack))) := by
  refine Returns.bind returns_pop (Returns.bind returns_pop ?_)
  dsimp only
  rw [hv]
  exact Returns.bind (returns_push h) returns_pure

theorem bra_spec {d : Nat} (hd : d < 2 ^ 15) :
    Returns known (exprInstr toRegnum getReg .bra (UInt16.ofNat d).toUInt64 operand2 next (x :: stack))
      (.ok (.more (if x ≠ 0 then next + UInt64.ofNat d else next) stack)) := by
  refine Returns.bind returns_pop ?_
  dsimp only
  rw [jumpDistance hd]
  split
  · exact returns_pure
  · exact returns_pure

theorem skip_spec {d : Nat} (hd : d < 2 ^ 15) :
    Returns known (exprInstr toRegnum getReg .skip (UInt16.ofNat d).toUInt64 operand2 next stack)
      (.ok (.more (next + UInt64.ofNat d) stack)) := by
  unfold exprInstr
  rw [jumpDistance hd]
  exact returns_pure

theorem swap_spec (h : stack.length + 1 < MAX_EXPR_STACK_SIZE) :
    Returns known (exprInstr toRegnum getReg .swap operand1 operand2 next (y :: x :: stack))
      (.ok (.more next (x :: y :: stack))) :=
  Returns.bind returns_pop (Returns.bind returns_pop
    (Returns.bind (returns_push (Nat.lt_of_succ_lt h)) (Returns.bind (returns_push h) returns_pure)))

theorem drop_spec (x : UInt64) :
    Returns known (exprInstr toRegnum getReg .drop operand1 operand2 next (x :: stack))
      (.ok (.more next stack)) :=
  Returns.bind returns_pop returns_pure

end Operators

section Tree

variable {known : Oracle} {m : Machine} {toRegnum : UInt64 → UInt64} {getReg : UInt64 → Code UInt64}
  {addr endAddr v : UInt64} {stack : ExprStack} {slots : List Nat} {env : List UInt64}
  {rounds : Nat} {r : UInt64 × Bool}

/-- Libunwind reads what a machine has. -/
structure Sees (known : Oracle) (m : Machine) (toRegnum : UInt64 → UInt64)
    (getReg : UInt64 → Code UInt64) : Prop where
  memory : SeesMemory known m
  registers : ∀ reg v, m.reg reg = some v → Returns known (getReg (toRegnum reg)) (.ok v)

/-- The variables stand in their places, counted from the bottom of the stack. -/
def Placed (stack : ExprStack) (slots : List Nat) (env : List UInt64) : Prop :=
  List.Forall₂ (fun slot v => stack.reverse[slot]? = some v) slots env

theorem Placed.push (h : Placed stack slots env) (x : UInt64) : Placed (x :: stack) slots env := by
  refine List.Forall₂.imp ?_ h
  intro slot v hv
  rw [List.reverse_cons, List.getElem?_append_left (List.getElem?_eq_some_iff.mp hv).1]
  exact hv

/-- The stack at the distance of a variable from the top. -/
theorem Placed.pick (h : Placed stack slots env) {i : Nat} (hi : env[i]? = some v) :
    stack.length - 1 - slots.getD i 0 < stack.length ∧
      stack[stack.length - 1 - slots.getD i 0]? = some v := by
  obtain ⟨hlen, hall⟩ := List.forall₂_iff_get.mp h
  obtain ⟨hlt, rfl⟩ := List.getElem?_eq_some_iff.mp hi
  have hslot := hall i (hlen ▸ hlt) hlt
  have hget : slots.getD i 0 = slots.get ⟨i, hlen ▸ hlt⟩ := List.getD_eq_getElem _ _ (hlen ▸ hlt)
  have hbound := (List.getElem?_eq_some_iff.mp hslot).1
  rw [List.length_reverse] at hbound
  rw [List.getElem?_reverse hbound] at hslot
  rw [hget]
  exact ⟨by omega, hslot⟩

/-- Every way to write a constant pushes its value. -/
theorem literal_runs (l : Literal) (hfit : stack.length < MAX_EXPR_STACK_SIZE)
    (hb : HasBytes known addr l.bytes) (hin : addr.toNat + l.bytes.length ≤ endAddr.toNat)
    (hgo : Returns known
      (exprLoop toRegnum getReg endAddr rounds (behind addr l.bytes) (l.value :: stack)) (.ok r)) :
    Returns known (exprLoop toRegnum getReg endAddr (rounds + 1) addr stack) (.ok r) := by
  have hpush : Returns known (push stack l.value >>= fun stack =>
      (pure (.more (behind addr l.bytes) stack) : Code ExprResult))
      (.ok (.more (behind addr l.bytes) (l.value :: stack))) :=
    Returns.bind (returns_push hfit) returns_pure
  cases l with
  | lit n => exact exprLoop_step hb hin readOperands_nil hpush hgo
  | const1u v => exact exprLoop_step hb hin (readOperands_byte rfl hb.2) hpush hgo
  | const1s v =>
    rw [Literal.value, ← extendSign_int8] at hpush hgo
    exact exprLoop_step hb hin (readOperands_byte rfl hb.2) hpush hgo
  | const2u v =>
    have hread := returns_readu16 hb.2
    rw [UInt16.ofNat_toNat] at hread
    exact exprLoop_step hb hin (Returns.bind (Returns.bind hread returns_pure) returns_pure) hpush hgo
  | const2s v =>
    have hread := returns_readu16 hb.2
    rw [UInt16.ofNat_toNat] at hread
    rw [Literal.value, ← extendSign_int16] at hpush hgo
    exact exprLoop_step hb hin (Returns.bind (Returns.bind hread returns_pure) returns_pure) hpush hgo
  | const4u v =>
    have hread := returns_readu32 hb.2
    rw [UInt32.ofNat_toNat] at hread
    exact exprLoop_step hb hin (Returns.bind (Returns.bind hread returns_pure) returns_pure) hpush hgo
  | const4s v =>
    have hread := returns_readu32 hb.2
    rw [UInt32.ofNat_toNat] at hread
    rw [Literal.value, ← extendSign_int32] at hpush hgo
    exact exprLoop_step hb hin (Returns.bind (Returns.bind hread returns_pure) returns_pure) hpush hgo
  | const8u v | addr v | const8s v =>
    have hread := returns_readu64 hb.2
    rw [UInt64.ofNat_toNat] at hread
    exact exprLoop_step hb hin (Returns.bind hread returns_pure) hpush hgo
  | constu v =>
    exact exprLoop_step hb hin (Returns.bind (returns_uleb128_encode v hb.2) returns_pure) hpush hgo
  | consts v =>
    exact exprLoop_step hb hin (Returns.bind (returns_sleb128_encode v hb.2) returns_pure) hpush hgo

theorem Expr.height_pos (e : Expr) : 0 < e.height := by
  induction e with
  | var i | literal l | breg r off | bregx r off => exact Nat.one_pos
  | deref e ih | derefSize size e ih | unary op e ih | plusUconst e v ih => exact ih
  | binary op e f ihe _ | bind e f ihe _ => exact lt_of_lt_of_le ihe (le_max_left _ _)
  | cond c e f ihc _ _ => exact lt_of_lt_of_le ihc (le_max_left _ _)

theorem Expr.room {e : Expr} (h : stack.length + e.height ≤ MAX_EXPR_STACK_SIZE) :
    stack.length < MAX_EXPR_STACK_SIZE := by
  have := e.height_pos
  omega

/-- Where one piece of code ends the next one begins. -/
theorem inside_append {bs cs : List UInt8} (h : addr.toNat + (bs ++ cs).length ≤ endAddr.toNat) :
    addr.toNat + bs.length ≤ endAddr.toNat ∧
      (behind addr bs).toNat + cs.length ≤ endAddr.toNat := by
  rw [List.length_append] at h
  have := endAddr.toNat_lt
  rw [behind_toNat (by omega)]
  omega

/-- Reading memory as a number. -/
theorem returns_derefSize {size : DerefSize} {n : Nat} (hm : SeesMemory known m)
    (h : m.load size.reach addr = some n) :
    Returns known (derefSize (UInt8.ofNat size.bytes).toUInt64 addr)
      (.ok (UInt64.ofNat (n % 256 ^ size.bytes))) := by
  obtain ⟨hb, hlt⟩ := load_bytes hm h
  cases size with
  | one =>
    have hn : (UInt8.ofNat (n % 256)).toUInt64 = UInt64.ofNat (n % 256 ^ 1) := by
      apply UInt64.toNat.inj
      rw [UInt8.toNat_toUInt64, UInt8.toNat_ofNat', UInt64.toNat_ofNat']
      omega
    change Returns known _ (.ok (UInt64.ofNat (n % 256 ^ 1)))
    rw [← hn]
    exact Returns.bind hb.1 returns_pure
  | two =>
    have hn : (UInt16.ofNat n).toUInt64 = UInt64.ofNat (n % 256 ^ 2) := by
      apply UInt64.toNat.inj
      rw [UInt16.toNat_toUInt64, UInt16.toNat_ofNat', UInt64.toNat_ofNat']
      omega
    change Returns known _ (.ok (UInt64.ofNat (n % 256 ^ 2)))
    rw [← hn]
    exact Returns.bind (returns_readu16 hb) returns_pure
  | three =>
    have hn : (UInt32.ofNat n).toUInt64 &&& 0xffffff = UInt64.ofNat (n % 256 ^ 3) := by
      have hmask : (0xffffff : UInt64).toNat = 2 ^ 24 - 1 := rfl
      apply UInt64.toNat.inj
      rw [UInt64.toNat_and, hmask, Nat.and_two_pow_sub_one_eq_mod, UInt32.toNat_toUInt64,
        UInt32.toNat_ofNat', UInt64.toNat_ofNat']
      omega
    change Returns known _ (.ok (UInt64.ofNat (n % 256 ^ 3)))
    rw [← hn]
    exact Returns.bind (returns_readu32 hb) returns_pure
  | four =>
    have hn : (UInt32.ofNat n).toUInt64 = UInt64.ofNat (n % 256 ^ 4) := by
      apply UInt64.toNat.inj
      rw [UInt32.toNat_toUInt64, UInt32.toNat_ofNat', UInt64.toNat_ofNat']
      omega
    change Returns known _ (.ok (UInt64.ofNat (n % 256 ^ 4)))
    rw [← hn]
    exact Returns.bind (returns_readu32 hb) returns_pure
  | eight =>
    have hn : n % 256 ^ 8 = n := Nat.mod_eq_of_lt hlt
    change Returns known _ (.ok (UInt64.ofNat (n % 256 ^ 8)))
    rw [hn]
    exact Returns.bind (returns_readu64 hb) returns_pure

/-- A jump over some code and the jump at its end. -/
theorem jump_over (addr : UInt64) (bs : List UInt8) (d : Nat) :
    addr + UInt64.ofNat (bs.length + 3) = behind (behind addr bs) (Expr.jump .skip d) := by
  rw [← behind_append, behind, List.length_append]
  rfl

/-- The value that was bound goes from below the result. -/
theorem unbind_runs (x : UInt64) (hroom : stack.length + 1 < MAX_EXPR_STACK_SIZE)
    (hb : HasBytes known addr [ExprOp.swap.code, ExprOp.drop.code])
    (hin : addr.toNat + [ExprOp.swap.code, ExprOp.drop.code].length ≤ endAddr.toNat)
    (hgo : Returns known (exprLoop toRegnum getReg endAddr rounds
      (behind addr [ExprOp.swap.code, ExprOp.drop.code]) (v :: stack)) (.ok r)) :
    Returns known (exprLoop toRegnum getReg endAddr (rounds + 2) addr (v :: x :: stack)) (.ok r) := by
  have hcode : [ExprOp.swap.code, ExprOp.drop.code] = [ExprOp.swap.code] ++ [ExprOp.drop.code] := rfl
  rw [hcode] at hb hin hgo
  obtain ⟨hbswap, hbdrop⟩ := hasBytes_append.mp hb
  obtain ⟨hinswap, hindrop⟩ := inside_append hin
  rw [behind_append] at hgo
  have hdrop := exprLoop_step hbdrop hindrop readOperands_nil (drop_spec x) hgo
  exact exprLoop_step hbswap hinswap readOperands_nil (swap_spec hroom) hdrop

/-- The code of an expression pushes its value. The induction is over the tree, for
any stack below and whatever is run behind. -/
theorem expr_runs (hsees : Sees known m toRegnum getReg) (e : Expr)
    (hslots : Placed stack slots env) (hfit : stack.length + e.height ≤ MAX_EXPR_STACK_SIZE)
    (hj : e.JumpsFit slots stack.length) (hb : HasBytes known addr (e.bytes slots stack.length))
    (hin : addr.toNat + (e.bytes slots stack.length).length ≤ endAddr.toNat)
    (hv : e.eval m env = some v)
    (hgo : Returns known (exprLoop toRegnum getReg endAddr rounds
      (behind addr (e.bytes slots stack.length)) (v :: stack)) (.ok r)) :
    Returns known (exprLoop toRegnum getReg endAddr (rounds + e.size) addr stack) (.ok r) := by
  induction e generalizing addr stack slots env v rounds with
  | var i =>
    obtain ⟨hlt, hpick⟩ := hslots.pick hv
    simp only [Expr.height] at hfit
    unfold MAX_EXPR_STACK_SIZE at hfit
    have hdist : (UInt8.ofNat (stack.length - 1 - slots.getD i 0)).toUInt64.toNat =
        stack.length - 1 - slots.getD i 0 := by
      rw [UInt8.toNat_toUInt64, UInt8.toNat_ofNat']
      omega
    have hret : Returns known (pick stack
        (UInt8.ofNat (stack.length - 1 - slots.getD i 0)).toUInt64.toNat) (.ok v) := by
      unfold pick
      rw [hdist, hpick]
      exact returns_pure
    exact exprLoop_step hb hin (readOperands_byte rfl hb.2)
      (Returns.bind hret (Returns.bind (returns_push hfit) returns_pure)) hgo
  | literal l =>
    cases hv
    exact literal_runs l hfit hb hin hgo
  | breg q off =>
    obtain ⟨w, hw, rfl⟩ := Option.map_eq_some_iff.mp hv
    exact exprLoop_step hb hin (Returns.bind (returns_sleb128_encode off hb.2) returns_pure)
      (Returns.bind (hsees.registers _ _ hw) (Returns.bind (returns_push hfit) returns_pure)) hgo
  | bregx q off =>
    obtain ⟨w, hw, rfl⟩ := Option.map_eq_some_iff.mp hv
    obtain ⟨hq, hoff⟩ := hasBytes_append.mp hb.2
    have hops : Returns known (readOperands ExprOp.bregx.operands (addr + 1)) (.ok (q, off.toUInt64,
        behind (addr + 1) (ulebEncode q.toNat ++ slebEncode off.toInt))) := by
      rw [behind_append]
      exact Returns.bind (returns_uleb128_encode q hq)
        (Returns.bind (returns_sleb128_encode off hoff) returns_pure)
    exact exprLoop_step hb hin hops
      (Returns.bind (hsees.registers _ _ hw) (Returns.bind (returns_push hfit) returns_pure)) hgo
  | deref e ih =>
    obtain ⟨a, ha, hv⟩ := Option.bind_eq_some_iff.mp hv
    obtain ⟨n, hn, rfl⟩ := Option.map_eq_some_iff.mp hv
    have hread := returns_readu64 (load_bytes hsees.memory hn).1
    obtain ⟨hbe, hbop⟩ := hasBytes_append.mp hb
    obtain ⟨hine, hinop⟩ := inside_append hin
    rw [Expr.bytes, behind_append] at hgo
    have hop := exprLoop_step hbop hinop readOperands_nil (deref_spec (Expr.room hfit) hread) hgo
    rw [Expr.size, Nat.add_comm e.size, ← Nat.add_assoc]
    exact ih hslots hfit hj hbe hine ha hop
  | derefSize size e ih =>
    obtain ⟨a, ha, hv⟩ := Option.bind_eq_some_iff.mp hv
    obtain ⟨n, hn, rfl⟩ := Option.map_eq_some_iff.mp hv
    have hread := returns_derefSize hsees.memory hn
    obtain ⟨hbe, hbop⟩ := hasBytes_append.mp hb
    obtain ⟨hine, hinop⟩ := inside_append hin
    rw [Expr.bytes, behind_append] at hgo
    have hop := exprLoop_step hbop hinop (readOperands_byte rfl hbop.2) (derefSize_spec (Expr.room hfit) hread) hgo
    rw [Expr.size, Nat.add_comm e.size, ← Nat.add_assoc]
    exact ih hslots hfit hj hbe hine ha hop
  | unary op e ih =>
    obtain ⟨a, ha, rfl⟩ := Option.map_eq_some_iff.mp hv
    obtain ⟨hbe, hbop⟩ := hasBytes_append.mp hb
    obtain ⟨hine, hinop⟩ := inside_append hin
    rw [Expr.bytes, behind_append] at hgo
    rw [← UnaryOp.apply_eq] at hgo
    have hop := exprLoop_step hbop hinop readOperands_nil (unary_spec (Expr.room hfit) op) hgo
    rw [Expr.size, Nat.add_comm e.size, ← Nat.add_assoc]
    exact ih hslots hfit hj hbe hine ha hop
  | plusUconst e w ih =>
    obtain ⟨a, ha, rfl⟩ := Option.map_eq_some_iff.mp hv
    obtain ⟨hbe, hbop⟩ := hasBytes_append.mp hb
    obtain ⟨hine, hinop⟩ := inside_append hin
    rw [Expr.bytes, behind_append] at hgo
    have hop := exprLoop_step hbop hinop (Returns.bind (returns_uleb128_encode w hbop.2) returns_pure) (plusUconst_spec (Expr.room hfit)) hgo
    rw [Expr.size, Nat.add_comm e.size, ← Nat.add_assoc]
    exact ih hslots hfit hj hbe hine ha hop
  | binary op e f ihe ihf =>
    obtain ⟨x, hx, hv⟩ := Option.bind_eq_some_iff.mp hv
    obtain ⟨y, hy, hv⟩ := Option.bind_eq_some_iff.mp hv
    obtain ⟨n, hn, rfl⟩ := Option.map_eq_some_iff.mp hv
    have hroom := Expr.room hfit
    rw [Expr.height] at hfit
    rw [Expr.bytes, List.append_assoc] at hb hin hgo
    obtain ⟨hbe, hb⟩ := hasBytes_append.mp hb
    obtain ⟨hbf, hbop⟩ := hasBytes_append.mp hb
    obtain ⟨hine, hin⟩ := inside_append hin
    obtain ⟨hinf, hinop⟩ := inside_append hin
    rw [behind_append, behind_append] at hgo
    have hop := exprLoop_step hbop hinop readOperands_nil (binary_spec hroom (BinaryOp.apply_of_meaning hn)) hgo
    have hf := ihf (hslots.push x) (by rw [List.length_cons]; omega) hj.2 hbf hinf hy hop
    rw [Expr.size, show rounds + (e.size + f.size + 1) = rounds + 1 + f.size + e.size by omega]
    exact ihe hslots (by omega) hj.1 hbe hine hx hf
  | cond c e f ihc ihe ihf =>
    obtain ⟨x, hx, hv⟩ := Option.bind_eq_some_iff.mp hv
    obtain ⟨hjc, hje, hjf, hle, hlf⟩ := hj
    rw [Expr.height] at hfit
    rw [Expr.bytes, List.append_assoc, List.append_assoc, List.append_assoc] at hb hin hgo
    obtain ⟨hbc, hb⟩ := hasBytes_append.mp hb
    obtain ⟨hbbra, hb⟩ := hasBytes_append.mp hb
    obtain ⟨hbf, hb⟩ := hasBytes_append.mp hb
    obtain ⟨hbskip, hbe⟩ := hasBytes_append.mp hb
    obtain ⟨hinc, hin⟩ := inside_append hin
    obtain ⟨hinbra, hin⟩ := inside_append hin
    obtain ⟨hinf, hin⟩ := inside_append hin
    obtain ⟨hinskip, hine⟩ := inside_append hin
    simp only [behind_append] at hgo
    rw [Expr.size, show rounds + (c.size + max (e.size + 1) (f.size + 2)) =
      rounds + max e.size (f.size + 1) + 1 + c.size by omega]
    refine ihc hslots (by omega) hjc hbc hinc hx ?_
    refine exprLoop_step hbbra hinbra (readOperands_jump rfl hbbra.2) (bra_spec hlf) ?_
    by_cases hzero : x = 0
    · -- the code of `f` comes next, and the jump behind it leads over that of `e`
      rw [if_neg (fun hne => hne hzero)] at hv ⊢
      refine exprLoop_mono (rounds + 1 + f.size) (by omega) ?_
      refine ihf hslots (by omega) hjf hbf hinf hv ?_
      exact exprLoop_step hbskip hinskip (readOperands_jump rfl hbskip.2) (skip_spec hle) hgo
    · rw [if_pos hzero] at hv ⊢
      refine exprLoop_mono (rounds + e.size) (by omega) ?_
      rw [jump_over _ (f.bytes slots stack.length) (e.bytes slots stack.length).length]
      exact ihe hslots (by omega) hje hbe hine hv hgo
  | bind e f ihe ihf =>
    obtain ⟨x, hx, hv⟩ := Option.bind_eq_some_iff.mp hv
    rw [Expr.height] at hfit
    have hpos := f.height_pos
    rw [Expr.bytes, List.append_assoc] at hb hin hgo
    obtain ⟨hbe, hb⟩ := hasBytes_append.mp hb
    obtain ⟨hbf, hbop⟩ := hasBytes_append.mp hb
    obtain ⟨hine, hin⟩ := inside_append hin
    obtain ⟨hinf, hinop⟩ := inside_append hin
    rw [behind_append, behind_append] at hgo
    have hnew : Placed (x :: stack) (stack.length :: slots) (x :: env) := by
      refine List.Forall₂.cons ?_ (hslots.push x)
      rw [List.reverse_cons, List.getElem?_append_right (by simp), List.length_reverse, Nat.sub_self]
      rfl
    have hop := unbind_runs x (by omega) hbop hinop hgo
    have hf := ihf hnew (by rw [List.length_cons]; omega) hj.2 hbf hinf hv hop
    rw [Expr.size, show rounds + (e.size + f.size + 2) = rounds + 2 + f.size + e.size by omega]
    exact ihe hslots (by omega) hj.1 hbe hine hx hf

theorem returns_exprLoop_done :
    Returns known (exprLoop toRegnum getReg addr rounds addr (v :: stack)) (.ok (v, false)) := by
  have hlt : ¬ addr < addr := UInt64.lt_irrefl addr
  cases rounds <;>
  · unfold exprLoop
    rw [if_neg hlt]
    exact Returns.bind returns_pop returns_pure

/-- An operator that names a register ends the loop. -/
theorem exprLoop_register {op : ExprOp} {operand1 operand2 num : UInt64} {rest : List UInt8}
    (hb : HasBytes known addr (op.code :: rest))
    (hin : addr.toNat + (op.code :: rest).length ≤ endAddr.toNat)
    (hops : Returns known (readOperands op.operands (addr + 1))
      (.ok (operand1, operand2, behind (addr + 1) rest)))
    (hinstr : ∀ next, exprInstr toRegnum getReg op operand1 operand2 next stack =
      pure (.register num)) :
    Returns known (exprLoop toRegnum getReg endAddr (rounds + 1) addr stack) (.ok (num, true)) := by
  have hlt : addr < endAddr := UInt64.lt_iff_toNat_lt.mpr (by rw [List.length_cons] at hin; omega)
  have hround : Returns known (exprRound toRegnum getReg addr stack) (.ok (.register num)) := by
    refine Returns.bind hb.1 ?_
    dsimp only
    rw [ExprOp.ofCode_code]
    refine Returns.bind hops ?_
    dsimp only
    rw [hinstr]
    exact returns_pure
  unfold exprLoop
  rw [if_pos hlt]
  exact Returns.bind hround returns_pure

/-- The loop over the code of a location expression, from a stack that holds the
starting value only. -/
theorem exprLoop_correct (hsees : Sees known m toRegnum getReg) (l : LocExpr) (hfits : l.Fits)
    (hb : HasBytes known addr l.bytes) (hend : addr.toNat + l.bytes.length < 2 ^ 64)
    (hrounds : l.size ≤ rounds) {start : UInt64} (hv : l.eval m toRegnum start = some r) :
    Returns known (exprLoop toRegnum getReg (behind addr l.bytes) rounds addr [start]) (.ok r) := by
  have hin : addr.toNat + l.bytes.length ≤ (behind addr l.bytes).toNat := by
    rw [behind_toNat hend]
  cases l with
  | value e =>
    obtain ⟨v, hval, rfl⟩ := Option.map_eq_some_iff.mp hv
    obtain ⟨k, rfl⟩ := Nat.exists_eq_add_of_le' hrounds
    have hplaced : Placed [start] [0] [start] := .cons rfl .nil
    have hheight : [start].length + e.height ≤ MAX_EXPR_STACK_SIZE := by
      have := hfits.1
      rw [List.length_singleton]
      omega
    exact expr_runs hsees e hplaced hheight hfits.2 hb hin hval returns_exprLoop_done
  | reg q =>
    cases hv
    obtain ⟨k, rfl⟩ := Nat.exists_eq_add_of_le' hrounds
    exact exprLoop_register hb hin readOperands_nil (fun _ => rfl)
  | regx q =>
    cases hv
    obtain ⟨k, rfl⟩ := Nat.exists_eq_add_of_le' hrounds
    exact exprLoop_register hb hin (Returns.bind (returns_uleb128_encode q hb.2) returns_pure)
      (fun _ => rfl)

theorem returns_dwarfEvalExpr {start len : UInt64} {result : Except Stop (UInt64 × Bool)}
    (h : Returns known (exprLoop toRegnum getReg (addr + len) rounds addr [start]) result) :
    Returns known (dwarfEvalExpr toRegnum getReg rounds start addr len) result :=
  Returns.bind (returns_push (by decide)) h

/-- Evaluating the code of a location expression gives what the expression means,
on every tree that the stack of the evaluator can hold. -/
theorem dwarfEvalExpr_correct (hsees : Sees known m toRegnum getReg) (l : LocExpr) (hfits : l.Fits)
    (hb : HasBytes known addr l.bytes) (hend : addr.toNat + l.bytes.length < 2 ^ 64)
    (hrounds : l.size ≤ rounds) {start : UInt64} (hv : l.eval m toRegnum start = some r) :
    Returns known (dwarfEvalExpr toRegnum getReg rounds start addr (UInt64.ofNat l.bytes.length))
      (.ok r) :=
  returns_dwarfEvalExpr (exprLoop_correct hsees l hfits hb hend hrounds hv)

end Tree

/-- The frame address in a linkage table, which depends on how far an entry has run:
one more word is on the stack from its second instruction on. -/
def pltCfa : LocExpr :=
  .value (.binary .plus (.breg 7 8) (.binary .shl (.binary .ge (.binary .and (.breg 16 0)
    (.literal (.lit 15))) (.literal (.lit 11))) (.literal (.lit 3))))

theorem pltCfa_bytes : pltCfa.bytes =
    [0x77, 0x08, 0x80, 0x00, 0x3f, 0x1a, 0x3b, 0x2a, 0x33, 0x24, 0x22] := by
  have height : slebEncode (8 : Int64).toInt = [0x08] := by
    rw [slebEncode]
    rfl
  have hzero : slebEncode (0 : Int64).toInt = [0x00] := by
    rw [slebEncode]
    rfl
  simp only [pltCfa, LocExpr.bytes, Expr.bytes, height, hzero]
  rfl

def pltTracee (addr : UInt64) : UInt8 :=
  [0x77, 0x08, 0x80, 0x00, 0x3f, 0x1a, 0x3b, 0x2a, 0x33, 0x24, 0x22][(addr - 0x5000).toNat]?.getD 0

def pltReg (reg : UInt64) : Option UInt64 :=
  if reg = 7 then some 0x7000 else if reg = 16 then some 0x102b else none

def pltGetReg (reg : UInt64) : Code UInt64 :=
  match pltReg reg with
  | some v => return v
  | none => throw (.status (-UNW_EBADREG))

theorem pltCfa_evaluated :
    Returns (memoryOracle pltTracee) (dwarfEvalExpr id pltGetReg 9 0 0x5000 11)
      (.ok (0x7010, false)) := by
  have hsees : Sees (memoryOracle pltTracee) ⟨pltReg, fun _ => none⟩ id pltGetReg := by
    constructor
    · intro addr b h
      cases h
    · intro reg v h
      change pltReg reg = some v at h
      unfold pltGetReg
      rw [id, h]
      exact returns_pure
  have hlen : UInt64.ofNat pltCfa.bytes.length = 11 := by
    rw [pltCfa_bytes]
    rfl
  rw [← hlen]
  refine dwarfEvalExpr_correct hsees pltCfa ?_ ?_ ?_ (by decide) (by decide)
  · exact ⟨by decide, trivial, ⟨⟨trivial, trivial⟩, trivial⟩, trivial⟩
  · rw [pltCfa_bytes]
    exact hasBytes_tracee (memoryOracle_knows _ _ _) (by decide)
  · rw [pltCfa_bytes]
    decide

end Unwinder.Native
