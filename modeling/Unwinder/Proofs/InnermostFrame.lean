import Unwinder.Native.X8664
import Unwinder.Proofs.CallerFrame
import Unwinder.Proofs.ExprEval

namespace Unwinder.Native
open Lib Interaction CallFrame Ffi

section Expressions

variable {t : Target} {getReg : DwarfCursor t.numPreservedRegs → UInt64 → Code UInt64} {rounds : Nat}
  {known : Oracle} {c : DwarfCursor t.numPreservedRegs} {m : Machine} {addr start v : UInt64}
  {isRegister : Bool}

theorem evalLocationExpr_correct (hsees : Sees known m t.dwarfToUnwRegnum (getReg c)) {l : LocExpr}
    (hfits : l.Fits) (hsize : l.size ≤ rounds) (hb : BlockAt known LocExpr.bytes addr l)
    (hv : l.eval m t.dwarfToUnwRegnum start = some (v, isRegister)) :
    Returns known (evalLocationExpr t getReg rounds c start addr)
      (.ok (if isRegister then .reg (t.dwarfToUnwRegnum v) else .mem v)) := by
  obtain ⟨-, hbytes⟩ := hasBytes_append.mp hb.1
  exact Returns.bind (returns_blockLength hb) (Returns.bind
    (returns_dwarfEvalExpr (exprLoop_correct hsees l hfits hbytes (fits_behind hb.2) hsize hv)) returns_pure)

end Expressions

namespace X8664
open Unwinder.X8664

/-- The location expressions that the evaluator has the stack and the rounds for. -/
abbrev Exp (rounds : Nat) := { l : LocExpr // l.Fits ∧ l.size ≤ rounds }

def Exp.code {rounds : Nat} (e : Exp rounds) : List UInt8 := e.val.bytes

/-- A register of the innermost frame, by its column. -/
def frameReg (raw : RawRegs) (r : Fin 17) : Option UInt64 :=
  if h : r.val < 16 then
    if raw.validRegs &&& bit ⟨r, h⟩ ≠ 0 then some raw.regs[r.val] else none
  else some raw.ip

section View

variable (raw : RawRegs) (tracee : UInt64 → UInt8) (available : UInt64 → Bool)

/-- What expressions can look at, where words can be read at some addresses. -/
def machine : Machine where
  reg n := if h : n.toNat < 17 then frameReg raw ⟨n.toNat, h⟩ else none
  byte a := if available (alignedAddr a) then some (tracee a) else none

/-- The place that a location expression names. -/
def placeOf (start : UInt64) : LocExpr → Option (Place (Fin 17) UInt64)
  | .value e => (e.eval (machine raw tracee available) [start]).map .address
  | .reg r => if h : r.val < 17 then some (.register ⟨r, h⟩) else none
  | .regx r => if h : r.toNat < 17 then some (.register ⟨r.toNat, h⟩) else none

def frameView (rounds : Nat) : View (Fin 17) UInt64 (Exp rounds) where
  reg := frameReg raw
  word a := if a ≠ 0 ∧ available a then some (traceeWord tracee a) else none
  expr start e := placeOf raw tracee available start e.val

/-- What the accessors of this crate answer for the innermost frame. -/
def frameOracle (info : UnwProcInfo) : Oracle
  | .findProcInfo _ _ _ => some (UNW_ESUCCESS, info)
  | .getDynInfoListAddr _ => some (-UNW_ENOINFO)
  | .accessMem addr _ false =>
    if available addr then some (UNW_ESUCCESS, traceeWord tracee addr) else none
  | .accessReg reg val false => some (RawRegs.accessReg raw reg val false).1
  | _ => none

end View

variable {b : Build} {rounds : Nat} {raw : RawRegs} {tracee : UInt64 → UInt8}
  {available : UInt64 → Bool} {info : UnwProcInfo}

theorem frameOracle_mem {addr : UInt64} (h : available addr = true) :
    frameOracle raw tracee available info (.accessMem addr 0 false) =
      some (UNW_ESUCCESS, traceeWord tracee addr) := if_pos h

theorem accessMem_available {addr : UInt64} (h : available addr = true) :
    Returns (frameOracle raw tracee available info) (accessMem addr)
      (.ok (traceeWord tracee addr)) :=
  Returns.bind (returns_ask (frameOracle_mem h)) returns_pure

/-- Registers are answered from the raw ones. -/
def KnowsRegs (known : Oracle) (raw : RawRegs) : Prop :=
  ∀ reg val, known (.accessReg reg val false) = some (RawRegs.accessReg raw reg val false).1

theorem frameOracle_knowsRegs : KnowsRegs (frameOracle raw tracee available info) raw :=
  fun _ _ => rfl

theorem accessReg_frame {known : Oracle} (hk : KnowsRegs known raw) {r : Fin 17} {v : UInt64}
    (h : frameReg raw r = some v) : Returns known (accessReg r.val) (.ok v) := by
  have hans : (RawRegs.accessReg raw r.val 0 false).1 = (UNW_ESUCCESS, v) := by
    unfold frameReg at h
    unfold RawRegs.accessReg
    have hlt := r.isLt
    split at h
    · next hr =>
      have hne : ¬ ((r.val : Int) = UNW_X86_64_RIP) := by
        unfold UNW_X86_64_RIP
        omega
      have hrange : 0 ≤ (r.val : Int) ∧ (r.val : Int) < 16 := by omega
      split at h
      · next hvalid =>
        obtain rfl := Option.some.inj h
        simp only [if_neg hne, dif_pos hrange, Bool.false_eq_true, if_false, Int.toNat_natCast]
        rw [if_pos hvalid]
        rfl
      · cases h
    · next hr =>
      obtain rfl := Option.some.inj h
      have heq : (r.val : Int) = UNW_X86_64_RIP := by
        unfold UNW_X86_64_RIP
        omega
      rw [if_pos heq]
      rfl
  have hknown : known (.accessReg r.val 0 false) = some (UNW_ESUCCESS, v) :=
    (hk _ _).trans (congrArg some hans)
  exact Returns.bind (returns_ask hknown) returns_pure

theorem regnum_small {n : UInt64} (h : n.toNat < 17) : (target b).dwarfToUnwRegnum n = n :=
  if_pos (UInt64.lt_iff_toNat_lt.mpr h)

theorem column_toNat (r : Fin 17) : (UInt64.ofNat r).toNat = r := by
  rw [UInt64.toNat_ofNat', Nat.mod_eq_of_lt (by omega)]

variable {c : Cursor} {r : Fin 17} {v : UInt64}

theorem dwarfGet_column {known : Oracle} (hk : KnowsRegs known raw) (h : frameReg raw r = some v) :
    Returns known (dwarfGet (.reg (UInt64.ofNat r))) (.ok v) := by
  have hnull : Loc.reg (UInt64.ofNat r) ≠ .null := by simp [Loc.null]
  unfold dwarfGet
  rw [if_neg hnull]
  simp only [column_toNat]
  exact accessReg_frame hk h

theorem getReg_column (hloc : ∀ r, c.loc r = .reg (UInt64.ofNat r)) (hip : c.ip = raw.ip)
    (h : frameReg raw r = some v) :
    Returns (frameOracle raw tracee available info) (getReg c (UInt64.ofNat r)) (.ok v) := by
  have hlt := r.isLt
  unfold getReg
  rw [column_toNat]
  by_cases hr : (r.val : Int) = UNW_REG_IP
  · rw [if_pos hr]
    have hn : ¬ r.val < 16 := by
      unfold UNW_REG_IP UNW_X86_64_RIP at hr
      omega
    unfold frameReg at h
    rw [dif_neg hn] at h
    obtain rfl := Option.some.inj h
    rw [hip]
    exact returns_pure
  · rw [if_neg hr]
    have hcfa : ¬ (r.val : Int) = UNW_X86_64_CFA := by
      unfold UNW_X86_64_CFA
      omega
    have hrange : 0 ≤ (r.val : Int) ∧ (r.val : Int) < 17 := by omega
    unfold tdepAccessReg
    rw [if_neg hcfa, dif_pos hrange, hloc]
    exact dwarfGet_column frameOracle_knowsRegs h

theorem innermost_sees (hloc : ∀ r, c.loc r = .reg (UInt64.ofNat r)) (hip : c.ip = raw.ip) :
    Sees (frameOracle raw tracee available info) (machine raw tracee available)
      (target b).dwarfToUnwRegnum (getReg c) := by
  constructor
  · intro addr byte h
    unfold machine at h
    dsimp only at h
    split at h
    · next havail =>
      obtain rfl := Option.some.inj h
      exact hasByte_tracee (frameOracle_mem havail)
    · cases h
  · intro n w h
    unfold machine at h
    dsimp only at h
    split at h
    · next hn =>
      rw [regnum_small hn]
      have hread := @getReg_column raw tracee available info c ⟨n.toNat, hn⟩ w hloc hip h
      rwa [UInt64.ofNat_toNat] at hread
    · cases h

/-- Expressions give the place that they name. -/
theorem innermost_expr (hloc : ∀ r, c.loc r = .reg (UInt64.ofNat r)) (hip : c.ip = raw.ip)
    {start addr : UInt64} {e : Exp rounds} {place : Place (Fin 17) UInt64}
    (hp : placeOf raw tracee available start e.val = some place)
    (hb : BlockAt (frameOracle raw tracee available info) Exp.code addr e) :
    Returns (frameOracle raw tracee available info)
      (evalLocationExpr (target b) getReg rounds c start addr) (.ok (placeLoc (target b) place)) := by
  obtain ⟨l, hfits, hsize⟩ := e
  have hsees := @innermost_sees b raw tracee available info c hloc hip
  have heval : ∀ w isRegister, l.eval (machine raw tracee available) (target b).dwarfToUnwRegnum start =
      some (w, isRegister) → Returns (frameOracle raw tracee available info)
        (evalLocationExpr (target b) getReg rounds c start addr)
        (.ok (if isRegister then .reg ((target b).dwarfToUnwRegnum w) else .mem w)) :=
    fun w isRegister hw => evalLocationExpr_correct hsees hfits hsize hb hw
  cases l with
  | value e =>
    obtain ⟨w, hw, rfl⟩ := Option.map_eq_some_iff.mp hp
    exact heval w false (by rw [LocExpr.eval, hw]; rfl)
  | reg q =>
    simp only [placeOf] at hp
    split at hp
    · obtain rfl := Option.some.inj hp
      exact heval _ true rfl
    · cases hp
  | regx q =>
    simp only [placeOf] at hp
    split at hp
    · obtain rfl := Option.some.inj hp
      have hread := heval _ true rfl
      rw [← UInt64.ofNat_toNat (x := q)] at hread
      exact hread
    · cases hp

theorem regnum_column (r : Fin 17) :
    (target b).dwarfToUnwRegnum (UInt64.ofNat r) = UInt64.ofNat r :=
  regnum_small (by rw [column_toNat]; exact r.isLt)

theorem placeLoc_register (r : Fin 17) :
    placeLoc (target b) (.register r) = .reg (UInt64.ofNat r) := by
  change Loc.reg ((target b).dwarfToUnwRegnum ((target b).dwarfToUnwRegnum (UInt64.ofNat r))) = _
  rw [regnum_column, regnum_column]

theorem frameView_word {a w : UInt64} (h : (frameView raw tracee available rounds).word a = some w) :
    a ≠ 0 ∧ Returns (frameOracle raw tracee available info) (accessMem a) (.ok w) := by
  unfold frameView at h
  dsimp only at h
  split at h
  · next ha =>
    obtain rfl := Option.some.inj h
    exact ⟨ha.1, accessMem_available ha.2⟩
  · cases h

/-- A cursor whose registers are those of the accessors shows the innermost frame. -/
theorem innermost_shows (hloc : ∀ r, c.loc r = .reg (UInt64.ofNat r)) (hip : c.ip = raw.ip) :
    Shows (target b) getReg rounds (frameOracle raw tracee available info) Exp.code c
      (frameView raw tracee available rounds) where
  reg r _ h := (regnum_column (b := b) r).symm ▸ getReg_column hloc hip h
  loc r _ h := (hloc r).symm ▸ dwarfGet_column frameOracle_knowsRegs h
  innermost r _ h := (placeLoc_register (b := b) r).symm ▸ dwarfGet_column frameOracle_knowsRegs h
  word _ _ h := frameView_word h
  expr _ _ _ _ hp hb := innermost_expr hloc hip hp hb

end X8664

end Unwinder.Native
