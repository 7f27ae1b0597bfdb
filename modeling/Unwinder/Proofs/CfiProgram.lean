import Unwinder.Native.Program
import Unwinder.Native.Step
import Unwinder.Proofs.PointerReaders
import Unwinder.Proofs.RoundTrip

namespace Unwinder.Native
open Lib Interaction CallFrame Dwarf Ffi

section Models

variable {n : Nat} {E : Type} (known : Oracle) (code : E → List UInt8)

/-- The block of an expression stands at the address. -/
def BlockAt (addr : UInt64) (e : E) : Prop :=
  HasBytes known addr (Insn.block code e) ∧ addr.toNat + (Insn.block code e).length < 2 ^ 64

/-- How a rule is kept in a column. -/
def RuleModels (saved : SaveLoc) : Rule (Fin n) UInt64 E → Prop
  | .undefined => saved.place = .undef
  | .sameValue => saved.place = .same
  | .offset o => saved = ⟨.cfarel, o⟩
  | .register r => saved = ⟨.reg, UInt64.ofNat r⟩
  | .expression e => saved.place = .expr ∧ BlockAt known code saved.val e
  | .valExpression e => saved.place = .valExpr ∧ BlockAt known code saved.val e
  | .cfa => saved.place = .cfa

/-- How the rule for the frame address is kept in its two columns. -/
def CfaModels (rs : RegState n) : Option (CfaRule (Fin n) UInt64 E) → Prop
  | some (.register r o) => rs.cfaReg = ⟨.reg, UInt64.ofNat r⟩ ∧ rs.cfaOff.val = o
  | some (.expression e) => rs.cfaReg.place = .expr ∧ BlockAt known code rs.cfaReg.val e
  | none => True

/-- A register state holds a row of the call-frame table. -/
structure RowModels (retAddrColumn : UInt64) (rs : RegState n) (row : Row (Fin n) UInt64 E) :
    Prop where
  column : rs.retAddrColumn = retAddrColumn
  cfa : CfaModels known code rs row.cfa
  rule : ∀ r, RuleModels known code (rs.reg r) (row.rule r)

/-- A running program stands where the abstract one does. -/
structure StateModels (retAddrColumn : UInt64) (initial : Fin n → Rule (Fin n) UInt64 E)
    (s : CfiState n) (a : State (Fin n) UInt64 E) : Prop where
  ip : s.ip = a.loc
  row : RowModels known code retAddrColumn s.rsCurrent a.row
  stack : List.Forall₂ (RowModels known code retAddrColumn) s.rsStack a.stack
  initial : ∀ r, RuleModels known code (s.rsInitial.reg r) (initial r)

end Models

section Updates

variable {n : Nat} {E : Type} {known : Oracle} {code : E → List UInt8} {ra addr : UInt64}
  {initial : Fin n → Rule (Fin n) UInt64 E} {s : CfiState n} {a : State (Fin n) UInt64 E}

theorem StateModels.moveTo (h : StateModels known code ra initial s a) (addr : UInt64) :
    StateModels known code ra initial { s with addr := addr } a :=
  ⟨h.ip, h.row, h.stack, h.initial⟩

theorem RowModels.setRule {rs : RegState n} {row : Row (Fin n) UInt64 E}
    (h : RowModels known code ra rs row) {r : Fin n} {saved : SaveLoc}
    {rule : Rule (Fin n) UInt64 E} (hrule : RuleModels known code saved rule) :
    RowModels known code ra { rs with reg := Function.update rs.reg r saved } (row.setRule r rule) := by
  refine ⟨h.column, h.cfa, ?_⟩
  intro q
  by_cases hq : q = r
  · subst hq
    simpa [Row.setRule] using hrule
  · simpa [Row.setRule, Function.update_of_ne hq] using h.rule q

theorem StateModels.setReg (h : StateModels known code ra initial s a) {r : Fin n} {place : Where}
    {val : UInt64} {rule : Rule (Fin n) UInt64 E}
    (hrule : RuleModels known code ⟨place, val⟩ rule) :
    StateModels known code ra initial (s.setReg r place val)
      { a with row := a.row.setRule r rule } :=
  ⟨h.ip, h.row.setRule hrule, h.stack, h.initial⟩

theorem StateModels.restoreReg (h : StateModels known code ra initial s a) (r : Fin n) :
    StateModels known code ra initial (s.restoreReg r)
      { a with row := a.row.setRule r (initial r) } :=
  ⟨h.ip, h.row.setRule (h.initial r), h.stack, h.initial⟩

theorem StateModels.advance (h : StateModels known code ra initial s a) (delta : UInt64) :
    StateModels known code ra initial (s.advance delta) { a with loc := a.loc + delta } :=
  ⟨congrArg (· + delta) h.ip, h.row, h.stack, h.initial⟩

/-- A change of the frame-address columns. -/
theorem StateModels.setCfa (h : StateModels known code ra initial s a) {reg off : SaveLoc}
    {rule : CfaRule (Fin n) UInt64 E}
    (hcfa : CfaModels known code { s.rsCurrent with cfaReg := reg, cfaOff := off } (some rule)) :
    StateModels known code ra initial
      { s with rsCurrent := { s.rsCurrent with cfaReg := reg, cfaOff := off } }
      { a with row := { a.row with cfa := some rule } } :=
  ⟨h.ip, ⟨h.row.column, hcfa, h.row.rule⟩, h.stack, h.initial⟩

end Updates

section Operands

variable {n : Nat} {E : Type} {known : Oracle} {code : E → List UInt8} {addr : UInt64}

theorem regColumn_eq (status : Int) (hn : n < 2 ^ 64) (r : Fin n) :
    regColumn n status (UInt64.ofNat r) = pure r := by
  have hr : (UInt64.ofNat r).toNat = r := by
    rw [UInt64.toNat_ofNat', Nat.mod_eq_of_lt (by have := r.isLt; omega)]
  unfold regColumn
  simp only [hr, r.isLt, dif_pos]

theorem returns_column (hn : n < 2 ^ 64) {r : Fin n} (h : HasBytes known addr (Insn.column r)) :
    Returns known (dwarfReadUleb128 addr)
      (.ok (UInt64.ofNat r, behind addr (Insn.column r))) := by
  have hr : (UInt64.ofNat r).toNat = r := by
    rw [UInt64.toNat_ofNat', Nat.mod_eq_of_lt (by have := r.isLt; omega)]
  have hread := returns_uleb128_encode (UInt64.ofNat r) (by rw [hr]; exact h)
  rwa [hr] at hread

theorem returns_readRegnum (hn : n < 2 ^ 64) {r : Fin n} (h : HasBytes known addr (Insn.column r)) :
    Returns known (readRegnum n addr) (.ok (r, behind addr (Insn.column r))) := by
  refine Returns.bind (returns_column hn h) ?_
  dsimp only
  rw [regColumn_eq _ hn]
  exact returns_pure

theorem returns_readRegnumUleb (hn : n < 2 ^ 64) {r : Fin n} {o : UInt64}
    (h : HasBytes known addr (Insn.column r ++ Insn.uleb o)) :
    Returns known (readRegnumUleb n addr)
      (.ok (r, o, behind addr (Insn.column r ++ Insn.uleb o))) := by
  obtain ⟨hr, ho⟩ := hasBytes_append.mp h
  rw [behind_append]
  exact Returns.bind (returns_readRegnum hn hr)
    (Returns.bind (returns_uleb128_encode o ho) returns_pure)

theorem returns_readRegnumSleb (hn : n < 2 ^ 64) {r : Fin n} {o : Int64}
    (h : HasBytes known addr (Insn.column r ++ Insn.sleb o)) :
    Returns known (readRegnumSleb n addr)
      (.ok (r, o.toUInt64, behind addr (Insn.column r ++ Insn.sleb o))) := by
  obtain ⟨hr, ho⟩ := hasBytes_append.mp h
  rw [behind_append]
  exact Returns.bind (returns_readRegnum hn hr)
    (Returns.bind (returns_sleb128_encode o ho) returns_pure)

theorem returns_blockLength {e : E} (h : BlockAt known code addr e) :
    Returns known (dwarfReadUleb128 addr)
      (.ok (UInt64.ofNat (code e).length, behind addr (ulebEncode (code e).length))) := by
  have hlen : (UInt64.ofNat (code e).length).toNat = (code e).length := by
    have hfit := h.2
    rw [Insn.block, List.length_append] at hfit
    rw [UInt64.toNat_ofNat', Nat.mod_eq_of_lt (by omega)]
  have hread := returns_uleb128_encode (UInt64.ofNat (code e).length)
    (by rw [hlen]; exact (hasBytes_append.mp h.1).1)
  rwa [hlen] at hread

theorem returns_skipBlock {e : E} (h : BlockAt known code addr e) :
    Returns known (skipBlock addr) (.ok (behind addr (Insn.block code e))) := by
  rw [Insn.block, behind_append]
  exact Returns.bind (returns_blockLength h) returns_pure

end Operands

section Opcodes

theorem splitOpcode_primary (k : Fin 64) :
    splitOpcode (Insn.primary .advanceLoc k) = (CfaOp.advanceLoc.code, UInt64.ofNat k) ∧
    splitOpcode (Insn.primary .offset k) = (CfaOp.offset.code, UInt64.ofNat k) ∧
    splitOpcode (Insn.primary .restore k) = (CfaOp.restore.code, UInt64.ofNat k) := by
  revert k
  decide +kernel

variable {t : Target} {dci : DwarfCieInfo} {pi : UnwProcInfo} {known : Oracle}
  {s : CfiState t.numPreservedRegs} {r : Except Stop (CfiState t.numPreservedRegs)}

/-- A round executes the instruction that its first byte names. -/
theorem returns_cfiRound {b : UInt8} {op : CfaOp} {operand : UInt64} (hb : HasByte known s.addr b)
    (hop : splitOpcode b = (op.code, operand))
    (h : Returns known (cfiInstr t dci pi op operand { s with addr := s.addr + 1 }) r) :
    Returns known (cfiRound t dci pi s) r := by
  refine Returns.bind hb ?_
  dsimp only
  rw [hop, CfaOp.ofCode_code]
  exact h

end Opcodes

section Instructions

variable {t : Target} {dci : DwarfCieInfo} {pi : UnwProcInfo} {E : Type} {known : Oracle}
  {code : E → List UInt8} {ra : UInt64}
  {initial : Fin t.numPreservedRegs → Rule (Fin t.numPreservedRegs) UInt64 E}
  {s : CfiState t.numPreservedRegs} {a a' : State (Fin t.numPreservedRegs) UInt64 E}

def factors (dci : DwarfCieInfo) (pi : UnwProcInfo) : Insn.Factors :=
  ⟨dci.codeAlign, dci.dataAlign, pi.gp, pi.startIp⟩

/-- One round on an instruction does what the instruction means. -/
structure Executes (t : Target) (dci : DwarfCieInfo) (pi : UnwProcInfo) (known : Oracle)
    (code : E → List UInt8) (ra : UInt64)
    (initial : Fin t.numPreservedRegs → Rule (Fin t.numPreservedRegs) UInt64 E)
    (s s' : CfiState t.numPreservedRegs) (next : UInt64)
    (a' : State (Fin t.numPreservedRegs) UInt64 E) : Prop where
  returns : Returns known (cfiRound t dci pi s) (.ok s')
  addr : s'.addr = next
  models : StateModels known code ra initial s' a'

/-- Changing the frame-address rule needs one that is a register. -/
theorem adjustCfa_eq_some {f : Fin t.numPreservedRegs → UInt64 → Fin t.numPreservedRegs × UInt64}
    (h : (a.row.adjustCfa f).map (fun row => { a with row := row }) = some a') :
    ∃ q o, a.row.cfa = some (.register q o) ∧
      a' = { a with row := { a.row with cfa := some (.register (f q o).1 (f q o).2) } } := by
  obtain ⟨row, hrow, rfl⟩ := Option.map_eq_some_iff.mp h
  unfold Row.adjustCfa at hrow
  split at hrow
  · next q o hcfa =>
    cases hrow
    exact ⟨q, o, hcfa, rfl⟩
  · cases hrow

/-- A pointer in the encoding of the CIE. -/
theorem returns_pointer {enc : Encoding} {raw addr : UInt64} (htext : enc.application ≠ .textrel)
    (hsleb : enc.format ≠ .sleb128) (hfits : enc.format.Fits raw)
    (h : HasBytes known addr (enc.format.encode raw)) :
    Returns known (dwarfReadEncodedPointer enc.byte pi addr)
      (.ok (enc.pointer ⟨0, pi.gp, pi.startIp⟩ addr raw, behind addr (enc.format.encode raw))) := by
  obtain ⟨homit, hdirect, hformat, happ, -⟩ := enc.bits
  have haligned : enc.byte ≠ DW_EH_PE_ALIGNED := by
    intro he
    rw [he] at happ
    revert happ
    cases enc.application <;> decide
  have hne : enc.byte &&& DW_EH_PE_APP_MASK ≠ DW_EH_PE_TEXTREL := by
    rw [happ]
    revert htext
    cases enc.application <;> decide
  have hraw : nativeRaw enc.format (enc.format.encode raw) = raw := by
    rw [(nativeRaw_eq_iff (enc.format.shape_encode raw)).mpr (fun he => absurd he hsleb),
      Format.raw_encode hfits]
  have hread := @returns_encodedPointer known addr _ enc.byte enc.format pi hformat
    (enc.format.shape_encode raw) h homit haligned hdirect
  rw [hraw, nativeResolve, if_neg hne, enc.applied_byte] at hread
  unfold Encoding.pointer
  split at hread
  · next hzero => rw [if_pos hzero]; exact hread
  · next hzero => rw [if_neg hzero]; exact hread

theorem exec_primary {op : CfaOp} {operand : UInt64} {b : UInt8} {s' : CfiState t.numPreservedRegs}
    {next : UInt64} (hb : HasByte known s.addr b) (hop : splitOpcode b = (op.code, operand))
    (h : Returns known (cfiInstr t dci pi op operand { s with addr := s.addr + 1 }) (.ok s'))
    (haddr : s'.addr = next) (hm : StateModels known code ra initial s' a') :
    ∃ s', Executes t dci pi known code ra initial s s' next a' :=
  ⟨s', returns_cfiRound hb hop h, haddr, hm⟩

/-- The same for an opcode without an operand of its own. -/
theorem exec_plain (op : CfaOp) (hop : op.code &&& 0xc0 = 0) {s' : CfiState t.numPreservedRegs}
    {next : UInt64} (hb : HasByte known s.addr op.code)
    (h : Returns known (cfiInstr t dci pi op 0 { s with addr := s.addr + 1 }) (.ok s'))
    (haddr : s'.addr = next) (hm : StateModels known code ra initial s' a') :
    ∃ s', Executes t dci pi known code ra initial s s' next a' :=
  exec_primary hb (if_neg (fun hne => hne hop)) h haddr hm

/-- The part of some code behind its first bytes. -/
theorem fits_behind {addr : UInt64} {bs cs : List UInt8}
    (h : addr.toNat + (bs ++ cs).length < 2 ^ 64) : (behind addr bs).toNat + cs.length < 2 ^ 64 := by
  rw [List.length_append] at h
  rw [behind_toNat (by omega)]
  omega

theorem insn_executes {i : Insn t.numPreservedRegs E} (hs : i.Supported t dci)
    (h : HasBytes known s.addr (i.bytes code)) (hfits : s.addr.toNat + (i.bytes code).length < 2 ^ 64)
    (hm : StateModels known code ra initial s a)
    (hx : (i.meaning (factors dci pi) t.raSignState s.addr).exec initial a = some a') :
    ∃ s', Executes t dci pi known code ra initial s s' (behind s.addr (i.bytes code)) a' := by
  have hfit := t.columns_fit
  have hbehind : ∀ b bs, behind (s.addr + 1) bs = behind s.addr (b :: bs) :=
    fun b bs => (behind_cons _ b bs).symm
  have hrest : ∀ (b : UInt8) (bs : List UInt8), s.addr.toNat + (b :: bs).length < 2 ^ 64 →
      (s.addr + 1).toNat + bs.length < 2 ^ 64 := by
    intro b bs hlt
    have hb := @fits_behind s.addr [b] bs hlt
    rwa [behind_cons, behind_nil] at hb
  have hone : ∀ b, s.addr + 1 = behind s.addr [b] := by
    intro b
    rw [behind_cons, behind_nil]
  cases i with
  | advanceLoc delta =>
    cases hx
    exact exec_primary h.1 (splitOpcode_primary delta).1 returns_pure (hone _)
      ((hm.moveTo _).advance _)
  | advanceLoc1 delta =>
    cases hx
    exact exec_plain .advanceLoc1 (by decide) h.1 (Returns.bind h.2.1 returns_pure)
      (by simp [Insn.bytes, CfiState.advance]) ((hm.moveTo _).advance _)
  | advanceLoc2 delta =>
    cases hx
    have hread := returns_readu16 h.2
    rw [UInt16.ofNat_toNat] at hread
    exact exec_plain .advanceLoc2 (by decide) h.1 (Returns.bind hread returns_pure) (hbehind _ _)
      ((hm.moveTo _).advance _)
  | advanceLoc4 delta =>
    cases hx
    have hread := returns_readu32 h.2
    rw [UInt32.ofNat_toNat] at hread
    exact exec_plain .advanceLoc4 (by decide) h.1 (Returns.bind hread returns_pure) (hbehind _ _)
      ((hm.moveTo _).advance _)
  | setLoc enc raw =>
    cases hx
    obtain ⟨henc, htext, hsleb, hraw⟩ := hs
    have hread := @returns_pointer pi known enc raw (s.addr + 1) htext hsleb hraw h.2
    rw [← henc] at hread
    exact exec_plain .setLoc (by decide) h.1 (Returns.bind hread returns_pure) (hbehind _ _)
      ⟨rfl, hm.row, hm.stack, hm.initial⟩
  | offset r small o =>
    cases hx
    have hcol : Returns known (regColumn _ (-UNW_EBADREG) (UInt64.ofNat r)) (.ok r) := by
      rw [regColumn_eq _ hfit]
      exact returns_pure
    exact exec_primary h.1 (splitOpcode_primary ⟨r, small⟩).2.1
      (Returns.bind hcol (Returns.bind (returns_uleb128_encode o h.2) returns_pure)) (hbehind _ _)
      ((hm.moveTo _).setReg rfl)
  | offsetExtended r o =>
    cases hx
    exact exec_plain .offsetExtended (by decide) h.1 (Returns.bind (returns_readRegnumUleb hfit h.2) returns_pure)
      (hbehind _ _) ((hm.moveTo _).setReg rfl)
  | offsetExtendedSf r o =>
    cases hx
    exact exec_plain .offsetExtendedSf (by decide) h.1 (Returns.bind (returns_readRegnumSleb hfit h.2) returns_pure)
      (hbehind _ _) ((hm.moveTo _).setReg rfl)
  | negativeOffsetExtended r o =>
    cases hx
    refine exec_plain .gnuNegativeOffsetExtended (by decide) h.1
      (Returns.bind (returns_readRegnumUleb hfit h.2) returns_pure) (hbehind _ _)
      ((hm.moveTo _).setReg ?_)
    rw [UInt64.zero_sub, UInt64.neg_eq_not_add]
    rfl
  | restore r small =>
    cases hx
    have hcol : Returns known (regColumn _ (-UNW_EINVAL) (UInt64.ofNat r)) (.ok r) := by
      rw [regColumn_eq _ hfit]
      exact returns_pure
    exact exec_primary h.1 (splitOpcode_primary ⟨r, small⟩).2.2 (Returns.bind hcol returns_pure)
      (hone _) ((hm.moveTo _).restoreReg r)
  | restoreExtended r =>
    cases hx
    have hcol : Returns known (regColumn _ (-UNW_EINVAL) (UInt64.ofNat r)) (.ok r) := by
      rw [regColumn_eq _ hfit]
      exact returns_pure
    exact exec_plain .restoreExtended (by decide) h.1
      (Returns.bind (returns_column hfit h.2) (Returns.bind hcol returns_pure)) (hbehind _ _)
      ((hm.moveTo _).restoreReg r)
  | undefined r =>
    cases hx
    exact exec_plain .undefined (by decide) h.1 (Returns.bind (returns_readRegnum hfit h.2) returns_pure)
      (hbehind _ _) ((hm.moveTo _).setReg rfl)
  | sameValue r =>
    cases hx
    exact exec_plain .sameValue (by decide) h.1 (Returns.bind (returns_readRegnum hfit h.2) returns_pure)
      (hbehind _ _) ((hm.moveTo _).setReg rfl)
  | register r other =>
    cases hx
    obtain ⟨hr, ho⟩ := hasBytes_append.mp h.2
    exact exec_plain .register (by decide) h.1
      (Returns.bind (Returns.bind (returns_readRegnum hfit hr)
        (Returns.bind (returns_column hfit ho) returns_pure)) returns_pure)
      (by simp [Insn.bytes, CfiState.setReg]) ((hm.moveTo _).setReg rfl)
  | rememberState =>
    cases hx
    exact exec_plain .rememberState (by decide) h.1 returns_pure (hone _)
      ⟨hm.ip, hm.row, .cons hm.row hm.stack, hm.initial⟩
  | restoreState =>
    have hstack := hm.stack
    simp only [Insn.meaning, Instr.exec] at hx
    cases hrow : a.stack with
    | nil =>
      rw [hrow] at hx
      cases hx
    | cons row rest =>
      rw [hrow] at hx hstack
      cases hx
      obtain ⟨state, states, hstate, hstates, hcons⟩ := List.forall₂_cons_right_iff.mp hstack
      have hret : Returns known
          (cfiInstr t dci pi .restoreState 0 { s with addr := s.addr + 1 })
          (.ok { s with addr := s.addr + 1, rsCurrent := state, rsStack := states }) := by
        unfold cfiInstr
        rw [hcons]
        exact returns_pure
      exact exec_plain .restoreState (by decide) h.1 hret (hone _)
        ⟨hm.ip, hstate, hstates, hm.initial⟩
  | defCfa r o =>
    cases hx
    exact exec_plain .defCfa (by decide) h.1 (Returns.bind (returns_readRegnumUleb hfit h.2) returns_pure)
      (hbehind _ _) ((hm.moveTo _).setCfa ⟨rfl, rfl⟩)
  | defCfaSf r o =>
    cases hx
    exact exec_plain .defCfaSf (by decide) h.1 (Returns.bind (returns_readRegnumSleb hfit h.2) returns_pure)
      (hbehind _ _) ((hm.moveTo _).setCfa ⟨rfl, rfl⟩)
  | defCfaRegister r =>
    obtain ⟨q, o, hcfa, rfl⟩ := adjustCfa_eq_some hx
    have hold := hm.row.cfa
    rw [hcfa] at hold
    exact exec_plain .defCfaRegister (by decide) h.1
      (Returns.bind (returns_readRegnum hfit h.2) returns_pure) (hbehind _ _)
      ((hm.moveTo _).setCfa ⟨rfl, hold.2⟩)
  | defCfaOffset o =>
    obtain ⟨q, p, hcfa, rfl⟩ := adjustCfa_eq_some hx
    have hold := hm.row.cfa
    rw [hcfa] at hold
    exact exec_plain .defCfaOffset (by decide) h.1
      (Returns.bind (returns_uleb128_encode o h.2) returns_pure) (hbehind _ _)
      ((hm.moveTo _).setCfa ⟨hold.1, rfl⟩)
  | defCfaOffsetSf o =>
    obtain ⟨q, p, hcfa, rfl⟩ := adjustCfa_eq_some hx
    have hold := hm.row.cfa
    rw [hcfa] at hold
    exact exec_plain .defCfaOffsetSf (by decide) h.1
      (Returns.bind (returns_sleb128_encode o h.2) returns_pure) (hbehind _ _)
      ((hm.moveTo _).setCfa ⟨hold.1, rfl⟩)
  | defCfaExpression e =>
    cases hx
    have hblock : BlockAt known code (s.addr + 1) e := ⟨h.2, hrest _ _ hfits⟩
    exact exec_plain .defCfaExpression (by decide) h.1
      (Returns.bind (returns_skipBlock hblock) returns_pure) (hbehind _ _)
      ((hm.moveTo _).setCfa ⟨rfl, hblock⟩)
  | expression r e =>
    cases hx
    obtain ⟨hr, he⟩ := hasBytes_append.mp h.2
    have hblock : BlockAt known code (behind (s.addr + 1) (Insn.column r)) e :=
      ⟨he, fits_behind (hrest _ _ hfits)⟩
    exact exec_plain .expression (by decide) h.1
      (Returns.bind (returns_readRegnum hfit hr)
        (Returns.bind (returns_skipBlock hblock) returns_pure))
      (by simp [Insn.bytes, CfiState.setReg]) ((hm.moveTo _).setReg ⟨rfl, hblock⟩)
  | valExpression r e =>
    cases hx
    obtain ⟨hr, he⟩ := hasBytes_append.mp h.2
    have hblock : BlockAt known code (behind (s.addr + 1) (Insn.column r)) e :=
      ⟨he, fits_behind (hrest _ _ hfits)⟩
    exact exec_plain .valExpression (by decide) h.1
      (Returns.bind (returns_readRegnum hfit hr)
        (Returns.bind (returns_skipBlock hblock) returns_pure))
      (by simp [Insn.bytes, CfiState.setReg]) ((hm.moveTo _).setReg ⟨rfl, hblock⟩)
  | argsSize size =>
    cases hx
    exact exec_plain .gnuArgsSize (by decide) h.1
      (Returns.bind (returns_uleb128_encode size h.2) returns_pure) (hbehind _ _)
      ⟨hm.ip, hm.row, hm.stack, hm.initial⟩
  | negateRaState =>
    cases hcol : t.raSignState with
    | none => exact absurd hcol hs
    | some column =>
      simp only [Insn.meaning, hcol] at hx
      cases hx
      have hret : Returns known
          (cfiInstr t dci pi .gnuWindowSave 0 { s with addr := s.addr + 1 })
          (.ok ({ s with addr := s.addr + 1 }.setReg column .same
            ((s.rsCurrent.reg column).val ^^^ 1))) := by
        unfold cfiInstr
        rw [hcol]
        exact returns_pure
      exact exec_plain .gnuWindowSave (by decide) h.1 hret (hone _) ((hm.moveTo _).setReg rfl)
  | nop =>
    cases hx
    exact exec_plain .nop (by decide) h.1 returns_pure (hone _) (hm.moveTo _)

end Instructions

end Unwinder.Native
