import Unwinder.Native.Step
import Unwinder.Proofs.Callbacks

namespace Unwinder.Native
open Lib Interaction Ffi

/-- Proc-info as this crate hands it out: a descriptor for the remote process. -/
structure RemoteTable (pi : UnwProcInfo) : Prop where
  format : pi.format = UNW_INFO_FORMAT_REMOTE_TABLE
  flags : pi.flags = 0
  info : pi.unwindInfo ≠ none

/-- The answers that the accessor table of this crate gives. -/
def CrateAnswer : (o : Accessor) → o.Answer → Prop
  | .findProcInfo _ _ _, (ret, pi) =>
    ret = -UNW_ENOINFO ∨ (0 ≤ ret ∧ RemoteTable pi)
  | .getDynInfoListAddr _, ret => ret < 0
  | .accessMem _ _ _, (ret, _) => 0 ≤ ret ∨ ret = -UNW_EINVAL
  | .accessReg _ _ _, (ret, _) => 0 ≤ ret ∨ ret = -UNW_EBADREG
  | .putUnwindInfo _, _ | .accessFpreg _ _ _, _ => True

/-- Calls that only ask for something. -/
def ReadsOnly : Accessor → Prop
  | .findProcInfo _ _ _ | .getDynInfoListAddr _ => True
  | .accessMem _ _ write | .accessReg _ _ write => write = false
  | .putUnwindInfo _ | .accessFpreg _ _ _ => False

/-- The statuses with which reading and interpreting can fail. -/
def IsFailure (ret : Int) : Prop := ret = -UNW_EBADREG ∨ ret = -UNW_EBADFRAME ∨ ret = -UNW_EINVAL

/-- Nothing that the model leaves out is ever reached. -/
def FailsOnly : Stop → Prop
  | .status ret => IsFailure ret
  | .undefined | .unfinished => True
  | .outside => False

theorem IsFailure.neg {ret : Int} (h : IsFailure ret) : ret < 0 ∧ ret ≠ -UNW_ENOINFO := by
  rcases h with rfl | rfl | rfl <;> decide

/-- Behind the accessors of this crate, the code only reads, fails with one of these
statuses, and comes to values of some kind. -/
abbrev Quiet {α : Type} (q : α → Prop) (x : Code α) : Prop :=
  Keeps CrateAnswer ReadsOnly FailsOnly q x

/-- The same, whatever the values are. -/
abbrev Harmless {α : Type} (x : Code α) : Prop := Quiet (fun _ => True) x

/-- The C code has no meaning there, or does not end. -/
def Diverges : Stop → Prop
  | .undefined | .unfinished => True
  | .status _ | .outside => False

/-- Such code, where every status is handed out as a value. -/
abbrev Settled {α : Type} (q : α → Prop) (x : Code α) : Prop :=
  Keeps CrateAnswer ReadsOnly Diverges q x

section Harmless

variable {α β : Type} {a : α} {x : Code α} {f : α → Code β} {addr : UInt64}

theorem harmless_pure : Harmless (pure a : Code α) := keeps_pure trivial

theorem harmless_throw {ret : Int} (h : IsFailure ret) : Harmless (throw (.status ret) : Code α) :=
  keeps_throw h

theorem harmless_badreg : Harmless (throw (.status (-UNW_EBADREG)) : Code α) :=
  harmless_throw (Or.inl rfl)

theorem harmless_inval : Harmless (throw (.status (-UNW_EINVAL)) : Code α) :=
  harmless_throw (Or.inr (Or.inr rfl))

theorem Harmless.bind (hx : Harmless x) (hf : ∀ a, Harmless (f a)) : Harmless (x >>= f) :=
  Keeps.bind hx (fun a _ => hf a)

theorem harmless_ite {c : Prop} [Decidable c] {x y : Code α} (hx : Harmless x) (hy : Harmless y) :
    Harmless (if c then x else y) := by
  split
  · exact hx
  · exact hy

theorem harmless_checked {answer : Int × UInt64} (h : 0 ≤ answer.1 ∨ IsFailure answer.1) :
    Harmless (checked answer) := by
  unfold checked
  split
  · exact harmless_throw (h.resolve_left (by omega))
  · exact harmless_pure

theorem harmless_accessMem : Harmless (accessMem addr) :=
  Keeps.bind (keeps_ask (show ReadsOnly (.accessMem addr 0 false) from rfl))
    (fun _ h => harmless_checked (h.imp id (fun he => Or.inr (Or.inr he))))

theorem harmless_accessReg (reg : Int) : Harmless (accessReg reg) :=
  Keeps.bind (keeps_ask (show ReadsOnly (.accessReg reg 0 false) from rfl))
    (fun _ h => harmless_checked (h.imp id Or.inl))

theorem harmless_readu8 : Harmless (dwarfReadu8 addr) :=
  harmless_accessMem.bind (fun _ => harmless_pure)

theorem harmless_readu16 : Harmless (dwarfReadu16 addr) :=
  harmless_readu8.bind (fun _ => harmless_readu8.bind (fun _ => harmless_pure))

theorem harmless_readu32 : Harmless (dwarfReadu32 addr) :=
  harmless_readu16.bind (fun _ => harmless_readu16.bind (fun _ => harmless_pure))

theorem harmless_readu64 : Harmless (dwarfReadu64 addr) :=
  harmless_readu32.bind (fun _ => harmless_readu32.bind (fun _ => harmless_pure))

theorem harmless_lebLoop {rounds : Nat} {val shift : UInt64} :
    Harmless (lebLoop rounds val shift addr) := by
  induction rounds generalizing val shift addr with
  | zero => exact harmless_readu8.bind (fun _ => keeps_throw trivial)
  | succ rounds ih => exact harmless_readu8.bind (fun _ => harmless_ite ih harmless_pure)

theorem harmless_uleb128 : Harmless (dwarfReadUleb128 addr) :=
  harmless_lebLoop.bind (fun _ => harmless_pure)

theorem harmless_sleb128 : Harmless (dwarfReadSleb128 addr) :=
  harmless_lebLoop.bind (fun _ => harmless_ite harmless_pure harmless_pure)

theorem harmless_readFormat {encoding : UInt8} : Harmless (readFormat encoding addr) := by
  unfold readFormat
  refine harmless_ite harmless_readu64 (harmless_ite harmless_uleb128 (harmless_ite ?_
    (harmless_ite ?_ (harmless_ite harmless_readu64 (harmless_ite harmless_uleb128 (harmless_ite ?_
      (harmless_ite ?_ (harmless_ite ?_ harmless_inval))))))))
  · exact harmless_readu16.bind (fun _ => harmless_pure)
  · exact harmless_readu32.bind (fun _ => harmless_pure)
  · exact (harmless_readu16.bind (fun _ => harmless_pure)).bind (fun _ => harmless_pure)
  · exact (harmless_readu32.bind (fun _ => harmless_pure)).bind (fun _ => harmless_pure)
  · exact (harmless_readu64.bind (fun _ => harmless_pure)).bind (fun _ => harmless_pure)

theorem harmless_applyEncoding {encoding : UInt8} {pi : UnwProcInfo} {initialAddr val : UInt64} :
    Harmless (applyEncoding encoding pi initialAddr val) :=
  harmless_ite harmless_pure (harmless_ite harmless_pure (harmless_ite harmless_pure
    (harmless_ite harmless_pure harmless_inval)))

theorem harmless_encodedPointer {encoding : UInt8} {pi : UnwProcInfo} :
    Harmless (dwarfReadEncodedPointer encoding pi addr) := by
  refine harmless_ite harmless_pure (harmless_ite harmless_readu64
    (harmless_readFormat.bind (fun _ => harmless_ite harmless_pure
      (harmless_applyEncoding.bind (fun _ => harmless_ite ?_ harmless_pure)))))
  exact harmless_readu64.bind (fun _ => harmless_pure)

end Harmless

section Programs

variable {t : Target} {dci : DwarfCieInfo} {pi : UnwProcInfo} {addr operand : UInt64}

theorem harmless_regColumn {n : Nat} {ret : Int} (h : IsFailure ret) {regnum : UInt64} :
    Harmless (regColumn n ret regnum) := by
  unfold regColumn
  split
  · exact harmless_pure
  · exact harmless_throw h

theorem harmless_readRegnum {n : Nat} : Harmless (readRegnum n addr) :=
  harmless_uleb128.bind (fun _ => (harmless_regColumn (Or.inl rfl)).bind (fun _ => harmless_pure))

theorem harmless_readRegnumUleb {n : Nat} : Harmless (readRegnumUleb n addr) :=
  harmless_readRegnum.bind (fun _ => harmless_uleb128.bind (fun _ => harmless_pure))

theorem harmless_readRegnumSleb {n : Nat} : Harmless (readRegnumSleb n addr) :=
  harmless_readRegnum.bind (fun _ => harmless_sleb128.bind (fun _ => harmless_pure))

theorem harmless_skipBlock : Harmless (skipBlock addr) :=
  harmless_uleb128.bind (fun _ => harmless_pure)

theorem harmless_cfiInstr {op : CfaOp} {s : CfiState t.numPreservedRegs} :
    Harmless (cfiInstr t dci pi op operand s) := by
  cases op with
  | advanceLoc | nop | rememberState => exact harmless_pure
  | mipsAdvanceLoc8 | loUser | hiUser => exact harmless_inval
  | advanceLoc1 => exact harmless_readu8.bind (fun _ => harmless_pure)
  | advanceLoc2 => exact harmless_readu16.bind (fun _ => harmless_pure)
  | advanceLoc4 => exact harmless_readu32.bind (fun _ => harmless_pure)
  | offset =>
    exact (harmless_regColumn (Or.inl rfl)).bind (fun _ => harmless_uleb128.bind
      (fun _ => harmless_pure))
  | restore =>
    exact (harmless_regColumn (Or.inr (Or.inr rfl))).bind (fun _ => harmless_pure)
  | restoreExtended =>
    exact harmless_uleb128.bind (fun _ => (harmless_regColumn (Or.inr (Or.inr rfl))).bind
      (fun _ => harmless_pure))
  | setLoc => exact harmless_encodedPointer.bind (fun _ => harmless_pure)
  | undefined | sameValue | defCfaRegister => exact harmless_readRegnum.bind (fun _ => harmless_pure)
  | offsetExtended | register | defCfa | gnuNegativeOffsetExtended =>
    exact harmless_readRegnumUleb.bind (fun _ => harmless_pure)
  | offsetExtendedSf | defCfaSf => exact harmless_readRegnumSleb.bind (fun _ => harmless_pure)
  | defCfaOffset | gnuArgsSize => exact harmless_uleb128.bind (fun _ => harmless_pure)
  | defCfaOffsetSf => exact harmless_sleb128.bind (fun _ => harmless_pure)
  | defCfaExpression => exact harmless_skipBlock.bind (fun _ => harmless_pure)
  | expression | valExpression =>
    exact harmless_readRegnum.bind (fun _ => harmless_skipBlock.bind (fun _ => harmless_pure))
  | restoreState =>
    simp only [cfiInstr]
    cases s.rsStack with
    | nil => exact harmless_inval
    | cons state rest => exact harmless_pure
  | gnuWindowSave =>
    simp only [cfiInstr]
    cases t.raSignState with
    | some column => exact harmless_pure
    | none => exact harmless_inval

theorem harmless_cfiLoop {endIp endAddr : UInt64} {rounds : Nat} {s : CfiState t.numPreservedRegs} :
    Harmless (cfiLoop t dci pi endIp endAddr rounds s) := by
  have hround : ∀ s, Harmless (cfiRound t dci pi s) := by
    intro s
    refine harmless_readu8.bind (fun r => ?_)
    dsimp only
    split
    · exact harmless_cfiInstr
    · exact harmless_pure
  induction rounds generalizing s with
  | zero => exact harmless_ite (keeps_throw trivial) harmless_pure
  | succ rounds ih => exact harmless_ite ((hround s).bind (fun _ => ih)) harmless_pure

theorem harmless_runCfiProgram (h : pi.flags = 0) {endIp endAddr : UInt64} {rounds : Nat}
    {s : CfiState t.numPreservedRegs} : Harmless (runCfiProgram t dci pi endIp endAddr rounds s) := by
  unfold runCfiProgram
  rw [if_neg (by simp [h])]
  exact harmless_cfiLoop

end Programs

section Expressions

variable {toRegnum : UInt64 → UInt64} {getReg : UInt64 → Code UInt64} {stack : ExprStack}
  {addr : UInt64}

theorem harmless_push {x : UInt64} : Harmless (push stack x) :=
  harmless_ite harmless_inval harmless_pure

theorem harmless_pop : Harmless (pop stack) := by
  unfold pop
  split
  · exact harmless_inval
  · exact harmless_pure

theorem harmless_pick {n : Nat} : Harmless (pick stack n) := by
  unfold pick
  split
  · exact harmless_inval
  · exact harmless_pure

theorem harmless_readOperand {kind : Operand} : Harmless (readOperand kind addr) := by
  cases kind with
  | val8 => exact harmless_readu8.bind (fun _ => harmless_pure)
  | val16 => exact harmless_readu16.bind (fun _ => harmless_pure)
  | val32 => exact harmless_readu32.bind (fun _ => harmless_pure)
  | val64 | addr => exact harmless_readu64
  | uleb128 => exact harmless_uleb128
  | sleb128 => exact harmless_sleb128
  | offset => exact harmless_inval

theorem harmless_readOperands {kinds : List Operand} : Harmless (readOperands kinds addr) := by
  unfold readOperands
  split
  · exact harmless_pure
  · exact harmless_readOperand.bind (fun _ => harmless_pure)
  · exact harmless_readOperand.bind (fun _ => harmless_readOperand.bind (fun _ => harmless_pure))

theorem harmless_derefSize {operand : UInt64} : Harmless (derefSize operand addr) :=
  harmless_ite (harmless_readu8.bind (fun _ => harmless_pure))
    (harmless_ite (harmless_readu16.bind (fun _ => harmless_pure))
      (harmless_ite (harmless_readu32.bind (fun _ => harmless_pure))
        (harmless_ite (harmless_readu64.bind (fun _ => harmless_pure)) harmless_inval)))

theorem harmless_pushed {x : UInt64} :
    Harmless (do let stack ← push stack x; return ExprResult.more addr stack) :=
  harmless_push.bind (fun _ => harmless_pure)

theorem harmless_exprInstr (hget : ∀ reg, Harmless (getReg reg)) {op : ExprOp}
    {operand1 operand2 : UInt64} :
    Harmless (exprInstr toRegnum getReg op operand1 operand2 addr stack) := by
  cases op with
  | lit | addr | const1u | const2u | const4u | const8u | constu | const8s | consts | const1s
  | const2s | const4s => exact harmless_pushed
  | breg n => exact (hget _).bind (fun _ => harmless_pushed)
  | bregx => exact (hget _).bind (fun _ => harmless_pushed)
  | reg | regx | skip | nop => exact harmless_pure
  | deref => exact harmless_pop.bind (fun _ => harmless_readu64.bind (fun _ => harmless_pushed))
  | derefSize => exact harmless_pop.bind (fun _ => harmless_derefSize.bind (fun _ => harmless_pushed))
  | dup | pick | overOp => exact harmless_pick.bind (fun _ => harmless_pushed)
  | drop => exact harmless_pop.bind (fun _ => harmless_pure)
  | swap =>
    exact harmless_pop.bind (fun _ => harmless_pop.bind (fun _ => harmless_push.bind
      (fun _ => harmless_pushed)))
  | rot =>
    exact harmless_pop.bind (fun _ => harmless_pop.bind (fun _ => harmless_pop.bind
      (fun _ => harmless_push.bind (fun _ => harmless_push.bind (fun _ => harmless_pushed)))))
  | unary op => exact harmless_pop.bind (fun _ => harmless_pushed)
  | plusUconst => exact harmless_pop.bind (fun _ => harmless_pushed)
  | binary op =>
    refine harmless_pop.bind (fun _ => harmless_pop.bind (fun _ => ?_))
    dsimp only
    split
    · exact keeps_throw trivial
    · exact harmless_pushed
  | bra => exact harmless_pop.bind (fun _ => harmless_ite harmless_pure harmless_pure)
  | call2 | call4 | callRef | fbreg | piece | pushObjectAddress | xderef | xderefSize =>
    exact harmless_inval

theorem harmless_exprLoop (hget : ∀ reg, Harmless (getReg reg)) {endAddr : UInt64} {rounds : Nat} :
    Harmless (exprLoop toRegnum getReg endAddr rounds addr stack) := by
  have hround : ∀ addr stack, Harmless (exprRound toRegnum getReg addr stack) := by
    intro addr stack
    refine harmless_readu8.bind (fun r => ?_)
    dsimp only
    split
    · exact harmless_readOperands.bind (fun _ => harmless_exprInstr hget)
    · exact harmless_inval
  induction rounds generalizing addr stack with
  | zero => exact harmless_ite (keeps_throw trivial) (harmless_pop.bind (fun _ => harmless_pure))
  | succ rounds ih =>
    refine harmless_ite ((hround addr stack).bind (fun r => ?_))
      (harmless_pop.bind (fun _ => harmless_pure))
    cases r with
    | more addr stack => exact ih
    | register num => exact harmless_pure

theorem harmless_dwarfEvalExpr (hget : ∀ reg, Harmless (getReg reg)) {rounds : Nat}
    {stackVal len : UInt64} : Harmless (dwarfEvalExpr toRegnum getReg rounds stackVal addr len) :=
  harmless_push.bind (fun _ => harmless_exprLoop hget)

end Expressions

section Step

variable {t : Target} {getReg : DwarfCursor t.numPreservedRegs → UInt64 → Code UInt64} {rounds : Nat}
  {c : DwarfCursor t.numPreservedRegs} {α : Type} {x : Code α}

/-- A status that is handed out is one of a failure. -/
theorem settled_attempt {q : α → Prop} (h : Quiet q x) :
    Settled (fun | .ok a => q a | .error ret => IsFailure ret) (attempt x) := by
  refine Ensures.bind h ?_
  intro r hr
  cases r with
  | ok a => exact hr
  | error stop =>
    cases stop with
    | status ret => exact hr
    | undefined | unfinished => trivial
    | outside => exact hr

theorem harmless_dwarfGet {loc : Loc} : Harmless (dwarfGet loc) := by
  refine harmless_ite harmless_badreg ?_
  cases loc with
  | mem addr => exact harmless_accessMem
  | reg num => exact harmless_accessReg _
  | val value => exact harmless_pure

theorem harmless_evalLocationExpr (hget : ∀ reg, Harmless (getReg c reg)) {stackVal addr : UInt64} :
    Harmless (evalLocationExpr t getReg rounds c stackVal addr) :=
  harmless_uleb128.bind (fun _ => (harmless_dwarfEvalExpr hget).bind (fun _ => harmless_pure))

theorem harmless_evalCfa (hget : ∀ reg, Harmless (getReg c reg)) {rs : RegState t.numPreservedRegs} :
    Harmless (evalCfa t getReg rounds c rs) := by
  refine harmless_ite ?_ ((harmless_evalLocationExpr hget).bind (fun loc => ?_))
  · split
    · exact harmless_pure.bind (fun _ => harmless_pure)
    · exact (hget _).bind (fun _ => harmless_pure)
  · cases loc with
    | reg num => exact harmless_throw (Or.inr (Or.inl rfl))
    | mem addr | val value => exact harmless_pure

theorem harmless_newLocs (hget : ∀ reg, Harmless (getReg c reg)) {rs : RegState t.numPreservedRegs}
    {cfa : UInt64} {left : List (Fin t.numPreservedRegs)} {locs : Fin t.numPreservedRegs → Loc} :
    Harmless (newLocs t getReg rounds c rs cfa left locs) := by
  have hloc : ∀ locs i, Harmless (newLoc t getReg rounds c rs cfa locs i) := by
    intro locs i
    unfold newLoc
    dsimp only
    cases (rs.reg i).place with
    | undef | same | cfa | cfarel => exact harmless_pure
    | reg =>
      dsimp only
      split
      · exact harmless_pure
      · exact keeps_throw trivial
    | expr => exact harmless_evalLocationExpr hget
    | valExpr => exact (harmless_evalLocationExpr hget).bind (fun _ => harmless_pure)
  induction left generalizing locs with
  | nil => exact harmless_pure
  | cons i rest ih => exact (hloc locs i).bind (fun _ => ih)

theorem harmless_callerLocs (hget : ∀ reg, Harmless (getReg c reg))
    {rs : RegState t.numPreservedRegs} : Harmless (callerLocs t getReg rounds c rs) :=
  (harmless_evalCfa hget).bind (fun _ => (harmless_newLocs hget).bind (fun _ => harmless_pure))

theorem harmless_returnIp {loc : Loc} : Harmless (returnIp loc) :=
  harmless_ite harmless_pure harmless_dwarfGet

/-- What a step can come to: a failure, or a status that is positive only behind a
frame other than the one that was left. -/
def Advances {n : Nat} (prev : DwarfCursor n) (r : Int × DwarfCursor n) : Prop :=
  IsFailure r.1 ∨ ((r.1 = 0 ∨ r.1 = 1) ∧ (0 < r.1 → ¬ (r.2.ip = prev.ip ∧ r.2.cfa = prev.cfa)))

theorem settled_applyRegState (hget : ∀ reg, Harmless (getReg c reg))
    {rs : RegState t.numPreservedRegs} : Settled (Advances c) (applyRegState t getReg rounds c rs) := by
  unfold applyRegState
  split
  · next hcol =>
    refine Keeps.bind (settled_attempt (harmless_callerLocs hget)) ?_
    intro r hr
    cases r with
    | error ret => exact keeps_pure (Or.inl hr)
    | ok locs =>
      refine Keeps.bind (settled_attempt harmless_returnIp) ?_
      intro r hr
      cases r with
      | error ret => exact keeps_pure (Or.inl hr)
      | ok ip =>
        dsimp only
        split
        · exact keeps_pure (Or.inl (Or.inr (Or.inl rfl)))
        · next hmoves =>
          refine keeps_pure (Or.inr ⟨?_, fun _ => hmoves⟩)
          dsimp only
          split
          · exact Or.inr rfl
          · exact Or.inl rfl
  · exact keeps_pure (Or.inl (Or.inr (Or.inl rfl)))

theorem harmless_createStateRecordFor {pi : UnwProcInfo} {dci : DwarfCieInfo} {usePrevInstr : Bool}
    {ip : UInt64} (h : RemoteTable pi) :
    Harmless (createStateRecordFor t rounds pi dci usePrevInstr ip) := by
  unfold createStateRecordFor
  rw [if_pos (Or.inr h.format)]
  have hsetup : Harmless (setupFde t rounds pi dci) :=
    (harmless_runCfiProgram h.flags).bind (fun _ => harmless_pure)
  exact hsetup.bind (fun _ => (harmless_runCfiProgram h.flags).bind (fun _ => harmless_pure))

/-- The same frame, whatever else of it has been looked up. -/
def SameFrame {n : Nat} (c c' : DwarfCursor n) : Prop := c'.ip = c.ip ∧ c'.cfa = c.cfa

theorem settled_fetchProcInfo {ip : UInt64} :
    Settled (fun r => SameFrame c r.2 ∧ (r.1 = -UNW_ENOINFO ∨
      (0 ≤ r.1 ∧ RemoteTable r.2.pi))) (fetchProcInfo t c ip) := by
  have hdynamic : Settled (fun _ => True) unwiFindDynamicProcInfo := by
    refine Keeps.bind (keeps_ask (show ReadsOnly (.getDynInfoListAddr 0) from trivial)) ?_
    intro ret (hret : ret < 0)
    rw [if_pos hret]
    exact keeps_pure trivial
  refine Keeps.bind hdynamic (fun _ _ => Keeps.bind (keeps_ask trivial) ?_)
  rintro ⟨ret, pi⟩ hanswer
  rcases hanswer with hret | ⟨hret, hpi⟩
  · subst hret
    exact keeps_pure ⟨⟨rfl, rfl⟩, Or.inl rfl⟩
  · dsimp only
    rw [if_neg (not_lt.mpr hret), if_neg (fun h => h.2.2 hpi.format)]
    exact keeps_pure ⟨⟨rfl, rfl⟩, Or.inr ⟨hret, hpi⟩⟩

theorem settled_findRegState :
    Settled (fun r => SameFrame c r.2 ∧ ∀ ret, r.1 = .error ret → ret = -UNW_ENOINFO ∨ IsFailure ret)
      (findRegState t rounds c) := by
  refine Keeps.bind settled_fetchProcInfo ?_
  rintro ⟨ret, c'⟩ ⟨hsame, hret⟩
  dsimp only at hsame hret ⊢
  split
  · next hneg =>
    refine keeps_pure ⟨hsame, ?_⟩
    intro r hr
    cases hr
    exact Or.inl (hret.resolve_right (fun h => absurd h.1 (not_le.mpr hneg)))
  · next hpos =>
    have hpi := (hret.resolve_left (fun h => hpos (by rw [h]; decide))).2
    split
    · next hnone => exact absurd hnone hpi.info
    · refine Keeps.bind (settled_attempt (harmless_createStateRecordFor hpi)) ?_
      intro rs hrs
      refine keeps_pure ⟨hsame, ?_⟩
      intro r hr
      dsimp only at hr
      subst hr
      exact Or.inr hrs

/-- A step says that there is no unwind info and stays, or it advances. -/
theorem settled_dwarfStep (hget : ∀ c reg, Harmless (getReg c reg)) :
    Settled (fun r => (r.1 = -UNW_ENOINFO ∧ SameFrame c r.2) ∨ Advances c r)
      (dwarfStep t getReg rounds c) := by
  refine Keeps.bind settled_findRegState ?_
  rintro ⟨rs, c'⟩ ⟨⟨hip, hcfa⟩, hrs⟩
  dsimp only at hip hcfa hrs ⊢
  cases rs with
  | error ret =>
    rcases hrs ret rfl with hno | hfail
    · exact keeps_pure (Or.inl ⟨hno, hip, hcfa⟩)
    · exact keeps_pure (Or.inr (Or.inl hfail))
  | ok rs =>
    refine (settled_applyRegState (hget c')).mono ?_
    intro r hr
    unfold Advances at hr ⊢
    rw [hip, hcfa] at hr
    exact Or.inr hr

end Step

section Callbacks

variable {Raw : Type} {access : RegAccess Raw}

/-- Registers are read without being changed, and only a missing one is refused. -/
structure PlainAccess (access : RegAccess Raw) : Prop where
  status : ∀ raw reg val write,
    0 ≤ (access raw reg val write).1.1 ∨ (access raw reg val write).1.1 = -UNW_EBADREG
  read : ∀ raw reg val, (access raw reg val false).2 = raw

variable {env : UnwindEnv} {o : Accessor} {ctx ctx' : UnwindCtx Raw} {a : o.Answer}

theorem accessors_crateAnswer (ha : PlainAccess access) (h : accessors access env o ctx = some (a, ctx')) :
    CrateAnswer o a := by
  cases o with
  | findProcInfo ip pi need =>
    simp only [accessors, findProcInfo] at h
    split at h
    · obtain ⟨rfl, -⟩ := Prod.mk.inj (Option.some.inj h)
      exact Or.inr ⟨le_refl _, rfl, rfl, by simp⟩
    · obtain ⟨rfl, -⟩ := Prod.mk.inj (Option.some.inj h)
      exact Or.inl rfl
    · cases h
  | getDynInfoListAddr val =>
    obtain ⟨rfl, -⟩ := Prod.mk.inj (Option.some.inj h)
    show -UNW_ENOINFO < 0
    decide
  | accessMem addr val write =>
    simp only [accessors, Unwinder.accessMem, Option.some.injEq] at h
    split at h
    · obtain ⟨rfl, -⟩ := Prod.mk.inj h
      exact Or.inr rfl
    · split at h
      · obtain ⟨rfl, -⟩ := Prod.mk.inj h
        exact Or.inl (le_refl _)
      · split at h
        · obtain ⟨rfl, -⟩ := Prod.mk.inj h
          exact Or.inl (le_refl _)
        · obtain ⟨rfl, -⟩ := Prod.mk.inj h
          exact Or.inr rfl
  | accessReg reg val write =>
    obtain ⟨rfl, -⟩ := Prod.mk.inj (Option.some.inj h)
    exact ha.status ctx.regs reg val write
  | putUnwindInfo | accessFpreg => trivial

theorem accessors_readsOnly (ha : PlainAccess access) (hp : ReadsOnly o)
    (h : accessors access env o ctx = some (a, ctx')) : ctx'.regs = ctx.regs := by
  cases o with
  | findProcInfo ip pi need =>
    simp only [accessors, findProcInfo] at h
    split at h
    · obtain ⟨-, rfl⟩ := Prod.mk.inj (Option.some.inj h)
      rfl
    · obtain ⟨-, rfl⟩ := Prod.mk.inj (Option.some.inj h)
      rfl
    · cases h
  | getDynInfoListAddr val =>
    obtain ⟨-, rfl⟩ := Prod.mk.inj (Option.some.inj h)
    rfl
  | accessMem addr val write =>
    simp only [accessors, Unwinder.accessMem, Option.some.injEq] at h
    split at h
    · obtain ⟨-, rfl⟩ := Prod.mk.inj h
      rfl
    · split at h
      · obtain ⟨-, rfl⟩ := Prod.mk.inj h
        rfl
      · split at h <;> obtain ⟨-, rfl⟩ := Prod.mk.inj h <;> rfl
  | accessReg reg val write =>
    obtain ⟨-, rfl⟩ := Prod.mk.inj (Option.some.inj h)
    obtain rfl : write = false := hp
    exact ha.read ctx.regs reg val
  | putUnwindInfo | accessFpreg => exact hp.elim

/-- How such code can end. -/
def EndsIn {α : Type} (q : α → Prop) : Except Stop α → Prop
  | .ok a => q a
  | .error stop => Diverges stop

/-- Run by the callbacks, such code leaves the registers alone. -/
theorem Settled.run {α : Type} {q : α → Prop} {x : Code α} (hx : Settled q x)
    (ha : PlainAccess access) {r : Except Stop α}
    (h : x.run.run (accessors access env) ctx = some (r, ctx')) :
    EndsIn q r ∧ ctx'.regs = ctx.regs := by
  have hends := Ensures.run hx (fun t => t.regs = ctx.regs)
    (fun o s a s' hs => accessors_crateAnswer ha hs)
    (fun o s a s' hp hs hstep => (accessors_readsOnly ha hp hstep).trans hs) rfl h
  cases r with
  | ok a => exact hends
  | error stop => exact hends

/-- It asks the callbacks for nothing but what it reads. -/
theorem Settled.asked {α : Type} {q : α → Prop} {x : Code α} (hx : Settled q x)
    (ha : PlainAccess access) (ho : o ∈ asked (accessors access env) x.run ctx) : ReadsOnly o :=
  Ensures.asked hx (fun _ _ _ _ hs => accessors_crateAnswer ha hs) ho

end Callbacks

end Unwinder.Native
