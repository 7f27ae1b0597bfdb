import Unwinder.Proofs.InnermostFrame
import Unwinder.Proofs.SignalFrames
import Unwinder.Proofs.StepOutcomes

namespace Unwinder.Native.X8664
open Lib Interaction CallFrame Ffi Unwinder.X8664

section Crate

variable {L : Libunwind} {known : Oracle} {c c' : L.Cursor} {regIp regSp regFp : Int}
  {ip sp fp : UInt64}

/-- What the crate makes of a step that reaches a frame with three registers. -/
theorem readStepped_two (hip : consult known (L.getReg c regIp 0) = some (0, ip, c))
    (hsp : consult known (L.getReg c regSp 0) = some (0, sp, c))
    (hfp : consult known (L.getReg c regFp 0) = some (0, fp, c)) :
    consult known (readStepped L regIp [regSp, regFp] c) =
      some (.ok (.stepped ip #v[sp, fp, 0, 0])) := by
  have hextras : consult known (readExtras L [regSp, regFp] 0 c (Vector.replicate 4 0)) =
      some (.ok #v[sp, fp, 0, 0]) := by
    simp only [readExtras, consult_bind, hsp, Option.bind_some, Int.lt_irrefl, if_false, hfp]
    rfl
  simp only [readStepped, consult_bind, hip, Option.bind_some, Int.lt_irrefl, if_false, List.take,
    hextras]
  rfl

theorem initAndStep_stepped {extras : List Int} {r : Except LibunwindError StepOutcome}
    (hinit : consult known L.initRemote = some (0, c)) (hstep : consult known (L.step c) = some (1, c'))
    (hread : consult known (readStepped L regIp extras c') = some r) :
    consult known (initAndStep L regIp extras) = some r := by
  simp only [initAndStep, stepCursor, consult_bind, hinit, Option.bind_some, Int.lt_irrefl, if_false,
    hstep]
  exact hread

theorem initAndStep_ended {extras : List Int} (hinit : consult known L.initRemote = some (0, c))
    (hstep : consult known (L.step c) = some (0, c')) :
    consult known (initAndStep L regIp extras) = some (.ok .endOfStack) := by
  simp only [initAndStep, stepCursor, consult_bind, hinit, Option.bind_some, Int.lt_irrefl, if_false,
    hstep]
  rfl

end Crate

section Calls

variable {b : Build} {rounds : Nat} {otherwise : Stop → Int × Cursor} {known : Oracle} {c : Cursor}
  {v val : UInt64}

theorem consult_returning {x : Code (Int × Cursor)} {r : Int × Cursor}
    (h : Returns known x (.ok r)) : consult known (returning otherwise x) = some r := by
  unfold returning
  rw [consult_bind, show consult known x.run = some (.ok r) from h]
  rfl

theorem consult_getIp : consult known ((libunwind b rounds otherwise).getReg c UNW_REG_IP val) =
    some (0, c.ip, c) := rfl

theorem consult_getReg {reg : Int} (hreg : reg ≠ UNW_REG_IP)
    (h : Returns known (tdepAccessReg c reg) (.ok v)) :
    consult known ((libunwind b rounds otherwise).getReg c reg val) = some (0, v, c) := by
  have hrun : consult known (tdepAccessReg c reg).run = some (.ok v) := h
  simp only [libunwind, unwGetReg, returningReg, if_neg hreg, consult_bind, hrun]
  rfl

theorem tdepAccessReg_loc {r : Fin 17} (h : Returns known (dwarfGet (c.loc r)) (.ok v)) :
    Returns known (tdepAccessReg c r.val) (.ok v) := by
  have hlt := r.isLt
  have hcfa : ¬ (r.val : Int) = UNW_X86_64_CFA := by
    unfold UNW_X86_64_CFA
    omega
  have hrange : 0 ≤ (r.val : Int) ∧ (r.val : Int) < 17 := by omega
  unfold tdepAccessReg
  rw [if_neg hcfa, dif_pos hrange]
  exact h

/-- The registers that the crate asks for behind a step. -/
theorem consult_readStepped {sp bp : UInt64} (hsp : Returns known (dwarfGet (c.loc RSP)) (.ok sp))
    (hbp : Returns known (dwarfGet (c.loc RBP)) (.ok bp)) :
    consult known (readStepped (libunwind b rounds otherwise) UNW_REG_IP
      [UNW_REG_SP, UNW_X86_64_RBP] c) = some (.ok (.stepped c.ip #v[sp, bp, 0, 0])) :=
  readStepped_two consult_getIp (consult_getReg (by decide) (tdepAccessReg_loc hsp))
    (consult_getReg (by decide) (tdepAccessReg_loc hbp))

end Calls

section Innermost

variable {b : Build} {rounds : Nat} {raw : RawRegs} {tracee : UInt64 → UInt8}
  {available : UInt64 → Bool} {info : UnwProcInfo} {dci : DwarfCieInfo} {sp : UInt64}
  {cie fde : List (Insn 17 (Exp rounds))} {row : Row (Fin 17) UInt64 (Exp rounds)}
  {cfa ip : UInt64}

/-- The cursor on the innermost frame. -/
def initialCursor (ip sp : UInt64) : Cursor := { blankCursor with ip := ip, cfa := sp }

theorem commonInit_correct {known : Oracle} (hk : KnowsRegs known raw)
    (hsp : frameReg raw RSP = some sp) :
    Returns known commonInit (.ok (0, initialCursor raw.ip sp)) := by
  have hip := @dwarfGet_column raw RIP raw.ip known hk rfl
  have hcfa := @dwarfGet_column raw RSP sp known hk hsp
  exact Returns.bind (returns_attempt hip) (Returns.bind (returns_attempt hcfa) returns_pure)

/-- The crate's description of a function. -/
structure IsInfo (info : UnwProcInfo) (dci : DwarfCieInfo) : Prop where
  format : info.format = UNW_INFO_FORMAT_REMOTE_TABLE
  unwindInfo : info.unwindInfo = some dci

theorem answered (h : IsInfo info dci) (ip : UInt64) :
    Answered (frameOracle raw tracee available info) ip info dci where
  dynamic := ⟨-UNW_ENOINFO, rfl, by decide⟩
  found := ⟨UNW_ESUCCESS, rfl, by decide⟩
  format := h.format
  info := h.unwindInfo

/-- The function of the innermost frame is described, and its row leads to a caller. -/
structure Leaves (b : Build) (raw : RawRegs) (tracee : UInt64 → UInt8) (available : UInt64 → Bool)
    (info : UnwProcInfo) (dci : DwarfCieInfo) (cie fde : List (Insn 17 (Exp rounds)))
    (row : Row (Fin 17) UInt64 (Exp rounds)) (sp cfa ip : UInt64) : Prop where
  description : IsInfo info dci
  stackPointer : frameReg raw RSP = some sp
  givesRow : HasRow (target b) (frameOracle raw tracee available info) Exp.code rounds info dci cie fde
    raw.ip row
  leads : ∃ col : Fin 17, dci.retAddrColumn = UInt64.ofNat col ∧
    LeadsTo (frameView raw tracee available rounds) row col cfa ip
  moves : ¬ (ip = raw.ip ∧ cfa = sp)

/-- The step by the row, from the innermost frame. -/
theorem Leaves.dwarfStep (h : Leaves b raw tracee available info dci cie fde row sp cfa ip) :
    ∃ locs, Returns (frameOracle raw tracee available info)
        (dwarfStep (target b) getReg rounds (initialCursor raw.ip sp))
        (.ok (if ip ≠ 0 then 1 else 0, { described (target b) (initialCursor raw.ip sp) info dci with
          loc := locs, cfa := cfa, ip := ip })) ∧
      ∀ r, LocShows (t := target b) (frameOracle raw tracee available info)
        (frameView raw tracee available rounds) cfa r (row.rule r) (locs r) := by
  have hzero : raw.ip - 0 = raw.ip := UInt64.sub_zero raw.ip
  have hshows : Shows (target b) getReg rounds (frameOracle raw tracee available info) Exp.code
      (described (target b) (initialCursor raw.ip sp) info dci)
      (frameView raw tracee available rounds) := innermost_shows (fun _ => rfl) rfl
  obtain ⟨col, hcol, hl⟩ := h.leads
  exact @dwarfStep_recovers (target b) getReg rounds (Exp rounds)
    (frameOracle raw tracee available info) Exp.code (initialCursor raw.ip sp) info dci cie fde row
    (frameView raw tracee available rounds) col cfa ip rfl (answered h.description _)
    (hzero.symm ▸ h.givesRow) hcol hshows hl h.moves

/-- A step from the innermost frame reaches the caller's frame. -/
theorem unwStep_recovers (h : Leaves b raw tracee available info dci cie fde row sp cfa ip)
    (hne : ip ≠ 0) {bp : UInt64}
    (hbp : (row.rule RBP).caller (frameView raw tracee available rounds) cfa RBP = some bp) :
    ∃ c' : Cursor, Returns (frameOracle raw tracee available info)
        (unwStep b rounds (initialCursor raw.ip sp)) (.ok (1, c')) ∧ c'.ip = ip ∧
      ∀ r v, (row.rule r).caller (frameView raw tracee available rounds) cfa r = some v →
        Returns (frameOracle raw tracee available info) (dwarfGet (c'.loc r)) (.ok v) := by
  obtain ⟨locs, hstep, hall⟩ := h.dwarfStep
  rw [if_pos hne] at hstep
  have hread : Returns (frameOracle raw tracee available info) (dwarfGet (locs RBP)) (.ok bp) :=
    (hall RBP).value bp hbp
  have hnull : locs RBP ≠ .null := by
    intro he
    rw [he] at hread
    cases hread
  refine ⟨{ described (target b) (initialCursor raw.ip sp) info dci with
    loc := locs, cfa := cfa, ip := ip }, Returns.bind hstep ?_, rfl, fun r v hv => (hall r).value v hv⟩
  dsimp only
  rw [if_neg (by decide), if_pos (by decide), if_neg hnull]
  exact returns_pure

/-- The outermost frame has no return address, or its caller's frame pointer is lost. -/
def Outermost (row : Row (Fin 17) UInt64 (Exp rounds)) (ip : UInt64) : Prop :=
  ip = 0 ∨ row.rule RBP = .undefined

variable (otherwise : Stop → Int × Cursor)

theorem initAndStep_recovers (h : Leaves b raw tracee available info dci cie fde row sp cfa ip)
    (hne : ip ≠ 0) {sp' bp' : UInt64}
    (hsp' : (row.rule RSP).caller (frameView raw tracee available rounds) cfa RSP = some sp')
    (hbp' : (row.rule RBP).caller (frameView raw tracee available rounds) cfa RBP = some bp') :
    consult (frameOracle raw tracee available info) (initAndStep (libunwind b rounds otherwise)
      UNW_REG_IP [UNW_REG_SP, UNW_X86_64_RBP]) = some (.ok (.stepped ip #v[sp', bp', 0, 0])) := by
  obtain ⟨c', hstep, rfl, hall⟩ := unwStep_recovers h hne hbp'
  exact @initAndStep_stepped (libunwind b rounds otherwise) _ (initialCursor raw.ip sp) c' _ _ _
    (consult_returning (commonInit_correct frameOracle_knowsRegs h.stackPointer)) (consult_returning hstep)
    (consult_readStepped (hall RSP sp' hsp') (hall RBP bp' hbp'))

end Innermost

section Accessors

variable {ops : List SetOp} {readStack : Reader} {tracee : UInt64 → UInt8}
  {available : UInt64 → Bool} {raw : RawRegs} {d : FunctionDetails}

/-- What `find_proc_info` makes of the details of a function. -/
def procInfoOf (d : FunctionDetails) : UnwProcInfo where
  startIp := d.startIp
  endIp := d.endIp
  lsda := d.lsda
  handler := d.handler
  gp := 0
  flags := 0
  format := UNW_INFO_FORMAT_REMOTE_TABLE
  unwindInfoSize := DwarfCieInfo.size
  unwindInfo := some d.cieInfo

/-- The words at these addresses can be read: a mirrored section has them, or the
reader answers with what the tracee has there. -/
structure Readable (ops : List SetOp) (readStack : Reader) (tracee : UInt64 → UInt8)
    (available : UInt64 → Bool) : Prop where
  mirrors : (ModuleSet.after ops).MirrorsTracee tracee
  word : ∀ a, available a = true → (ModuleSet.after ops).Serves a ∨
    ∀ reads, readStack reads a = some (traceeWord tracee a)

/-- The callbacks leave the registers alone and keep describing the function. -/
def Describing (modules : ModuleSet) (lookupIp : UInt64) (raw : RawRegs) (d : FunctionDetails)
    (ctx : UnwindCtx RawRegs) : Prop :=
  ctx.regs = raw ∧ (procInfoAt modules lookupIp ctx.world.caches).1 = .ok d

theorem findProcInfo_answers {env : UnwindEnv} {pi : UnwProcInfo} {ctx : UnwindCtx RawRegs}
    (h : Describing env.modules env.lookupIp raw d ctx) :
    ∃ ctx', findProcInfo env pi ctx = some ((UNW_ESUCCESS, procInfoOf d), ctx') ∧
      Describing env.modules env.lookupIp raw d ctx' := by
  refine ⟨{ ctx with world := { ctx.world with
    caches := (procInfoAt env.modules env.lookupIp ctx.world.caches).2,
    asked := ctx.world.asked + 1 } }, ?_, h.1, ?_⟩
  · unfold findProcInfo
    simp only [h.2]
    rfl
  · dsimp only
    rw [procInfoAt_again]
    exact h.2

theorem accessMem_answers {env : UnwindEnv} (henv : env.modules = ModuleSet.after ops)
    (hfn : env.readFn = readStack) (hr : Readable ops readStack tracee available) {addr val : UInt64}
    (ha : available addr = true) {ctx : UnwindCtx RawRegs}
    (h : Describing env.modules env.lookupIp raw d ctx) :
    ∃ ctx', Unwinder.accessMem env addr val false ctx =
        ((UNW_ESUCCESS, traceeWord tracee addr), ctx') ∧
      Describing env.modules env.lookupIp raw d ctx' := by
  by_cases hs : env.modules.Serves addr
  · exact ⟨ctx, accessMem_served henv hr.mirrors hs, h⟩
  · rcases hr.word addr ha with hserves | hread
    · exact absurd (henv ▸ hserves) hs
    · rw [accessMem_unserved henv hr.mirrors hs, hfn, hread]
      exact ⟨_, rfl, h⟩

/-- The callbacks of the crate answer as the oracle of the frame does. -/
theorem accessors_answer {env : UnwindEnv} (henv : env.modules = ModuleSet.after ops)
    (hfn : env.readFn = readStack) (hr : Readable ops readStack tracee available) :
    Answers (accessors RawRegs.accessReg env) (Describing env.modules env.lookupIp raw d)
      (frameOracle raw tracee available (procInfoOf d)) := by
  intro o a ctx ho h
  cases o with
  | findProcInfo ip pi need =>
    obtain rfl := Option.some.inj ho
    exact findProcInfo_answers h
  | putUnwindInfo pi => cases ho
  | getDynInfoListAddr val =>
    obtain rfl := Option.some.inj ho
    exact ⟨ctx, rfl, h⟩
  | accessMem addr val write =>
    cases write with
    | true => cases ho
    | false =>
      simp only [frameOracle] at ho
      split at ho
      · next ha =>
        obtain rfl := Option.some.inj ho
        obtain ⟨ctx', hans, h'⟩ := @accessMem_answers ops readStack tracee available raw d env henv
          hfn hr addr val ha ctx h
        exact ⟨ctx', congrArg some hans, h'⟩
      · cases ho
  | accessReg reg val write =>
    cases write with
    | true => cases ho
    | false =>
      obtain rfl := Option.some.inj ho
      refine ⟨{ ctx with regs := raw }, ?_, rfl, h.2⟩
      change some (Unwinder.accessReg RawRegs.accessReg reg val false ctx) = _
      unfold Unwinder.accessReg
      rw [h.1]
      simp only [accessReg_plain.read]
  | accessFpreg reg val write => cases ho

end Accessors

end Unwinder.Native.X8664
