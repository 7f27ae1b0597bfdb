import Unwinder.Proofs.Backtrace

namespace Unwinder.Native
open Lib Interaction Ffi

section NoInfo

variable {t : Target} {getReg : DwarfCursor t.numPreservedRegs → UInt64 → Code UInt64} {rounds : Nat}
  {known : Oracle} {c : DwarfCursor t.numPreservedRegs}

theorem returns_attempt_status {α : Type} {x : Code α} {ret : Int}
    (h : Returns known x (.error (.status ret))) : Returns known (attempt x) (.ok (.error ret)) := by
  change consult known (x.run >>= _) = _
  rw [consult_bind, show consult known x.run = some (.error (.status ret)) from h]
  rfl

/-- The accessors have no unwind info. -/
structure KnowsNothing (known : Oracle) : Prop where
  dynamic : known (.getDynInfoListAddr 0) = some (-UNW_ENOINFO)
  info : ∀ ip pi, known (.findProcInfo ip pi true) = some (-UNW_ENOINFO, pi)

/-- Without unwind info the step leaves the cursor as it was. -/
theorem dwarfStep_noInfo (h : KnowsNothing known) :
    Returns known (dwarfStep t getReg rounds c)
      (.ok (-UNW_ENOINFO, { c with pi := clearedProcInfo })) := by
  have hdynamic : Returns known unwiFindDynamicProcInfo (.ok (-UNW_ENOINFO)) :=
    Returns.bind (returns_ask h.dynamic) returns_pure
  have hfetch : Returns known (fetchProcInfo t c c.ip)
      (.ok (-UNW_ENOINFO, { c with pi := clearedProcInfo })) :=
    Returns.bind hdynamic (Returns.bind (returns_ask (h.info _ _)) returns_pure)
  have hfind : Returns known (findRegState t rounds c)
      (.ok (.error (-UNW_ENOINFO), { c with pi := clearedProcInfo })) :=
    Returns.bind hfetch returns_pure
  exact Returns.bind hfind returns_pure

end NoInfo

namespace X8664
open Unwinder.X8664

variable {b : Build} {rounds : Nat} {raw : RawRegs} {modules : ModuleSet}
  {mem : UInt64 → Option UInt64} {sp bp : UInt64}

/-- How the reader's answer reaches libunwind. -/
def wordAnswer (val : UInt64) : Option UInt64 → Int × UInt64
  | some word => (UNW_ESUCCESS, word)
  | none => (-UNW_EINVAL, val)

/-- What the accessors answer where there is no unwind info, for words that no
mirrored section has. -/
def strayOracle (modules : ModuleSet) (mem : UInt64 → Option UInt64) (raw : RawRegs) : Oracle
  | .findProcInfo _ pi _ => some (-UNW_ENOINFO, pi)
  | .getDynInfoListAddr _ => some (-UNW_ENOINFO)
  | .accessMem addr val false =>
    if (modules.lookupLocal addr).isNone then some (wordAnswer val (mem addr)) else none
  | .accessReg reg val false => some (RawRegs.accessReg raw reg val false).1
  | _ => none

theorem strayOracle_knowsNothing : KnowsNothing (strayOracle modules mem raw) := ⟨rfl, fun _ _ => rfl⟩

theorem strayOracle_knowsRegs : KnowsRegs (strayOracle modules mem raw) raw := fun _ _ => rfl

section Words

variable {addr word : UInt64}

theorem accessMem_word (hd : modules.lookupLocal addr = none) (hm : mem addr = some word) :
    Returns (strayOracle modules mem raw) (accessMem addr) (.ok word) := by
  have hknown : strayOracle modules mem raw (.accessMem addr 0 false) = some (UNW_ESUCCESS, word) := by
    simp [strayOracle, hd, hm, wordAnswer]
  exact Returns.bind (returns_ask hknown) returns_pure

theorem accessMem_noWord (hd : modules.lookupLocal addr = none) (hm : mem addr = none) :
    Returns (strayOracle modules mem raw) (accessMem addr) (.error (.status (-UNW_EINVAL))) := by
  have hknown : strayOracle modules mem raw (.accessMem addr 0 false) = some (-UNW_EINVAL, 0) := by
    simp [strayOracle, hd, hm, wordAnswer]
  exact Returns.bind (returns_ask hknown) returns_throw

theorem mem_ne_null (hne : addr ≠ 0) : Loc.mem addr ≠ .null := fun he => hne (Loc.mem.inj he)

theorem dwarfGet_word (hne : addr ≠ 0) (hd : modules.lookupLocal addr = none)
    (hm : mem addr = some word) :
    Returns (strayOracle modules mem raw) (dwarfGet (.mem addr)) (.ok word) :=
  dwarfGet_mem hne (accessMem_word hd hm)

theorem dwarfGet_noWord (hne : addr ≠ 0) (hd : modules.lookupLocal addr = none)
    (hm : mem addr = none) :
    Returns (strayOracle modules mem raw) (dwarfGet (.mem addr)) (.error (.status (-UNW_EINVAL))) := by
  unfold dwarfGet
  rw [if_neg (mem_ne_null hne)]
  exact accessMem_noWord hd hm

end Words

/-- A frame at which unwinding by a table is not possible: its code can be read, is no
linkage-table entry and on no vsyscall page, and no mirrored section is in the way. -/
structure Stray (b : Build) (modules : ModuleSet) (mem : UInt64 → Option UInt64)
    (ip bp : UInt64) : Prop where
  vsyscall : b.isVsyscall ip = false
  nonZero : ip ≠ 0
  code : ∃ w0, mem ip = some w0 ∧ ∀ w1, mem (ip + 8) = some w1 →
    ¬ (w0 &&& 0xffff = 0x25ff ∧ (w0 >>> 48) &&& 0xff = 0x68 ∧ (w1 >>> 24) &&& 0xff = 0xe9)
  direct : ∀ addr ∈ [ip, ip + 8, bp, bp + 8], modules.lookupLocal addr = none

section Step

variable {ip : UInt64}

/-- The cursor on the innermost frame behind a lookup that found nothing. -/
def strayCursorAt (ip sp : UInt64) : Cursor := { initialCursor ip sp with pi := clearedProcInfo }

theorem isPltEntry_stray (h : Stray b modules mem ip bp) :
    Returns (strayOracle modules mem raw) (isPltEntry (strayCursorAt ip sp)) (.ok false) := by
  obtain ⟨w0, hw0, hplt⟩ := h.code
  have hd := h.direct
  refine Returns.bind (returns_attempt (accessMem_word (hd ip (by simp)) hw0)) ?_
  cases hw1 : mem (ip + 8) with
  | none =>
    exact Returns.bind (returns_attempt_status (accessMem_noWord (hd (ip + 8) (by simp)) hw1))
      returns_pure
  | some w1 =>
    refine Returns.bind (returns_attempt (accessMem_word (hd (ip + 8) (by simp)) hw1)) ?_
    dsimp only
    rw [decide_eq_false (hplt w1 hw1)]
    exact returns_pure

/-- Without unwind info, a step follows the frame pointer. -/
theorem unwStep_stray (h : Stray b modules mem ip bp) {r : Int × Cursor}
    (hchain : Returns (strayOracle modules mem raw) (followRbp (strayCursorAt ip sp)) (.ok r)) :
    Returns (strayOracle modules mem raw) (unwStep b rounds (initialCursor ip sp)) (.ok r) := by
  refine Returns.bind (dwarfStep_noInfo strayOracle_knowsNothing) ?_
  dsimp only
  rw [if_neg (fun h => h.2 rfl), if_neg (by decide)]
  change Returns _ (frameChain b (strayCursorAt ip sp)) _
  have hv : ¬ b.isVsyscall (strayCursorAt ip sp).ip = true := by
    change ¬ b.isVsyscall ip = true
    simp [h.vsyscall]
  have hsig : ¬ (strayCursorAt ip sp).sigcontext = true := Bool.false_ne_true
  have hloc : (strayCursorAt ip sp).loc RBP ≠ .null := by
    change Loc.reg _ ≠ Loc.mem 0
    simp
  unfold frameChain
  rw [if_neg hv, if_neg hsig]
  refine Returns.bind (isPltEntry_stray h) ?_
  rw [if_neg Bool.false_ne_true, if_neg hloc]
  exact hchain

/-- What is known of the frame pointer and of the code when the chain is followed. -/
theorem followRbp_stray (h : Stray b modules mem ip bp) (hbp : frameReg raw RBP = some bp)
    {r : Int × Cursor}
    (hzero : bp = 0 → Returns (strayOracle modules mem raw) (finishChain (strayCursorAt ip sp)
      (chained (strayCursorAt ip sp) .null .null .null) 0 0) (.ok r))
    (hguess : bp ≠ 0 → Returns (strayOracle modules mem raw)
      (guessFrame (strayCursorAt ip sp) (strayCursorAt ip sp) bp 0) (.ok r)) :
    Returns (strayOracle modules mem raw) (followRbp (strayCursorAt ip sp)) (.ok r) := by
  obtain ⟨w0, hw0, -⟩ := h.code
  have hcode := @dwarfGet_word raw modules mem ip w0 h.nonZero (h.direct ip (by simp)) hw0
  refine Returns.bind (returns_attempt (dwarfGet_column strayOracle_knowsRegs hbp)) ?_
  refine Returns.bind (returns_attempt hcode) ?_
  by_cases hb : bp = 0
  · rw [if_pos ⟨hb, rfl⟩]
    exact hzero hb
  · rw [if_neg (fun h => hb h.1), if_neg (fun hne : readStatus (.ok w0) ≠ 0 => hne rfl)]
    exact hguess hb

theorem finishChain_end {known : Oracle} {prev c : Cursor} {ret : Int} (h : c.loc RBP = .null) :
    Returns known (finishChain prev c 0 ret) (.ok (0, c)) := by
  unfold finishChain
  rw [if_pos ⟨h, rfl⟩]
  exact returns_pure

/-- The chain ends at a frame pointer that is zero, cannot be read, or is not just
above the stack pointer. -/
theorem unwStep_strayEnd (h : Stray b modules mem ip bp) (hbp : frameReg raw RBP = some bp)
    (hend : bp = 0 ∨ mem bp = none ∨ bp < sp ∨ 0x4000 < bp - sp) :
    ∃ c', Returns (strayOracle modules mem raw) (unwStep b rounds (initialCursor ip sp))
      (.ok (0, c')) := by
  by_cases hb : bp = 0
  · exact ⟨_, unwStep_stray h (followRbp_stray h hbp (fun _ => finishChain_end rfl)
      (fun hne => absurd hb hne))⟩
  · have hread : ∃ rbp1, Returns (strayOracle modules mem raw) (attempt (dwarfGet (.mem bp)))
        (.ok rbp1) ∧ (readStatus rbp1 < 0 ∨ bp < sp ∨ 0x4000 < bp - sp) := by
      have hd := h.direct bp (by simp)
      cases hm : mem bp with
      | none =>
        exact ⟨_, returns_attempt_status (dwarfGet_noWord hb hd hm), Or.inl (by decide)⟩
      | some word =>
        refine ⟨_, returns_attempt (dwarfGet_word hb hd hm), Or.inr ?_⟩
        rw [hm] at hend
        exact (hend.resolve_left hb).resolve_left (by simp)
    obtain ⟨rbp1, hread, hbad⟩ := hread
    refine ⟨chained { strayCursorAt ip sp with cfa := sp + 16 } .null (.val (bp + 16)) .null,
      unwStep_stray h (followRbp_stray h hbp (fun hz => absurd hz hb) (fun _ => Returns.bind hread ?_))⟩
    have hguess : readStatus rbp1 < 0 ∨ bp < (strayCursorAt ip sp).cfa ∨
      0x4000 < bp - (strayCursorAt ip sp).cfa := hbad
    dsimp only
    rw [if_pos hguess]
    exact finishChain_end rfl

/-- A frame record above the stack pointer: the caller's frame pointer, which is not
below it, and the return address. -/
structure FrameRecord (mem : UInt64 → Option UInt64) (sp bp newBp ra : UInt64) : Prop where
  nonZero : bp ≠ 0
  above : sp ≤ bp
  near : bp - sp ≤ 0x4000
  fits : bp.toNat + 16 < 2 ^ 64
  saved : mem bp = some newBp
  returns : mem (bp + 8) = some ra

theorem unwStep_strayNext (h : Stray b modules mem ip bp) (hbp : frameReg raw RBP = some bp)
    {newBp ra : UInt64} (hr : FrameRecord mem sp bp newBp ra) :
    ∃ c' : Cursor, Returns (strayOracle modules mem raw) (unwStep b rounds (initialCursor ip sp))
        (.ok (1, c')) ∧ c'.ip = ra ∧
      Returns (strayOracle modules mem raw) (dwarfGet (c'.loc RSP)) (.ok (bp + 16)) ∧
      Returns (strayOracle modules mem raw) (dwarfGet (c'.loc RBP)) (.ok newBp) := by
  have hne8 : bp + 8 ≠ 0 := by
    have hfits := hr.fits
    intro h0
    have hn := congrArg UInt64.toNat h0
    rw [UInt64.toNat_add, Nat.mod_eq_of_lt (by simp; omega)] at hn
    simp at hn
  have hsaved := @dwarfGet_word raw modules mem bp newBp hr.nonZero (h.direct bp (by simp)) hr.saved
  have hreturn := @dwarfGet_word raw modules mem (bp + 8) ra hne8 (h.direct (bp + 8) (by simp))
    hr.returns
  let c := chained { strayCursorAt ip sp with cfa := sp + 16 } (.mem bp) (.val (bp + 16)) (.mem (bp + 8))
  have hfinish : Returns (strayOracle modules mem raw) (finishChain (strayCursorAt ip sp) c 0 0)
      (.ok (1, { c with ip := ra })) := by
    have hrbp : c.loc RBP = .mem bp := rfl
    have hrip : c.loc RIP = .mem (bp + 8) := rfl
    have hcfa : c.cfa ≠ sp := by
      change sp + 16 ≠ sp
      simp
    unfold finishChain
    rw [hrbp, hrip, if_neg (fun hn => mem_ne_null hr.nonZero hn.1), if_pos (mem_ne_null hne8)]
    refine Returns.bind (returns_attempt hreturn) ?_
    dsimp only
    rw [if_neg (fun hn => hcfa hn.2)]
    exact returns_pure
  have hguess : Returns (strayOracle modules mem raw)
      (guessFrame (strayCursorAt ip sp) (strayCursorAt ip sp) bp 0) (.ok (1, { c with ip := ra })) := by
    have hgood : ¬ (readStatus (.ok newBp) < 0 ∨ bp < (strayCursorAt ip sp).cfa ∨
        0x4000 < bp - (strayCursorAt ip sp).cfa) := by
      rintro (hs | hlow | hfar)
      · exact absurd hs (lt_irrefl _)
      · exact absurd hlow (not_lt.mpr hr.above)
      · exact absurd hfar (not_lt.mpr hr.near)
    refine Returns.bind (returns_attempt hsaved) ?_
    dsimp only
    rw [if_neg hgood]
    exact hfinish
  exact ⟨{ c with ip := ra }, unwStep_stray h (followRbp_stray h hbp (fun hz => absurd hz hr.nonZero)
    (fun _ => hguess)), rfl, returns_pure, hsaved⟩

end Step

section Crate

variable {env : UnwindEnv} {memory : Nat → UInt8} {otherwise : Stop → Int × Cursor}
  {frame : FrameAddress} {regs : UnwindRegs} {w : World}

/-- The callbacks leave the registers alone and keep finding no description. -/
def Undescribed (modules : ModuleSet) (lookupIp : UInt64) (raw : RawRegs) (ctx : UnwindCtx RawRegs) :
    Prop :=
  ctx.regs = raw ∧ ∃ err, (procInfoAt modules lookupIp ctx.world.caches).1 = .err err

theorem accessors_stray (hfn : env.readFn = steady mem) :
    Answers (accessors RawRegs.accessReg env) (Undescribed env.modules env.lookupIp raw)
      (strayOracle env.modules mem raw) := by
  intro o a ctx ho h
  obtain ⟨hregs, err, herr⟩ := h
  cases o with
  | findProcInfo ip pi need =>
    obtain rfl := Option.some.inj ho
    refine ⟨{ ctx with
      unwindInfoError := some err
      world := { ctx.world with
        caches := (procInfoAt env.modules env.lookupIp ctx.world.caches).2
        asked := ctx.world.asked + 1 } }, ?_, hregs, err, ?_⟩
    · simp only [accessors, findProcInfo, herr]
    · dsimp only
      rw [procInfoAt_again]
      exact herr
  | getDynInfoListAddr val =>
    obtain rfl := Option.some.inj ho
    exact ⟨ctx, rfl, hregs, err, herr⟩
  | accessMem addr val write =>
    cases write with
    | true => cases ho
    | false =>
      simp only [strayOracle, Option.isNone_iff_eq_none] at ho
      split at ho
      · next hd =>
        obtain rfl := Option.some.inj ho
        have hread : ∀ reads, env.readFn reads addr = mem addr := fun _ => by rw [hfn]; rfl
        simp only [accessors, Unwinder.accessMem, Bool.false_eq_true, if_false, hd, Reader.read, hread]
        cases mem addr with
        | none => exact ⟨_, rfl, hregs, err, herr⟩
        | some word => exact ⟨_, rfl, hregs, err, herr⟩
      · cases ho
  | accessReg reg val write =>
    cases write with
    | true => cases ho
    | false =>
      obtain rfl := Option.some.inj ho
      refine ⟨{ ctx with regs := raw }, ?_, rfl, err, herr⟩
      change some (Unwinder.accessReg RawRegs.accessReg reg val false ctx) = _
      unfold Unwinder.accessReg
      rw [hregs]
      simp only [accessReg_plain.read]
  | putUnwindInfo | accessFpreg => cases ho

/-- A frame of a module with unwind info that has none for the frame, and the
registers that the chain of frame pointers needs. -/
structure StrayFrame (b : Build) (modules : ModuleSet) (mem : UInt64 → Option UInt64)
    (caches : Caches) (frame : FrameAddress) (regs : UnwindRegs) (sp bp : UInt64) : Prop where
  path : OnDwarfPath modules frame.addressForLookup
  missing : ∃ err, (procInfoAt modules frame.addressForLookup caches).1 = .err err
  stray : Stray b modules mem frame.addressForLookup bp
  stack : regs.getIfSet .RSP = some sp
  base : regs.getIfSet .RBP = some bp

theorem StrayFrame.unwindFrame (h : StrayFrame b modules mem w.caches frame regs sp bp)
    (memory : Nat → UInt8) {r : Except LibunwindError StepOutcome}
    (hx : consult (strayOracle modules mem (RawRegs.fromPublic frame.addressForLookup regs))
      (initAndStep (libunwind b rounds otherwise) UNW_REG_IP [UNW_REG_SP, UNW_X86_64_RBP]) = some r) :
    ∃ ctx, X8664.backend.unwindFrame (process b rounds otherwise memory) modules (steady mem) frame regs
      w = some (X8664.backend.finishStep modules frame regs r ctx) := by
  have hanswers := @accessors_stray (RawRegs.fromPublic frame.addressForLookup regs) mem
    (Backend.env (process b rounds otherwise memory) modules frame.addressForLookup (steady mem)) rfl
  obtain ⟨ctx, hrun, -⟩ := run_of_consult hanswers hx
    (s := X8664.backend.startCtx frame.addressForLookup regs w) ⟨rfl, h.missing⟩
  exact ⟨ctx, unwindFrame_native h.path hrun⟩

theorem StrayFrame.ends (h : StrayFrame b modules mem w.caches frame regs sp bp)
    (hend : bp = 0 ∨ mem bp = none ∨ bp < sp ∨ 0x4000 < bp - sp) :
    ∃ w', X8664.backend.unwindFrame (process b rounds otherwise memory) modules (steady mem) frame regs
      w = some (.ok none, regs, w') := by
  obtain ⟨c', hstep⟩ := @unwStep_strayEnd b rounds (RawRegs.fromPublic frame.addressForLookup regs)
    modules mem sp bp _ h.stray h.base hend
  obtain ⟨ctx, hu⟩ := h.unwindFrame memory
    (@initAndStep_ended (libunwind b rounds otherwise) _ (initialCursor frame.addressForLookup sp) c' _ _
      (consult_returning (commonInit_correct strayOracle_knowsRegs h.stack)) (consult_returning hstep))
  exact ⟨ctx.world, hu⟩

/-- What a step along a frame record comes to. -/
def recordOutcome (regs : UnwindRegs) (currentIp bp newBp ra : UInt64) (w : World) :
    Outcome UnwindRegs (Option UInt64) :=
  if ra = 0 then (.ok none, regs, w)
  else if ra = currentIp ∧ bp + 16 = regs.sp then (.error .didNotAdvance, regs, w)
  else (.ok (some ra), restored regs ra (bp + 16) newBp, w)

theorem StrayFrame.next (h : StrayFrame b modules mem w.caches frame regs sp bp) {newBp ra : UInt64}
    (hr : FrameRecord mem sp bp newBp ra)
    (hra : frame.isReturnAddress = false ∨ modules.containsAddress ra = false) :
    ∃ w', X8664.backend.unwindFrame (process b rounds otherwise memory) modules (steady mem) frame regs
      w = some (recordOutcome regs frame.address bp newBp ra w') := by
  obtain ⟨c', hstep, rfl, hsp, hbp⟩ := @unwStep_strayNext b rounds
    (RawRegs.fromPublic frame.addressForLookup regs) modules mem sp bp _ h.stray h.base newBp ra hr
  obtain ⟨ctx, hu⟩ := h.unwindFrame memory
    (@initAndStep_stepped (libunwind b rounds otherwise) _ (initialCursor frame.addressForLookup sp) c'
      _ _ _ (consult_returning (commonInit_correct strayOracle_knowsRegs h.stack))
      (consult_returning hstep) (consult_readStepped hsp hbp))
  refine ⟨ctx.world, hu.trans (congrArg some ?_)⟩
  have hplain : ∀ signal, Backend.compensated modules frame signal c'.ip = some c'.ip := by
    intro signal
    unfold Backend.compensated
    rcases hra with hfirst | houtside
    · rw [hfirst]
      rfl
    · rw [houtside, Bool.and_false]
      rfl
  rw [Backend.finishStep, Backend.steppedResult]
  have hstrip : X8664.backend.strip regs c'.ip = c'.ip := rfl
  dsimp only
  rw [hstrip, recordOutcome]
  split
  · rfl
  · rw [hplain]
    dsimp only
    split
    · next hstays => exact (if_pos hstays).symm
    · next hmoves => exact (if_neg hmoves).symm

theorem checkedAdd_fits (h : bp.toNat + 16 < 2 ^ 64) :
    checkedAdd64 bp 8 = some (bp + 8) ∧ checkedAdd64 bp 16 = some (bp + 16) := by
  simp only [checkedAdd64_eq_some, UInt64.toNat_add]
  constructor
  · exact Nat.mod_eq_of_lt (by simp; omega)
  · exact Nat.mod_eq_of_lt (by simp; omega)

/-- The crate's own step by frame pointer, on a frame record. -/
theorem fallback_record {newBp ra : UInt64} (hr : FrameRecord mem sp bp newBp ra)
    (hsp : regs.sp = sp) (hbp : regs.bp = bp) (hup : newBp = 0 ∨ bp < newBp) {currentIp : UInt64} :
    ∃ w', X8664.backend.fallbackUnwindFrame currentIp regs (steady mem) w =
      recordOutcome regs currentIp bp newBp ra w' := by
  obtain ⟨h8, h16⟩ := checkedAdd_fits hr.fits
  have hfp : X8664.backend.fp regs = bp := hbp
  have hsp' : X8664.backend.sp regs = sp := hsp
  have habove : ¬ bp + 16 ≤ sp := by
    have hlow := UInt64.le_iff_toNat_le.mp hr.above
    rw [UInt64.le_iff_toNat_le, checkedAdd64_eq_some.mp h16]
    change ¬ bp.toNat + 16 ≤ sp.toNat
    omega
  have hup' : ¬ (newBp ≠ 0 ∧ newBp ≤ bp) := by
    rintro ⟨hne, hle⟩
    rcases hup with rfl | hlt
    · exact hne rfl
    · exact absurd hlt (not_lt.mpr hle)
  refine ⟨⟨w.caches, (bp + 8, some ra) :: (bp, some newBp) :: w.reads, w.asked⟩, ?_⟩
  unfold Backend.fallbackUnwindFrame
  dsimp only
  rw [hfp, if_neg hr.nonZero, h8, h16]
  dsimp only
  rw [hsp', if_neg habove]
  simp only [Reader.read, steady, hr.saved]
  rw [if_neg hup']
  unfold Backend.fallbackReturn
  simp only [Reader.read, steady, hr.returns]
  rfl

theorem getIfSet_get {reg : Reg} {v : UInt64} (h : regs.getIfSet reg = some v) : regs.get reg = v := by
  unfold UnwindRegs.getIfSet at h
  split at h
  · exact Option.some.inj h
  · cases h

/-- Where a module has no unwind info for a frame, the vendored libunwind follows frame
records as the crate's own frame-pointer step does for code without a module. -/
theorem strayFrame_fallback (h : StrayFrame b modules mem w.caches frame regs sp bp) {newBp ra : UInt64}
    (hr : bp = 0 ∨ (FrameRecord mem sp bp newBp ra ∧ (newBp = 0 ∨ bp < newBp) ∧
      (frame.isReturnAddress = false ∨ modules.containsAddress ra = false))) :
    ∃ out regs' w' w'',
      X8664.backend.unwindFrame (process b rounds otherwise memory) modules (steady mem) frame regs w =
        some (out, regs', w') ∧
      X8664.backend.fallbackUnwindFrame frame.address regs (steady mem) w = (out, regs', w'') := by
  have hbp : regs.bp = bp := getIfSet_get h.base
  have hsp : regs.sp = sp := getIfSet_get h.stack
  rcases hr with hzero | ⟨hr, hup, hra⟩
  · obtain ⟨w', hu⟩ := h.ends (Or.inl hzero)
    refine ⟨_, _, w', w, hu, ?_⟩
    have hfp : X8664.backend.fp regs = 0 := hbp.trans hzero
    unfold Backend.fallbackUnwindFrame
    dsimp only
    rw [if_pos hfp]
  · obtain ⟨w', hu⟩ := h.next hr hra
    obtain ⟨w'', hf⟩ := @fallback_record mem sp bp regs w newBp ra hr hsp hbp hup frame.address
    refine ⟨(recordOutcome regs frame.address bp newBp ra w').1,
      (recordOutcome regs frame.address bp newBp ra w').2.1, w', w'', hu.trans ?_, hf.trans ?_⟩
    · unfold recordOutcome
      split
      · rfl
      · split <;> rfl
    · unfold recordOutcome
      split
      · rfl
      · split <;> rfl

/-- A stack with one frame record. -/
def recordStack (addr : UInt64) : Option UInt64 :=
  if addr = 0x1800 then some 0
  else if addr = 0x9000 then some 0x9100
  else if addr = 0x9008 then some 0x5000
  else none

/-- An address of the module that no entry covers. -/
theorem uncovered_stray (b : Build) (hv : b.isVsyscall 0x1800 = false) {bp : UInt64}
    (hsaved : (ModuleSet.after recursiveSet).lookupLocal bp = none)
    (hreturn : (ModuleSet.after recursiveSet).lookupLocal (bp + 8) = none)
    {regs : UnwindRegs} (hsp : regs.getIfSet .RSP = some 0x8ff0) (hbp : regs.getIfSet .RBP = some bp) :
    StrayFrame b (ModuleSet.after recursiveSet) recordStack freshWorld.caches
      (.instructionPointer 0x1800) regs 0x8ff0 bp where
  path := ⟨by decide +kernel, by decide +kernel⟩
  missing := ⟨.ehFrameHeaderLookupMiss "recursive" 0x1800, by decide +kernel⟩
  stray := by
    refine ⟨hv, by decide, ⟨0, rfl, fun w1 _ => by simp⟩, ?_⟩
    simp only [List.mem_cons, List.not_mem_nil, or_false]
    rintro addr (rfl | rfl | rfl | rfl)
    · decide +kernel
    · decide +kernel
    · exact hsaved
    · exact hreturn
  stack := hsp
  base := hbp

theorem uncovered_fallback : ∃ out regs' w' w'',
    X8664.backend.unwindFrame (process ⟨fun _ => false, fun _ => false⟩ 8 (fun _ => (-1, blankCursor))
      (fun _ => 0)) (ModuleSet.after recursiveSet) (steady recordStack) (.instructionPointer 0x1800)
      (.new 0x1800 0x8ff0 0x9000) freshWorld = some (out, regs', w') ∧
    X8664.backend.fallbackUnwindFrame 0x1800 (.new 0x1800 0x8ff0 0x9000) (steady recordStack) freshWorld =
      (out, regs', w'') := by
  have hr : FrameRecord recordStack 0x8ff0 0x9000 0x9100 0x5000 :=
    ⟨by decide, by decide, by decide, by decide, by decide +kernel, by decide +kernel⟩
  exact strayFrame_fallback (uncovered_stray _ rfl (by decide +kernel) (by decide +kernel)
    (by decide +kernel) (by decide +kernel)) (Or.inr ⟨hr, Or.inr (by decide), Or.inl rfl⟩)

/-- Where the frame pointer leads down the stack or to memory that cannot be read, the
crate's own step fails, and libunwind silently reports the end of the stack. -/
theorem strayFrame_truncated (h : StrayFrame b modules mem w.caches frame regs sp bp) (hne : bp ≠ 0)
    (hfits : bp.toNat + 16 < 2 ^ 64) (hlost : mem bp = none ∨ bp + 16 ≤ sp) :
    (∃ w', X8664.backend.unwindFrame (process b rounds otherwise memory) modules (steady mem) frame regs
      w = some (.ok none, regs, w')) ∧
    ∃ err w', X8664.backend.fallbackUnwindFrame frame.address regs (steady mem) w =
      (.error err, regs, w') := by
  obtain ⟨h8, h16⟩ := checkedAdd_fits hfits
  have hfp : X8664.backend.fp regs = bp := getIfSet_get h.base
  have hsp : X8664.backend.sp regs = sp := getIfSet_get h.stack
  have hend : mem bp = none ∨ bp < sp := by
    refine hlost.imp id (fun hle => ?_)
    have hn := UInt64.le_iff_toNat_le.mp hle
    rw [checkedAdd64_eq_some.mp h16, show (16 : UInt64).toNat = 16 from rfl] at hn
    exact UInt64.lt_iff_toNat_lt.mpr (by omega)
  refine ⟨h.ends (Or.inr (hend.imp id Or.inl)), ?_⟩
  unfold Backend.fallbackUnwindFrame
  dsimp only
  rw [hfp, if_neg hne, h8, h16]
  dsimp only
  rw [hsp]
  split
  · exact ⟨_, _, rfl⟩
  · next habove =>
    have hnone := hlost.resolve_right habove
    simp only [Reader.read, steady, hnone]
    exact ⟨_, _, rfl⟩

theorem uncovered_truncated :
    (∃ w', X8664.backend.unwindFrame (process ⟨fun _ => false, fun _ => false⟩ 8
      (fun _ => (-1, blankCursor)) (fun _ => 0)) (ModuleSet.after recursiveSet) (steady recordStack)
      (.instructionPointer 0x1800) (.new 0x1800 0x8ff0 0x9200) freshWorld =
      some (.ok none, .new 0x1800 0x8ff0 0x9200, w')) ∧
    ∃ err w', X8664.backend.fallbackUnwindFrame 0x1800 (.new 0x1800 0x8ff0 0x9200) (steady recordStack)
      freshWorld = (.error err, .new 0x1800 0x8ff0 0x9200, w') :=
  @strayFrame_truncated _ _ _ _ 0x8ff0 0x9200 _ _ _ _ _ (uncovered_stray _ rfl (by decide +kernel)
    (by decide +kernel) (by decide +kernel) (by decide +kernel)) (by decide) (by decide) (Or.inl (by decide +kernel))

end Crate

end X8664

end Unwinder.Native
