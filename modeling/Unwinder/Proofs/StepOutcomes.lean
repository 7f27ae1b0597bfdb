import Unwinder.Native.X8664
import Unwinder.Proofs.ReadOnly
import Unwinder.Proofs.Resume

namespace Unwinder.Native.X8664
open Lib Interaction Ffi Unwinder.X8664

section Chain

variable {b : Build} {rounds : Nat} {prev c : Cursor} {invalidPrevRip ret : Int}

theorem harmless_tdepAccessReg (c : Cursor) (reg : Int) : Harmless (tdepAccessReg c reg) := by
  unfold tdepAccessReg
  split
  · exact harmless_pure
  · split
    · exact harmless_dwarfGet
    · exact harmless_badreg

theorem harmless_getReg (c : Cursor) (reg : UInt64) : Harmless (getReg c reg) :=
  harmless_ite harmless_pure (harmless_tdepAccessReg c _)

/-- A status that the chain of frame pointers can be left with. -/
def ChainStatus (ret : Int) : Prop := IsFailure ret ∨ ret = 0 ∨ ret = 1

/-- The end of the stack can be reported from anywhere. -/
theorem advances_end : Advances prev (0, c) := Or.inr ⟨Or.inl rfl, fun h => absurd h (lt_irrefl _)⟩

theorem settled_finishChain (h : ChainStatus ret) :
    Settled (Advances prev) (finishChain prev c invalidPrevRip ret) := by
  unfold finishChain
  split
  · exact keeps_pure advances_end
  · split
    · refine Keeps.bind (settled_attempt harmless_dwarfGet) ?_
      intro r hr
      cases r with
      | error ret => exact keeps_pure (Or.inl hr)
      | ok ip =>
        dsimp only
        split
        · exact keeps_pure (Or.inl (Or.inr (Or.inl rfl)))
        · next hmoves => exact keeps_pure (Or.inr ⟨Or.inr rfl, fun _ => hmoves⟩)
    · split
      · exact keeps_pure (Or.inl (Or.inr (Or.inl rfl)))
      · next hmoves => exact keeps_pure (h.imp id (fun hret => ⟨hret, fun _ => hmoves⟩))

theorem settled_status {loc : Loc} :
    Settled (fun r => ChainStatus (readStatus r)) (attempt (dwarfGet loc)) := by
  refine (settled_attempt harmless_dwarfGet).mono ?_
  intro r hr
  cases r with
  | error ret => exact Or.inl hr
  | ok word => exact Or.inr (Or.inl rfl)

theorem settled_guessFrame {rbp : UInt64} :
    Settled (Advances prev) (guessFrame prev c rbp invalidPrevRip) :=
  Keeps.bind settled_status (fun _ hr => settled_finishChain hr)

theorem settled_fixupRip {rbp : UInt64} :
    Settled (Advances prev) (fixupRip prev c rbp invalidPrevRip) := by
  refine Keeps.bind (settled_attempt harmless_dwarfGet) ?_
  intro rsp _
  cases rsp with
  | error ret => exact keeps_throw trivial
  | ok rsp =>
    refine Keeps.bind (settled_attempt harmless_dwarfGet) ?_
    intro newIp _
    cases newIp with
    | error ret => exact settled_guessFrame
    | ok newIp =>
      refine Keeps.bind (settled_attempt harmless_dwarfGet) ?_
      intro code _
      cases code with
      | error ret => exact settled_guessFrame
      | ok code => exact settled_finishChain (Or.inr (Or.inl rfl))

theorem settled_followRbp : Settled (Advances c) (followRbp c) := by
  refine Keeps.bind (settled_attempt harmless_dwarfGet) ?_
  intro rbp hrbp
  cases rbp with
  | error ret => exact keeps_pure (Or.inl hrbp)
  | ok rbp =>
    refine Keeps.bind settled_status ?_
    intro code _
    dsimp only
    split
    · exact settled_finishChain (Or.inr (Or.inl rfl))
    · split
      · exact settled_fixupRip
      · exact settled_guessFrame

theorem settled_isPltEntry : Settled (fun _ => True) (isPltEntry c) := by
  refine Keeps.bind (settled_attempt harmless_accessMem) ?_
  intro w0 _
  cases w0 with
  | error ret => exact keeps_pure trivial
  | ok w0 =>
    refine Keeps.bind (settled_attempt harmless_accessMem) ?_
    intro w1 _
    cases w1 with
    | error ret => exact keeps_pure trivial
    | ok w1 => exact keeps_pure trivial

theorem settled_frameChain : Settled (Advances c) (frameChain b c) := by
  unfold frameChain
  split
  · exact settled_finishChain (Or.inr (Or.inr rfl))
  · split
    · exact keeps_pure advances_end
    · refine Keeps.bind settled_isPltEntry ?_
      intro plt _
      split
      · exact settled_finishChain (Or.inr (Or.inl rfl))
      · split
        · exact settled_finishChain (Or.inr (Or.inl rfl))
        · exact settled_followRbp

/-- A step of the cursor only reads, fails with one of three statuses, and reports a
frame only where it has moved. -/
theorem settled_unwStep : Settled (Advances c) (unwStep b rounds c) := by
  refine Keeps.bind (settled_dwarfStep harmless_getReg) ?_
  rintro ⟨ret, c'⟩ hr
  dsimp only at hr ⊢
  split
  · next hfail =>
    exact keeps_pure (hr.resolve_left (fun h => hfail.2 h.1))
  · split
    · next hnot hpos =>
      have hadv := hr.resolve_left (fun h => by rw [h.1] at hpos; exact absurd hpos (by decide))
      split
      · exact keeps_pure advances_end
      · exact keeps_pure hadv
    · next hfail hneg =>
      have hno : ret = -UNW_ENOINFO := by
        by_contra hne
        exact hfail ⟨not_le.mp hneg, hne⟩
      have hsame : SameFrame c c' := by
        rcases hr with ⟨-, hsame⟩ | hbad | ⟨hend | hframe, -⟩
        · exact hsame
        · exact absurd hno hbad.neg.2
        · exact absurd (le_of_eq hend.symm) hneg
        · have hone : ret = 1 := hframe
          omega
      refine settled_frameChain.mono ?_
      intro r hr
      unfold Advances at hr ⊢
      rwa [hsame.1, hsame.2] at hr

theorem settled_commonInit : Settled (fun r => IsFailure r.1 ∨ r.1 = 0) commonInit := by
  refine Keeps.bind (settled_attempt harmless_dwarfGet) ?_
  intro ip hip
  cases ip with
  | error ret => exact keeps_pure (Or.inl hip)
  | ok ip =>
    refine Keeps.bind (settled_attempt harmless_dwarfGet) ?_
    intro cfa hcfa
    cases cfa with
    | error ret => exact keeps_pure (Or.inl hcfa)
    | ok cfa => exact keeps_pure (Or.inr rfl)

end Chain

section Crate

variable {b : Build} {rounds : Nat} {otherwise : Stop → Int × Cursor} {env : UnwindEnv} {c : Cursor}

/-- The process that libunwind is linked into. -/
def process (b : Build) (rounds : Nat) (otherwise : Stop → Int × Cursor) (memory : Nat → UInt8) :
    Process :=
  ⟨libunwind b rounds otherwise, memory⟩

theorem accessReg_plain : PlainAccess RawRegs.accessReg := by
  constructor
  · intro raw reg val write
    unfold RawRegs.accessReg
    split
    · split <;> exact Or.inl (le_refl _)
    · split
      · dsimp only
        split
        · exact Or.inl (le_refl _)
        · split
          · exact Or.inl (le_refl _)
          · exact Or.inr rfl
      · exact Or.inr rfl
  · intro raw reg val
    unfold RawRegs.accessReg
    split
    · rfl
    · split
      · dsimp only
        split
        · contradiction
        · split <;> rfl
      · rfl

/-- Run by the callbacks of this crate, a step from any cursor only reads, and leaves
the registers alone; unless it diverges, its status is one of five, never that of
missing unwind info, and it is positive only behind another frame. -/
theorem unwStep_outcome {ctx ctx' : UnwindCtx RawRegs} {r : Except Stop (Int × Cursor)}
    (h : (unwStep b rounds c).run.run (accessors RawRegs.accessReg env) ctx = some (r, ctx')) :
    EndsIn (Advances c) r ∧ ctx'.regs = ctx.regs ∧
      ∀ o ∈ asked (accessors RawRegs.accessReg env) (unwStep b rounds c).run ctx, ReadsOnly o := by
  obtain ⟨hends, hregs⟩ := Settled.run settled_unwStep accessReg_plain h
  exact ⟨hends, hregs, fun o ho => Settled.asked settled_unwStep accessReg_plain ho⟩

/-- A frame outside every module, whose frame pointer leads to the next one. -/
def strayCursor : Cursor := { blankCursor with ip := 0x1000, cfa := 0x8ff0 }

def strayRegs : UnwindRegs := .new 0x1000 0x8ff0 0x9000

def strayEnv : UnwindEnv := ⟨.new, 0x1000, steady (fun addr => some (addr + 0x100)), fun _ => 0⟩

theorem stray_outcome : ∃ c' ctx',
    (unwStep ⟨fun _ => false, fun _ => false⟩ 8 strayCursor).run.run
      (accessors RawRegs.accessReg strayEnv) ⟨strayRegs, none, none, freshWorld⟩ =
      some (.ok (1, c'), ctx') ∧
    EndsIn (Advances strayCursor) (.ok (1, c')) ∧ ctx'.regs = strayRegs ∧
    ∀ o ∈ asked (accessors RawRegs.accessReg strayEnv)
      (unwStep ⟨fun _ => false, fun _ => false⟩ 8 strayCursor).run
      ⟨strayRegs, none, none, freshWorld⟩, ReadsOnly o := by
  obtain ⟨⟨r, ctx'⟩, h, hr⟩ := Option.map_eq_some_iff.mp (show
    ((unwStep ⟨fun _ => false, fun _ => false⟩ 8 strayCursor).run.run
      (accessors RawRegs.accessReg strayEnv) ⟨strayRegs, none, none, freshWorld⟩).map
      (fun r => match r.1 with | .ok (ret, _) => ret | .error _ => -1) = some (1 : Int) by decide +kernel)
  cases r with
  | error stop => cases hr
  | ok r =>
    obtain ⟨ret, c'⟩ := r
    obtain rfl : ret = 1 := hr
    exact ⟨c', ctx', h, unwStep_outcome h⟩

/-- A status that a call into libunwind can come back with: a failure, or what the
process makes of code that comes to no value. -/
def Blamed (otherwise : Stop → Int × Cursor) (ret : Int) : Prop :=
  IsFailure ret ∨ ∃ stop, Diverges stop ∧ ret = (otherwise stop).1

/-- Calls that only read, and come back with such a status where they fail. -/
abbrev Reports {α : Type} (otherwise : Stop → Int × Cursor) (status : α → Int)
    (x : NativeCall α) : Prop :=
  Ensures CrateAnswer ReadsOnly (fun r => status r < 0 → Blamed otherwise (status r)) x

theorem reports_returning {q : Int × Cursor → Prop} {x : Code (Int × Cursor)} (hx : Settled q x)
    (hq : ∀ r, q r → r.1 < 0 → IsFailure r.1) :
    Reports otherwise Prod.fst (returning otherwise x) := by
  refine Ensures.bind hx ?_
  intro r hr
  cases r with
  | ok r => exact fun hneg => Or.inl (hq r hr hneg)
  | error stop => exact fun _ => Or.inr ⟨stop, hr, rfl⟩

theorem reports_step (c : Cursor) :
    Reports otherwise Prod.fst ((libunwind b rounds otherwise).step c) := by
  refine reports_returning settled_unwStep ?_
  rintro r (hfail | ⟨hstatus, -⟩) hneg
  · exact hfail
  · omega

theorem reports_initRemote :
    Reports otherwise Prod.fst (libunwind b rounds otherwise).initRemote := by
  refine reports_returning settled_commonInit ?_
  rintro r (hfail | hzero) hneg
  · exact hfail
  · omega

theorem reports_returningReg (c : Cursor) (reg : Int) (val : UInt64) :
    Reports otherwise Prod.fst (returningReg otherwise (tdepAccessReg c reg) val) := by
  refine Ensures.bind (harmless_tdepAccessReg c reg) ?_
  intro r hr
  cases r with
  | ok v => exact fun hneg => absurd hneg (lt_irrefl _)
  | error stop =>
    cases stop with
    | status ret => exact fun _ => Or.inl hr
    | undefined => exact fun _ => Or.inr ⟨.undefined, trivial, rfl⟩
    | unfinished => exact fun _ => Or.inr ⟨.unfinished, trivial, rfl⟩
    | outside => exact hr.elim

theorem reports_getReg (c : Cursor) (reg : Int) (val : UInt64) :
    Reports otherwise Prod.fst ((libunwind b rounds otherwise).getReg c reg val) := by
  have hreg : Reports otherwise Prod.fst
      (unwGetReg UNW_REG_IP (fun c => c.ip)
        (fun c reg => returningReg otherwise (tdepAccessReg c reg)) c reg val) := by
    unfold unwGetReg
    split
    · exact fun hneg => absurd hneg (lt_irrefl _)
    · exact Ensures.bind (reports_returningReg c reg val) (fun r hr => hr)
  exact hreg

/-- The status of a failed call, as it is reported. -/
def BlamedError {α : Type} (otherwise : Stop → Int × Cursor) (r : Except LibunwindError α) : Prop :=
  ∀ err, r = .error err → Blamed otherwise err.rawStatus

theorem blamedError_new {α : Type} {phase : LibunwindPhase} {ret : Int} (h : Blamed otherwise ret) :
    BlamedError otherwise (.error (.new phase ret) : Except LibunwindError α) := by
  intro err he
  cases he
  exact h

theorem blamedError_ok {α : Type} (a : α) : BlamedError otherwise (.ok a) := by
  intro err h
  cases h

theorem readExtras_blamed (regs : List Int) (index : Nat) (c : Cursor) (extras : Extras) :
    Ensures CrateAnswer ReadsOnly (BlamedError otherwise)
      (readExtras (libunwind b rounds otherwise) regs index c extras) := by
  induction regs generalizing index c extras with
  | nil => exact blamedError_ok extras
  | cons reg rest ih =>
    refine Ensures.bind (reports_getReg c reg 0) ?_
    rintro ⟨ret, val, c'⟩ hr
    dsimp only at hr ⊢
    split
    · next hneg =>
      split
      · exact blamedError_new (hr hneg)
      · exact ih _ _ _
    · exact ih _ _ _

theorem initAndStep_blamed (regIp : Int) (extraRegs : List Int) :
    Ensures CrateAnswer ReadsOnly (BlamedError otherwise)
      (initAndStep (libunwind b rounds otherwise) regIp extraRegs) := by
  refine Ensures.bind reports_initRemote ?_
  rintro ⟨initRet, c⟩ hinit
  dsimp only at hinit ⊢
  split
  · next hneg => exact blamedError_new (hinit hneg)
  · refine Ensures.bind (reports_step c) ?_
    rintro ⟨stepRet, c'⟩ hstep
    dsimp only at hstep ⊢
    split
    · next hneg => exact blamedError_new (hstep hneg)
    · split
      · exact blamedError_ok _
      · refine Ensures.bind (reports_getReg c' regIp 0) ?_
        rintro ⟨ret, newIp, c''⟩ hr
        dsimp only at hr ⊢
        split
        · next hneg => exact blamedError_new (hr hneg)
        · refine Ensures.bind (readExtras_blamed _ _ _ _) ?_
          intro extras hextras
          cases extras with
          | error err => exact fun e he => hextras e (by cases he; rfl)
          | ok extras => exact blamedError_ok _

/-- A step of this crate leaves its raw registers as they were, and never blames
libunwind for missing unwind info. -/
theorem nativeStep_blamed {memory : Nat → UInt8} {modules : ModuleSet} {lookupIp : UInt64}
    {regs : UnwindRegs} {readStack : Reader} {w : World} {r : Except LibunwindError StepOutcome}
    {ctx : UnwindCtx RawRegs}
    (h : X8664.backend.nativeStep (process b rounds otherwise memory) modules lookupIp regs readStack w =
      some (r, ctx)) :
    BlamedError otherwise r ∧ ctx.regs = RawRegs.fromPublic lookupIp regs :=
  Ensures.run (initAndStep_blamed _ _) (fun t => t.regs = RawRegs.fromPublic lookupIp regs)
    (fun _ _ _ _ hs => accessors_crateAnswer accessReg_plain hs)
    (fun _ _ _ _ hp hs hstep => (accessors_readsOnly accessReg_plain hp hstep).trans hs) rfl h

/-- Without a frame pointer, nothing leads out of such a frame. -/
theorem stray_blamed : ∃ err ctx,
    X8664.backend.nativeStep (process ⟨fun _ => false, fun _ => false⟩ 8 (fun _ => (-1, blankCursor))
      (fun _ => 0)) .new 0x1000
      ((UnwindRegs.mk 0x1000 (Vector.replicate 16 0) 0).setSp 0x8ff0) (steady (fun _ => none))
      freshWorld = some (.error err, ctx) ∧
    err.rawStatus = -UNW_EBADREG ∧
    BlamedError (fun _ => (-1, blankCursor)) (.error err : Except LibunwindError StepOutcome) := by
  obtain ⟨⟨r, ctx⟩, h, hr⟩ := Option.map_eq_some_iff.mp (show
    (X8664.backend.nativeStep (process ⟨fun _ => false, fun _ => false⟩ 8 (fun _ => (-1, blankCursor))
      (fun _ => 0)) .new 0x1000
      ((UnwindRegs.mk 0x1000 (Vector.replicate 16 0) 0).setSp 0x8ff0) (steady (fun _ => none))
      freshWorld).map
      (fun r => match r.1 with | .ok _ => 0 | .error err => err.rawStatus) =
      some (-UNW_EBADREG) by decide +kernel)
  cases r with
  | ok r => cases hr
  | error err => exact ⟨err, ctx, h, hr, (nativeStep_blamed h).1⟩

end Crate

end Unwinder.Native.X8664
