import Unwinder.Native.Aarch64
import Unwinder.Proofs.Resume

namespace Unwinder.Aarch64
open Lib Ffi

/-- A libunwind that reads registers as the vendored one does. -/
structure VendoredGetReg (L : Libunwind) where
  tdepGetIp : L.Cursor → UInt64
  tdepAccessReg : L.Cursor → Int → UInt64 → NativeCall (Int × UInt64)
  getReg_eq : L.getReg = unwGetReg UNW_REG_IP tdepGetIp tdepAccessReg

namespace VendoredGetReg

variable {L : Libunwind} {Raw : Type}
  {handle : (o : Accessor) → UnwindCtx Raw → Option (o.Answer × UnwindCtx Raw)}
  {cursor : L.Cursor} {s s' : UnwindCtx Raw}

theorem run_ip (V : VendoredGetReg L) (val : UInt64) :
    (L.getReg cursor UNW_REG_IP val).run handle s = some ((0, V.tdepGetIp cursor, cursor), s) := by
  rw [V.getReg_eq, unwGetReg, if_pos rfl]
  rfl

/-- Any other register is read as it is recovered. -/
theorem run_reg (V : VendoredGetReg L) {reg : Int} {val : UInt64} {answer : Int × UInt64}
    (hreg : reg ≠ UNW_REG_IP)
    (h : (V.tdepAccessReg cursor reg val).run handle s = some (answer, s')) :
    (L.getReg cursor reg val).run handle s = some ((answer.1, answer.2, cursor), s') := by
  rw [V.getReg_eq, unwGetReg, if_neg hreg, Interaction.run_bind, h]
  rfl

/-- A step of libunwind, then its stack pointer and its frame pointer; nothing where
the step or the stack pointer fails. -/
def stepRegs (V : VendoredGetReg L) : NativeCall (Option (L.Cursor × UInt64)) := do
  let (initRet, cursor) ← L.initRemote
  let (stepRet, cursor) ← L.step cursor
  let (spRet, sp) ← V.tdepAccessReg cursor UNW_REG_SP 0
  let _ ← V.tdepAccessReg cursor UNW_AARCH64_X29 0
  return if 0 ≤ initRet ∧ 0 < stepRet ∧ 0 ≤ spRet then some (cursor, sp) else none

/-- The third extra register is asked for under the number of the instruction
pointer, and so that is what it is. -/
theorem readExtras_run (V : VendoredGetReg L) {spRet : Int} {sp : UInt64} {fp : Int × UInt64}
    {s₁ s₂ : UnwindCtx Raw} (hpos : 0 ≤ spRet)
    (hsp : (V.tdepAccessReg cursor UNW_REG_SP 0).run handle s = some ((spRet, sp), s₁))
    (hfp : (V.tdepAccessReg cursor UNW_AARCH64_X29 0).run handle s₁ = some (fp, s₂)) :
    ∃ extras : Extras, (readExtras L (backend.extraRegs.take 4) 0 cursor (Vector.replicate 4 0)).run
        handle s = some (.ok extras, s₂) ∧
      extras.newSp = sp ∧ extras.newLr = V.tdepGetIp cursor := by
  have htake : backend.extraRegs.take 4 = [UNW_REG_SP, UNW_AARCH64_X29, UNW_REG_IP] := rfl
  have hsp' := V.run_reg (by decide) hsp
  have hfp' := V.run_reg (by decide) hfp
  have hip : (L.getReg cursor UNW_REG_IP 0).run handle s₂ =
      some ((0, V.tdepGetIp cursor, cursor), s₂) := V.run_ip 0
  rw [htake]
  simp only [readExtras, Interaction.run_bind, hsp', Option.bind_some, if_neg (not_lt.mpr hpos),
    hfp']
  split
  · simp only [if_neg (show ¬ 0 + 1 = 0 by decide), Interaction.run_bind, hip, Option.bind_some]
    exact ⟨_, rfl, rfl, rfl⟩
  · simp only [Interaction.run_bind, hip, Option.bind_some]
    exact ⟨_, rfl, rfl, rfl⟩

theorem initAndStep_run (V : VendoredGetReg L) {sp : UInt64}
    (h : V.stepRegs.run handle s = some (some (cursor, sp), s')) :
    ∃ extras : Extras, (initAndStep L UNW_REG_IP backend.extraRegs).run handle s =
        some (.ok (.stepped (V.tdepGetIp cursor) extras), s') ∧
      extras.newSp = sp ∧ extras.newLr = V.tdepGetIp cursor := by
  rw [stepRegs, Interaction.run_bind] at h
  obtain ⟨⟨⟨initRet, cursor₀⟩, s₁⟩, hinit, h⟩ := Option.bind_eq_some_iff.mp h
  rw [Interaction.run_bind] at h
  obtain ⟨⟨⟨stepRet, cursor₁⟩, s₂⟩, hstep, h⟩ := Option.bind_eq_some_iff.mp h
  rw [Interaction.run_bind] at h
  obtain ⟨⟨⟨spRet, sp₁⟩, s₃⟩, hsp, h⟩ := Option.bind_eq_some_iff.mp h
  rw [Interaction.run_bind] at h
  obtain ⟨⟨fp, s₄⟩, hfp, h⟩ := Option.bind_eq_some_iff.mp h
  dsimp only at hstep hsp hfp h
  rw [Interaction.run_pure] at h
  split at h
  · next hok =>
    cases h
    obtain ⟨extras, hextras, hnew⟩ := V.readExtras_run hok.2.2 hsp hfp
    refine ⟨extras, ?_, hnew⟩
    simp only [initAndStep, stepCursor, readStepped, Interaction.run_bind, hinit, hstep,
      Option.bind_some, if_neg (not_lt.mpr hok.1), if_neg (not_lt.mpr hok.2.1.le), if_neg hok.2.1.ne',
      V.run_ip, hextras, if_neg (lt_irrefl (0 : Int))]
    rfl
  · cases h

end VendoredGetReg

variable {P : Process} {modules : ModuleSet} {readStack : Reader} {frame : FrameAddress}
  {regs : UnwindRegs} {w : World} {p newSp l : UInt64} {ctx : UnwindCtx RawRegs}

/-- From these registers libunwind steps to a cursor with this program counter and
this stack pointer, for which it recovers this X30. -/
structure StepsTo (V : VendoredGetReg P.libunwind) (modules : ModuleSet) (readStack : Reader)
    (frame : FrameAddress) (regs : UnwindRegs) (w : World) (p newSp l : UInt64)
    (ctx : UnwindCtx RawRegs) : Prop where
  path : OnDwarfPath modules (backend.lookupIp regs frame)
  stepped : ∃ cursor,
    V.stepRegs.run
      (accessors accessReg (Backend.env P modules (backend.lookupIp regs frame) readStack))
      (backend.startCtx (backend.lookupIp regs frame) regs w) = some (some (cursor, newSp), ctx) ∧
    V.tdepGetIp cursor = p ∧
    ∃ ret ctx', 0 ≤ ret ∧
      (V.tdepAccessReg cursor UNW_AARCH64_X30 0).run
        (accessors accessReg (Backend.env P modules (backend.lookupIp regs frame) readStack)) ctx =
          some ((ret, l), ctx')

/-- A step leads to a caller: the address it has come to is not null, what is added
to it for the decrement of the lookup does not overflow, and the address or the
stack pointer is a new one. -/
def Reaches (modules : ModuleSet) (caches : Caches) (frame : FrameAddress) (regs : UnwindRegs)
    (p newSp : UInt64) : Prop :=
  regs.lrMask.stripPtrAuth p ≠ 0 ∧
  ∃ ra, Backend.compensated modules frame
      (modules.isSignalFrame caches (backend.lookupIp regs frame)) (regs.lrMask.stripPtrAuth p) =
        some ra ∧
    ¬ (ra = backend.currentIp regs frame ∧ newSp = regs.sp)

/-- The link register behind a step is the program counter that was reached, where
the step leads to a caller. Otherwise no register changes. -/
theorem steppedResult_lr {caches : Caches} {extras : Extras} (hsp : extras.newSp = newSp)
    (hlr : extras.newLr = p) {r : Except Error (Option UInt64)} {regs' : UnwindRegs}
    (h : backend.steppedResult modules frame
      (modules.isSignalFrame caches (backend.lookupIp regs frame)) p extras regs = (r, regs')) :
    (Reaches modules caches frame regs p newSp ∧ (∃ ra, r = .ok (some ra)) ∧
      regs'.lr = regs.lrMask.stripPtrAuth p) ∨
    (¬ Reaches modules caches frame regs p newSp ∧ (¬ ∃ ra, r = .ok (some ra)) ∧
      regs' = regs) := by
  unfold Backend.steppedResult at h
  dsimp only at h
  split at h
  · next hnull =>
    cases h
    exact Or.inr ⟨fun hr => hr.1 hnull, by simp, rfl⟩
  · next hnull =>
    split at h
    · next hover =>
      cases h
      refine Or.inr ⟨?_, by simp, rfl⟩
      rintro ⟨-, ra, hra, -⟩
      cases hover.symm.trans hra
    · next ra hra =>
      split at h
      · next hsame =>
        cases h
        refine Or.inr ⟨?_, by simp, rfl⟩
        rintro ⟨-, ra', hra', hmoves⟩
        cases hra.symm.trans hra'
        exact hmoves ⟨hsame.1, hsp.symm.trans hsame.2⟩
      · next hmoves =>
        cases h
        refine Or.inl ⟨⟨hnull, ra, hra, ?_⟩, ⟨ra, rfl⟩, ?_⟩
        · rwa [hsp] at hmoves
        · exact congrArg regs.lrMask.stripPtrAuth hlr

/-- A step of libunwind that succeeds makes the link register the recovered X30
exactly where that agrees with the program counter in the bits that the mask
keeps, and where the step leads to no caller exactly where it was so before. -/
theorem unwindFrame_lr_iff (V : VendoredGetReg P.libunwind)
    (h : StepsTo V modules readStack frame regs w p newSp l ctx) :
    ∃ r regs' w', unwindFrame P modules readStack frame regs w = some (r, regs', w') ∧
      ((∃ ra, r = .ok (some ra)) ↔ Reaches modules ctx.world.caches frame regs p newSp) ∧
      (regs'.lr = regs.lrMask.stripPtrAuth l ↔
        (Reaches modules ctx.world.caches frame regs p newSp ∧
          regs.lrMask.stripPtrAuth p = regs.lrMask.stripPtrAuth l) ∨
        (¬ Reaches modules ctx.world.caches frame regs p newSp ∧
          regs.lr = regs.lrMask.stripPtrAuth l)) := by
  obtain ⟨cursor, hrun, rfl, -⟩ := h.stepped
  obtain ⟨extras, hnative, hsp, hlr⟩ := V.initAndStep_run hrun
  have hframe : unwindFrame P modules readStack frame regs w =
      some (backend.finishStep modules frame regs (.ok (.stepped (V.tdepGetIp cursor) extras))
        ctx) := by
    rw [unwindFrame, Backend.unwindFrame_onPath h.path]
    exact congrArg (Option.map _) hnative
  refine ⟨_, _, _, hframe, ?_⟩
  rcases steppedResult_lr hsp hlr (Prod.mk.eta ..).symm with ⟨hr, hra, hlr'⟩ | ⟨hr, hra, hregs⟩
  · refine ⟨iff_of_true hra hr, ?_⟩
    simp only [hr, not_true, false_and, or_false, true_and]
    exact Eq.congr_left hlr'
  · refine ⟨iff_of_false hra hr, ?_⟩
    simp only [hr, not_false_eq_true, false_and, false_or, true_and]
    exact Eq.congr_left (congrArg UnwindRegs.lr hregs)

/-- What libunwind answers behind a step: the program counter, the stack pointer, and
whether X30 is recovered and as what. -/
def answers (V : VendoredGetReg P.libunwind) (modules : ModuleSet) (readStack : Reader)
    (frame : FrameAddress) (regs : UnwindRegs) (w : World) :
    Option (UInt64 × UInt64 × Bool × UInt64) :=
  let handle := accessors accessReg (Backend.env P modules (backend.lookupIp regs frame) readStack)
  match V.stepRegs.run handle (backend.startCtx (backend.lookupIp regs frame) regs w) with
  | some (some (cursor, sp), ctx) =>
    ((V.tdepAccessReg cursor UNW_AARCH64_X30 0).run handle ctx).map
      (fun r => (V.tdepGetIp cursor, sp, decide (0 ≤ r.1.1), r.1.2))
  | _ => none

theorem stepsTo_of_answers (V : VendoredGetReg P.libunwind)
    (hpath : OnDwarfPath modules (backend.lookupIp regs frame))
    (h : answers V modules readStack frame regs w = some (p, newSp, true, l)) :
    ∃ ctx, StepsTo V modules readStack frame regs w p newSp l ctx := by
  unfold answers at h
  dsimp only at h
  split at h
  · next cursor sp ctx hrun =>
    obtain ⟨⟨⟨ret, lr⟩, ctx'⟩, hlr, hout⟩ := Option.map_eq_some_iff.mp h
    simp only [Prod.mk.injEq, decide_eq_true_eq] at hout
    obtain ⟨hp, rfl, hret, rfl⟩ := hout
    exact ⟨ctx, hpath, cursor, hrun, hp, ret, ctx', hret, hlr⟩
  · cases h

section Leaf

/-- Two functions that keep their return address in X30 and their frame at SP. -/
def leafParts : ModuleParts :=
  { twoFunctionParts with
    name := "leaf-functions"
    ehFrame := some ⟨0x7000, ⟨[14, 0, 0, 0, 0, 0, 0, 0, 1, 0, 4, 0x78, 30, 0x0c, 31, 0, 0, 0,
      20, 0, 0, 0, 22, 0, 0, 0, 0, 0x10, 0, 0, 0, 0, 0, 0, 0x10, 0, 0, 0, 0, 0, 0, 0,
      20, 0, 0, 0, 46, 0, 0, 0, 0, 0x11, 0, 0, 0, 0, 0, 0, 0x20, 0, 0, 0, 0, 0, 0, 0],
      by decide⟩⟩ }

def leafSet : ModuleSet := ModuleSet.new.add (.fromParts leafParts 0)

def leafProcess : Process where
  libunwind := Native.Aarch64.libunwind (fun _ => false) 64
    (fun _ => (-UNW_EUNSPEC, Native.Aarch64.blankCursor))
  memory _ := 0

def nativeGetReg : VendoredGetReg leafProcess.libunwind where
  tdepGetIp c := c.ip
  tdepAccessReg c reg := Native.returningReg (fun _ => (-UNW_EUNSPEC, Native.Aarch64.blankCursor))
    (Native.Aarch64.tdepAccessReg c reg)
  getReg_eq := rfl

/-- A trampoline, the signal context above the stack pointer `0x9000`, and the code
that the signal has interrupted: a leaf at its `ret`. -/
def contextStack (addr : UInt64) : Option UInt64 :=
  if addr = 0x1000 then some 0xd4000001d2801168
  else if addr = 0x110f then some 0x03201fd65f03c0d5
  else if addr = 0x1110 then some 0xd503201fd65f03c0
  else if addr = 0x9000 then some 0
  else if addr = 0x9220 then some 0xa100
  else if addr = 0x9228 then some 0x5000
  else if addr = 0x9230 then some 0xa000
  else if addr = 0x9238 then some 0x1110
  else if addr = 0x9250 then some 0
  else none

def contextReader : Reader := steady contextStack

def inTrampoline : UnwindRegs := .new 0 0x9000 0x9100

def inLeaf : UnwindRegs := .new 0x5000 0xa000 0xa100

theorem trampoline_stepsTo : ∃ ctx, StepsTo (P := leafProcess) nativeGetReg leafSet contextReader
    (.instructionPointer 0x1000) inTrampoline freshWorld 0x1110 0xa000 0x5000 ctx :=
  stepsTo_of_answers nativeGetReg ⟨by decide +kernel, by decide +kernel⟩ (by decide +kernel)

theorem leaf_stepsTo : ∃ ctx, StepsTo (P := leafProcess) nativeGetReg leafSet contextReader
    (.instructionPointer 0x1110) inLeaf freshWorld 0x5000 0xa000 0x5000 ctx :=
  stepsTo_of_answers nativeGetReg ⟨by decide +kernel, by decide +kernel⟩ (by decide +kernel)

/-- The leaf as the walk goes on with it. -/
def leafFrame : FrameAddress := .returnAddress 0x1110 (by decide)

/-- The step out of a signal trampoline loses the link register of the leaf, and so
the step behind it reports the leaf's own address once more. -/
theorem interruptedLeaf_lr_lost :
    ∃ ctx, StepsTo nativeGetReg leafSet contextReader (.instructionPointer 0x1000) inTrampoline
        freshWorld 0x1110 0xa000 0x5000 ctx ∧
      Reaches leafSet ctx.world.caches (.instructionPointer 0x1000) inTrampoline 0x1110 0xa000 ∧
      ∃ regs' w',
        unwindFrame leafProcess leafSet contextReader (.instructionPointer 0x1000) inTrampoline
          freshWorld = some (.ok (some 0x1110), regs', w') ∧
        regs'.lr ≠ inTrampoline.lrMask.stripPtrAuth 0x5000 ∧
        (unwindFrame leafProcess leafSet contextReader leafFrame regs' w').map Prod.fst =
          some (.ok (some 0x1111)) ∧
        (unwindFrame leafProcess leafSet contextReader leafFrame (regs'.setLr 0x5000) w').map
          Prod.fst = some (.ok (some 0x5000)) := by
  obtain ⟨ctx, hsteps⟩ := trampoline_stepsTo
  refine ⟨ctx, hsteps, ⟨by decide, 0x1110, rfl, by decide⟩, ?_⟩
  let first := unwindFrame leafProcess leafSet contextReader (.instructionPointer 0x1000)
    inTrampoline freshWorld
  let next := unwindFrame leafProcess leafSet contextReader leafFrame
  have hfirst : first.map (fun out => (out.1, out.2.1.lr)) = some (.ok (some 0x1110), 0x1110) := by
    decide +kernel
  have hagain : first.bind (fun out => (next out.2.1 out.2.2).map Prod.fst) =
      some (.ok (some 0x1111)) := by
    decide +kernel
  have hleaf : first.bind (fun out => (next (out.2.1.setLr 0x5000) out.2.2).map Prod.fst) =
      some (.ok (some 0x5000)) := by
    decide +kernel
  obtain ⟨⟨r, regs', w'⟩, hstep, hout⟩ := Option.map_eq_some_iff.mp hfirst
  obtain ⟨rfl, hlr⟩ : r = .ok (some 0x1110) ∧ regs'.lr = 0x1110 := Prod.mk.inj hout
  rw [hstep] at hagain hleaf
  exact ⟨regs', w', hstep, by rw [hlr]; decide, hagain, hleaf⟩

theorem leaf_lr_recovered :
    ∃ ctx, StepsTo nativeGetReg leafSet contextReader (.instructionPointer 0x1110) inLeaf
        freshWorld 0x5000 0xa000 0x5000 ctx ∧
      ∃ ra regs' w', unwindFrame leafProcess leafSet contextReader (.instructionPointer 0x1110) inLeaf
          freshWorld = some (.ok (some ra), regs', w') ∧
        regs'.lr = inLeaf.lrMask.stripPtrAuth 0x5000 := by
  obtain ⟨ctx, hsteps⟩ := leaf_stepsTo
  have hreaches : Reaches leafSet ctx.world.caches (.instructionPointer 0x1110) inLeaf 0x5000
      0xa000 :=
    ⟨by decide, 0x5000, rfl, by decide⟩
  obtain ⟨r, regs', w', hrun, hra, hlr⟩ := unwindFrame_lr_iff nativeGetReg hsteps
  obtain ⟨ra, rfl⟩ := hra.mpr hreaches
  exact ⟨ctx, hsteps, ra, regs', w', hrun, hlr.mpr (Or.inl ⟨hreaches, rfl⟩)⟩

end Leaf

end Unwinder.Aarch64
