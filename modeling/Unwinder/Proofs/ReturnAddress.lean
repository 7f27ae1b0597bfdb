import Unwinder.Lib.Runs
import Unwinder.Proofs.Resume

namespace Unwinder
open Lib

namespace Backend

variable {Regs Raw : Type} (B : Backend Regs Raw) (P : Process) (modules : ModuleSet)
  (readStack : Reader) (frame : FrameAddress) (regs : Regs) (w : World)

/-- A step in which libunwind recovers the return address `v` as a word that it
read from the stack. -/
structure Recovers (v : UInt64) (extras : Extras) (ctx : UnwindCtx Raw) : Prop where
  path : OnDwarfPath modules (B.lookupIp regs frame)
  stepped : B.nativeStep P modules (B.lookupIp regs frame) regs readStack w =
    some (.ok (.stepped v extras), ctx)
  stored : ∃ rs addr, ctx.world.reads = rs ++ w.reads ∧ (addr, some v) ∈ rs
  nonZero : v ≠ 0
  advances : ¬ (B.strip regs v = B.currentIp regs frame ∧ extras.newSp = B.sp regs)

/-- Whether the function of the frame is known for a signal frame: from the
caches, or from the proc-info if libunwind asked for it. -/
def knownSignalFrame (asked : Bool) : Bool :=
  modules.isSignalFrame
    (if asked then (procInfoAt modules (B.lookupIp regs frame) w.caches).2 else w.caches)
    (B.lookupIp regs frame)

/-- The recovered address is not taken for one of the decremented frame. -/
def Uncompensated (v : UInt64) (ctx : UnwindCtx Raw) : Prop :=
  ¬ (frame.isReturnAddress = true ∧
    B.knownSignalFrame modules frame regs w (w.asked < ctx.world.asked) = false ∧
    modules.containsAddress (B.strip regs v) = true)

variable {B P modules readStack frame regs w} {v : UInt64} {extras : Extras}
  {ctx : UnwindCtx Raw} {signalFrame : Bool}

theorem compensated_eq_some_self {ra : UInt64} :
    compensated modules frame signalFrame ra = some ra ↔
      ¬ (frame.isReturnAddress = true ∧ signalFrame = false ∧ modules.containsAddress ra = true) := by
  unfold compensated
  by_cases h : frame.isReturnAddress = true ∧ signalFrame = false ∧ modules.containsAddress ra = true
  · obtain ⟨h1, h2, h3⟩ := h
    rw [h1, h2, h3, if_pos (by decide), checkedAdd64_eq_some]
    simp
  · rw [if_neg (by simpa [and_assoc] using h)]
    simp [h]

theorem steppedResult_eq (hz : B.strip regs v ≠ 0)
    (hadv : ¬ (B.strip regs v = B.currentIp regs frame ∧ extras.newSp = B.sp regs))
    (hc : compensated modules frame signalFrame (B.strip regs v) = some (B.strip regs v)) :
    B.steppedResult modules frame signalFrame v extras regs =
      (.ok (some (B.strip regs v)), B.stepped regs (B.strip regs v) extras) := by
  unfold steppedResult
  dsimp only
  rw [if_neg hz, hc]
  dsimp only
  rw [if_neg hadv]

/-- A reported address is the one that compensation has left. -/
theorem steppedResult_reported {ra : UInt64} {regs' : Regs}
    (h : B.steppedResult modules frame signalFrame v extras regs = (.ok (some ra), regs')) :
    B.strip regs v ≠ 0 ∧ compensated modules frame signalFrame (B.strip regs v) = some ra ∧
      ¬ (ra = B.currentIp regs frame ∧ extras.newSp = B.sp regs) ∧
      regs' = B.stepped regs ra extras := by
  unfold steppedResult at h
  dsimp only at h
  split at h
  · cases h
  · next hz =>
    split at h
    · cases h
    · next ra' hc =>
      split at h
      · cases h
      · next hmoves =>
        cases h
        exact ⟨hz, hc, hmoves, rfl⟩

/-- A caller comes from a step of libunwind that reached it. -/
theorem finishStep_caller {r : Except LibunwindError StepOutcome} {ra : UInt64} {regs' : Regs}
    {w' : World} (h : B.finishStep modules frame regs r ctx = (.ok (some ra), regs', w')) :
    ∃ v extras, r = .ok (.stepped v extras) ∧ B.strip regs v ≠ 0 ∧
      compensated modules frame
        (modules.isSignalFrame ctx.world.caches (B.lookupIp regs frame)) (B.strip regs v) = some ra ∧
      ¬ (ra = B.currentIp regs frame ∧ extras.newSp = B.sp regs) ∧
      regs' = B.stepped regs ra extras := by
  cases r with
  | error err => cases h
  | ok outcome =>
    cases outcome with
    | endOfStack => cases h
    | stepped v extras =>
      rw [finishStep] at h
      rcases hs : B.steppedResult modules frame
        (modules.isSignalFrame ctx.world.caches (B.lookupIp regs frame)) v extras regs with ⟨r, regs₁⟩
      rw [hs] at h
      obtain ⟨rfl, rfl, -⟩ := h
      exact ⟨v, extras, rfl, steppedResult_reported hs⟩

/-- The caches that a step of libunwind leaves follow from those before it. -/
theorem Recovers.isSignalFrame_eq (h : B.Recovers P modules readStack frame regs w v extras ctx) :
    modules.isSignalFrame ctx.world.caches (B.lookupIp regs frame) =
      B.knownSignalFrame modules frame regs w (w.asked < ctx.world.asked) := by
  unfold knownSignalFrame
  rcases (nativeStep_since h.stepped).caches with ⟨hasked, hcaches⟩ | ⟨hasked, hcaches⟩
  · rw [if_neg (by simp [hasked]), hcaches]
  · rw [if_pos (by simpa using hasked), hcaches]
    rfl

theorem Recovers.unwindFrame_eq (h : B.Recovers P modules readStack frame regs w v extras ctx) :
    B.unwindFrame P modules readStack frame regs w =
      some (B.finishStep modules frame regs (.ok (.stepped v extras)) ctx) := by
  rw [unwindFrame_onPath h.path, h.stepped, Option.map_some]

theorem Recovers.reports (h : B.Recovers P modules readStack frame regs w v extras ctx)
    (hz : B.strip regs v ≠ 0) (hu : B.Uncompensated modules frame regs w v ctx) :
    B.unwindFrame P modules readStack frame regs w =
      some (.ok (some (B.strip regs v)), B.stepped regs (B.strip regs v) extras, ctx.world) := by
  unfold Uncompensated at hu
  rw [← h.isSignalFrame_eq] at hu
  rw [h.unwindFrame_eq, finishStep, steppedResult_eq hz h.advances (compensated_eq_some_self.mpr hu)]

/-- The stored return address is reported exactly if it is not compensated. -/
theorem Recovers.reports_iff (h : B.Recovers P modules readStack frame regs w v extras ctx) :
    (∃ regs' w', B.unwindFrame P modules readStack frame regs w =
      some (.ok (some (B.strip regs v)), regs', w')) ↔
      B.strip regs v ≠ 0 ∧ B.Uncompensated modules frame regs w v ctx := by
  constructor
  · intro hr
    obtain ⟨regs', w', hr⟩ := hr
    rw [h.unwindFrame_eq, Option.some.injEq] at hr
    obtain ⟨v', extras', he, hz, hc, -⟩ := finishStep_caller hr
    cases he
    refine ⟨hz, ?_⟩
    unfold Uncompensated
    rw [← h.isSignalFrame_eq]
    exact compensated_eq_some_self.mp hc
  · intro hc
    exact ⟨_, _, h.reports hc.1 hc.2⟩

theorem fallbackUnwindFrame_caller {currentIp ra : UInt64} {regs' : Regs} {w' : World}
    (h : B.fallbackUnwindFrame currentIp regs readStack w = (.ok (some ra), regs', w')) :
    ∃ word newSp newFp, ra = B.strip regs word ∧ ra ≠ 0 ∧
      regs' = B.fallback regs ra word newSp newFp ∧
      w'.reads = (B.fp regs + 8, some word) :: (B.fp regs, some newFp) :: w.reads := by
  have hout := fallbackUnwindFrame_outcome (B := B) currentIp regs readStack w
  rw [h] at hout
  cases hout with
  | stays rs r hr => exact absurd rfl (hr ra)
  | caller word newSp newFp hz => exact ⟨word, newSp, newFp, rfl, hz, rfl, rfl⟩

/-- A step does not change what is masked off code addresses. -/
theorem unwindFrame_strip {r : Except Error (Option UInt64)} {regs' : Regs} {w' : World}
    (h : B.unwindFrame P modules readStack frame regs w = some (r, regs', w')) :
    B.strip regs' = B.strip regs := by
  by_cases hr : ∃ ra, r = .ok (some ra)
  · obtain ⟨ra, rfl⟩ := hr
    rcases unwindFrame_cases h with ⟨err, -, he⟩ | ⟨-, he⟩ | ⟨-, r, ctx, -, he⟩
    · cases he
    · obtain ⟨word, newSp, newFp, -, -, rfl, -⟩ := fallbackUnwindFrame_caller he.symm
      exact B.strip_fallback ..
    · obtain ⟨v, extras, -, -, -, -, rfl⟩ := finishStep_caller he.symm
      exact B.strip_stepped ..
  · have hregs : regs' = regs := (unwindFrame_atomic h).regs (fun ra he => hr ⟨ra, he⟩)
    rw [hregs]

variable (B P modules readStack frame regs w) in
/-- A step by frame pointer to a caller whose return address is stored as `v`. -/
structure FollowsFramePointer (v : UInt64) : Prop where
  header : modules.unwindInfoError (B.lookupIp regs frame) = none
  info : modules.hasUnwindInfo (B.lookupIp regs frame) = false
  caller : ∃ ra regs' w' rs, B.fallbackUnwindFrame (B.currentIp regs frame) regs readStack w =
    (.ok (some ra), regs', w') ∧ w'.reads = (B.fp regs + 8, some v) :: rs

theorem FollowsFramePointer.reports
    (h : B.FollowsFramePointer modules readStack frame regs w v) :
    B.strip regs v ≠ 0 ∧ ∃ regs' w', B.unwindFrame P modules readStack frame regs w =
      some (.ok (some (B.strip regs v)), regs', w') := by
  obtain ⟨ra, regs', w', rs, hstep, hreads⟩ := h.caller
  obtain ⟨word, newSp, newFp, hword, hz, -, hreads'⟩ := fallbackUnwindFrame_caller hstep
  rw [hreads] at hreads'
  obtain rfl : v = word := by
    have hhead := (List.cons.inj hreads').1
    exact Option.some.inj (Prod.mk.inj hhead).2
  rw [← hword]
  exact ⟨hz, regs', w', (unwindFrame_framePointer h.header h.info).trans (congrArg some hstep)⟩

end Backend

namespace UnwindIterator

variable {Regs Raw : Type}

/-- The iterator after one more call, as long as no call has panicked. -/
def call (U : FrameUnwinder Regs) (s : Option (UnwindIterator Regs × World)) (readStack : Reader) :
    Option (UnwindIterator Regs × World) :=
  s.bind (fun s => (next U readStack s.1 s.2).map Prod.snd)

/-- What every call that returns preserves, a run preserves up to a panic. -/
theorem call_inv {U : FrameUnwinder Regs} {I : UnwindIterator Regs → World → Prop}
    (hI : ∀ readStack it w r it' w', I it w → next U readStack it w = some (r, it', w') → I it' w')
    (s : Option (UnwindIterator Regs × World)) (readStack : Reader)
    (hs : ∀ it w, s = some (it, w) → I it w) :
    ∀ it w, call U s readStack = some (it, w) → I it w := by
  intro it' w' he
  obtain ⟨⟨it, w⟩, rfl, hcall⟩ := Option.bind_eq_some_iff.mp he
  obtain ⟨⟨r, it₁, w₁⟩, hn, hafter⟩ := Option.map_eq_some_iff.mp hcall
  obtain ⟨rfl, rfl⟩ := Prod.mk.inj hafter
  exact hI readStack it w r it₁ w₁ (hs it w rfl) hn

variable (B : Backend Regs Raw) (P : Process) (modules : ModuleSet)

/-- The call reports the return address that its step finds on the stack, and
behind an ordinary frame it will be looked up one byte before. -/
def ReportsStored (strip : UInt64 → UInt64) (s : Option (UnwindIterator Regs × World))
    (readStack : Reader) : Prop :=
  ∀ it w frame v, s = some (it, w) → it.state = .unwinding frame →
    (∃ extras ctx, B.Recovers P modules readStack frame it.regs w v extras ctx) ∨
      B.FollowsFramePointer modules readStack frame it.regs w v →
    ∃ caller it' w', next (B.unwinder P modules) readStack it w = some (.ok (some caller), it', w') ∧
      caller.address = strip v ∧
      (B.isSignalFrame modules w'.caches frame it'.regs = false →
        caller.addressForLookup = strip v - 1)

/-- Where libunwind recovers a return address, it is not compensated. -/
def NotCompensated (strip : UInt64 → UInt64) (s : Option (UnwindIterator Regs × World))
    (readStack : Reader) : Prop :=
  ∀ it w frame v extras ctx, s = some (it, w) → it.state = .unwinding frame →
    B.Recovers P modules readStack frame it.regs w v extras ctx →
    strip v ≠ 0 ∧ B.Uncompensated modules frame it.regs w v ctx

variable {B P modules} {it it' : UnwindIterator Regs} {readStack : Reader} {w w' : World}

theorem frameOf_nonZero {ra : UInt64} (hz : ra ≠ 0) (interrupted : Bool) :
    ∃ caller, frameOf interrupted ra = some caller ∧ caller.address = ra ∧
      (interrupted = false → caller.addressForLookup = ra - 1) := by
  cases interrupted with
  | true => exact ⟨.instructionPointer ra, rfl, rfl, by simp⟩
  | false =>
    refine ⟨.returnAddress ra hz, ?_, rfl, fun _ => rfl⟩
    exact dif_neg hz

theorem advance_address {interrupted : Bool} {ra : Option UInt64} {caller : FrameAddress}
    (h : (advance interrupted ra).1 = some caller) : ra = some caller.address := by
  unfold advance at h
  split at h
  · next f hf =>
    obtain rfl := Option.some.inj h
    obtain ⟨a, rfl, hframe⟩ := Option.bind_eq_some_iff.mp hf
    unfold frameOf at hframe
    split at hframe
    · obtain rfl := Option.some.inj hframe
      rfl
    · unfold FrameAddress.fromReturnAddress at hframe
      split at hframe
      · cases hframe
      · obtain rfl := Option.some.inj hframe
        rfl
  · cases h

/-- A step to a caller is reported as the frame of that address. -/
theorem next_reports {frame : FrameAddress} {ra : UInt64} {regs' : Regs}
    (hs : it.state = .unwinding frame) (hz : ra ≠ 0)
    (hu : B.unwindFrame P modules readStack frame it.regs w = some (.ok (some ra), regs', w')) :
    ∃ caller it' w', next (B.unwinder P modules) readStack it w = some (.ok (some caller), it', w') ∧
      caller.address = ra ∧
      (B.isSignalFrame modules w'.caches frame it'.regs = false →
        caller.addressForLookup = ra - 1) := by
  obtain ⟨caller, hframe, haddr, hlookup⟩ :=
    frameOf_nonZero hz (B.isSignalFrame modules w'.caches frame regs')
  have hadv : advance (B.isSignalFrame modules w'.caches frame regs') (some ra) =
      (some caller, .unwinding caller) := by
    unfold advance
    rw [Option.bind_some, hframe]
  have hnext := next_stepped (U := B.unwinder P modules) hs hu
  simp only [Backend.unwinder, hadv] at hnext
  exact ⟨caller, _, _, hnext, haddr, hlookup⟩

theorem reportsStored_iff {strip : UInt64 → UInt64} {s : Option (UnwindIterator Regs × World)}
    (hstrip : ∀ it w, s = some (it, w) → B.strip it.regs = strip) :
    ReportsStored B P modules strip s readStack ↔ NotCompensated B P modules strip s readStack := by
  constructor
  · intro h it w frame v extras ctx hs hst hrec
    obtain ⟨caller, it', w', hn, haddr, -⟩ := h it w frame v hs hst (Or.inl ⟨extras, ctx, hrec⟩)
    rw [← hstrip it w hs] at haddr ⊢
    rcases next_cases hn with ⟨pc, hst', -⟩ | ⟨hst', -⟩ | ⟨frame', out, regs', hst', hu, hout⟩
    · rw [hst] at hst'
      cases hst'
    · rw [hst] at hst'
      cases hst'
    · rw [hst] at hst'
      obtain rfl := UnwindIteratorState.unwinding.inj hst'
      rcases hout with ⟨err, -, hr, -⟩ | ⟨ra, rfl, hr, -⟩
      · cases hr
      · have hra := advance_address (Except.ok.inj hr).symm
        rw [haddr] at hra
        rw [hra] at hu
        exact hrec.reports_iff.mp ⟨regs', w', hu⟩
  · intro h it w frame v hs hst hfound
    rw [← hstrip it w hs]
    rcases hfound with ⟨extras, ctx, hrec⟩ | hfp
    · obtain ⟨hz, hu⟩ := h it w frame v extras ctx hs hst hrec
      rw [← hstrip it w hs] at hz
      exact next_reports hst hz (hrec.reports hz hu)
    · obtain ⟨hz, regs', w', hu⟩ := hfp.reports
      exact next_reports hst hz hu

theorem next_strip {r : Except Error (Option FrameAddress)}
    (h : next (B.unwinder P modules) readStack it w = some (r, it', w')) :
    B.strip it'.regs = B.strip it.regs := by
  rcases next_cases h with ⟨pc, -, -, rfl, -⟩ | ⟨-, -, rfl, -⟩ | ⟨frame, out, regs', -, hu, hout⟩
  · rfl
  · rfl
  · rcases hout with ⟨err, -, -, rfl⟩ | ⟨ra, -, -, rfl⟩
    · exact Backend.unwindFrame_strip hu
    · exact Backend.unwindFrame_strip hu

variable (B P modules) in
/-- Over every run of the iterator, all its calls report the stored return
addresses exactly if none of them compensates. -/
def RunsExact : Prop :=
  ∀ (pc : UInt64) (regs : Regs) (w : World) (readers : List Reader),
    EachStep (call (B.unwinder P modules)) (ReportsStored B P modules (B.strip regs))
      (some (new pc regs, w)) readers ↔
    EachStep (call (B.unwinder P modules)) (NotCompensated B P modules (B.strip regs))
      (some (new pc regs, w)) readers

theorem runsExact (B : Backend Regs Raw) (P : Process) (modules : ModuleSet) :
    RunsExact B P modules := by
  intro pc regs w readers
  refine eachStep_congr
    (I := fun s => ∀ it w, s = some (it, w) → B.strip it.regs = B.strip regs) ?_ ?_ ?_
  · intro s readStack _ hs
    refine call_inv (I := fun it _ => B.strip it.regs = B.strip regs) ?_ s readStack hs
    intro readStack it w r it' w' hi hn
    exact (next_strip hn).trans hi
  · intro s readStack hs
    exact reportsStored_iff hs
  · intro it w' he
    obtain ⟨rfl, -⟩ := Prod.mk.inj (Option.some.inj he)
    rfl

end UnwindIterator

/-- Where libunwind recovers a return address from the stack, a step reports it
exactly if it does not compensate, and a run does if none of its calls does. -/
theorem returnAddresses_exact_iff (P : Process) (modules : ModuleSet) :
    (∀ readStack frame regs w v extras ctx,
      X8664.backend.Recovers P modules readStack frame regs w v extras ctx →
      ((∃ regs' w', X8664.unwindFrame P modules readStack frame regs w =
        some (.ok (some v), regs', w') ∧ regs'.ip = v) ↔
        X8664.backend.Uncompensated modules frame regs w v ctx)) ∧
    (∀ readStack frame regs w v extras ctx,
      Aarch64.backend.Recovers P modules readStack frame regs w v extras ctx →
      ((∃ regs' w', Aarch64.unwindFrame P modules readStack frame regs w =
        some (.ok (some (regs.lrMask.stripPtrAuth v)), regs', w')) ↔
        regs.lrMask.stripPtrAuth v ≠ 0 ∧
          Aarch64.backend.Uncompensated modules frame regs w v ctx)) ∧
    UnwindIterator.RunsExact X8664.backend P modules ∧
    UnwindIterator.RunsExact Aarch64.backend P modules := by
  refine ⟨?_, ?_, UnwindIterator.runsExact _ _ _, UnwindIterator.runsExact _ _ _⟩
  · intro readStack frame regs w v extras ctx h
    constructor
    · intro hr
      obtain ⟨regs', w', hr, -⟩ := hr
      exact (h.reports_iff.mp ⟨regs', w', hr⟩).2
    · intro hu
      exact ⟨_, _, h.reports h.nonZero hu, rfl⟩
  · intro readStack frame regs w v extras ctx h
    exact h.reports_iff

section Runs

/-- What a finished step of libunwind is checked for. -/
def steppedTo {Raw : Type} (r : Except LibunwindError StepOutcome × UnwindCtx Raw) :
    Option (UInt64 × UInt64 × List StackRead) :=
  match r.1 with
  | .ok (.stepped newIp extras) => some (newIp, extras.newSp, r.2.world.reads)
  | _ => none

/-- Recovery can be checked by running the step. -/
theorem recovers_of_run {Regs Raw : Type} {B : Backend Regs Raw} {P : Process}
    {modules : ModuleSet} {readStack : Reader} {frame : FrameAddress} {regs : Regs} {w : World}
    {v : UInt64} (addr sp : UInt64) (rs : List StackRead)
    (hpath : OnDwarfPath modules (B.lookupIp regs frame)) (hv : v ≠ 0) (hsp : sp ≠ B.sp regs)
    (hstored : (addr, some v) ∈ rs)
    (hrun : (B.nativeStep P modules (B.lookupIp regs frame) regs readStack w).bind steppedTo =
      some (v, sp, rs ++ w.reads)) :
    ∃ extras ctx, B.Recovers P modules readStack frame regs w v extras ctx := by
  obtain ⟨⟨r, ctx⟩, hn, hr⟩ := Option.bind_eq_some_iff.mp hrun
  unfold steppedTo at hr
  dsimp only at hr
  split at hr
  · next newIp extras =>
    simp only [Option.some.injEq, Prod.mk.injEq] at hr
    obtain ⟨rfl, rfl, hreads⟩ := hr
    exact ⟨extras, ctx, hpath, hn, ⟨rs, addr, hreads, hstored⟩, hv, fun h => hsp h.2⟩
  · cases hr

def callReader : Reader := steady callStack

/-- The second caller in the stack of calls. -/
def secondCall : FrameAddress := .returnAddress 0x1008 (by decide)

def secondCallRegs : X8664.UnwindRegs := .new 0x1008 0x9008 0

theorem secondCall_recovers : ∃ extras ctx, X8664.backend.Recovers topOfStackX8664 twoFunctionSet
    callReader secondCall secondCallRegs freshWorld 0x1114 extras ctx :=
  recovers_of_run 0x9008 0x9010 [(0x9008, some 0x1114)] ⟨by decide +kernel, by decide +kernel⟩
    (by decide) (by decide) (by simp) (by decide +kernel)

theorem firstCall_recovers : ∃ extras ctx, X8664.backend.Recovers topOfStackX8664 twoFunctionSet
    callReader (.instructionPointer 0x1110) (.new 0x1110 0x9000 0) freshWorld 0x1008 extras ctx :=
  recovers_of_run 0x9000 0x9008 [(0x9000, some 0x1008)] ⟨by decide +kernel, by decide +kernel⟩
    (by decide) (by decide) (by simp) (by decide +kernel)

/-- The address stored for the second caller is reported one too high. -/
theorem secondCall_off_by_one :
    (∃ extras ctx, X8664.backend.Recovers topOfStackX8664 twoFunctionSet callReader secondCall
      secondCallRegs freshWorld 0x1114 extras ctx) ∧
    (X8664.unwindFrame topOfStackX8664 twoFunctionSet callReader secondCall secondCallRegs
      freshWorld).map Prod.fst = some (.ok (some 0x1115)) ∧
    ¬ ∃ regs' w', X8664.unwindFrame topOfStackX8664 twoFunctionSet callReader secondCall
      secondCallRegs freshWorld = some (.ok (some 0x1114), regs', w') := by
  have hrun : (X8664.unwindFrame topOfStackX8664 twoFunctionSet callReader secondCall secondCallRegs
      freshWorld).map Prod.fst = some (.ok (some 0x1115)) := by
    decide +kernel
  refine ⟨secondCall_recovers, hrun, ?_⟩
  intro h
  obtain ⟨regs', w', h⟩ := h
  rw [h] at hrun
  simp at hrun

theorem firstCall_exact : ∃ regs' w', X8664.unwindFrame topOfStackX8664 twoFunctionSet callReader
    (.instructionPointer 0x1110) (.new 0x1110 0x9000 0) freshWorld =
      some (.ok (some 0x1008), regs', w') ∧ regs'.ip = 0x1008 := by
  obtain ⟨extras, ctx, h⟩ := firstCall_recovers
  refine ((returnAddresses_exact_iff _ _).1 _ _ _ _ _ _ _ h).mpr ?_
  intro hc
  cases hc.1

end Runs

end Unwinder
