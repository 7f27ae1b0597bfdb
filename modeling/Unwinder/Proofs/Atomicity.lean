import Unwinder.Iterator
import Unwinder.Proofs.Callbacks

namespace Unwinder
open Lib

/-- A call that did not reach a caller has left the registers alone, and a read
that it blames is one of its own that failed. -/
structure Atomic {Regs : Type} (regs : Regs) (w : World) (out : Outcome Regs (Option UInt64)) :
    Prop where
  regs : (∀ ra, out.1 ≠ .ok (some ra)) → out.2.1 = regs
  blame : ∃ rs, out.2.2.reads = rs ++ w.reads ∧
    ∀ addr, out.1 = .error (.couldNotReadStack addr) → (addr, none) ∈ rs

/-- The lookup address has unwind info that libunwind is asked to use. -/
structure OnDwarfPath (modules : ModuleSet) (lookupIp : UInt64) : Prop where
  header : modules.unwindInfoError lookupIp = none
  info : modules.hasUnwindInfo lookupIp = true

namespace Backend

variable {Regs Raw : Type} {B : Backend Regs Raw} {P : Process} {modules : ModuleSet}
  {frame : FrameAddress} {regs : Regs} {readStack : Reader} {w : World}
  {out : Outcome Regs (Option UInt64)}

/-- The three ways of a step: a broken header, the frame pointer, or libunwind. -/
theorem unwindFrame_cases (h : B.unwindFrame P modules readStack frame regs w = some out) :
    (∃ err, modules.unwindInfoError (B.lookupIp regs frame) = some err ∧
      out = (.error (.unwindInfo err), regs, w)) ∨
    (modules.hasUnwindInfo (B.lookupIp regs frame) = false ∧
      out = B.fallbackUnwindFrame (B.currentIp regs frame) regs readStack w) ∨
    (OnDwarfPath modules (B.lookupIp regs frame) ∧
      ∃ r ctx, B.nativeStep P modules (B.lookupIp regs frame) regs readStack w = some (r, ctx) ∧
        out = B.finishStep modules frame regs r ctx) := by
  unfold unwindFrame at h
  cases herr : modules.unwindInfoError (B.lookupIp regs frame) with
  | some err =>
    rw [herr] at h
    exact Or.inl ⟨err, rfl, (Option.some.inj h).symm⟩
  | none =>
    rw [herr] at h
    dsimp only at h
    cases hinfo : modules.hasUnwindInfo (B.lookupIp regs frame) with
    | false =>
      rw [if_pos hinfo] at h
      exact Or.inr (Or.inl ⟨rfl, (Option.some.inj h).symm⟩)
    | true =>
      rw [if_neg (by rw [hinfo]; decide)] at h
      obtain ⟨⟨r, ctx⟩, hn, rfl⟩ := Option.map_eq_some_iff.mp h
      exact Or.inr (Or.inr ⟨⟨herr, hinfo⟩, r, ctx, hn, rfl⟩)

theorem unwindFrame_broken {err : UnwindInfoError}
    (herr : modules.unwindInfoError (B.lookupIp regs frame) = some err) :
    B.unwindFrame P modules readStack frame regs w = some (.error (.unwindInfo err), regs, w) := by
  unfold unwindFrame
  rw [herr]

theorem unwindFrame_framePointer (herr : modules.unwindInfoError (B.lookupIp regs frame) = none)
    (hinfo : modules.hasUnwindInfo (B.lookupIp regs frame) = false) :
    B.unwindFrame P modules readStack frame regs w =
      some (B.fallbackUnwindFrame (B.currentIp regs frame) regs readStack w) := by
  unfold unwindFrame
  rw [herr]
  exact if_pos hinfo

theorem unwindFrame_onPath (hp : OnDwarfPath modules (B.lookupIp regs frame)) :
    B.unwindFrame P modules readStack frame regs w =
      (B.nativeStep P modules (B.lookupIp regs frame) regs readStack w).map
        (fun r => B.finishStep modules frame regs r.1 r.2) := by
  unfold unwindFrame
  rw [hp.header]
  exact if_neg (by rw [hp.info]; decide)

theorem read_spec (readStack : Reader) (addr : UInt64) (w : World) :
    ∃ v, readStack.read addr w = (v, { w with reads := (addr, v) :: w.reads }) := ⟨_, rfl⟩

theorem Atomic.same {r : Except Error (Option UInt64)} (rs : List StackRead) {w' : World}
    (hw : w'.reads = rs ++ w.reads)
    (hr : ∀ addr, r = .error (.couldNotReadStack addr) → (addr, none) ∈ rs) :
    Atomic regs w (r, regs, w') :=
  ⟨fun _ => rfl, rs, hw, hr⟩

variable (B regs) in
/-- A saved pair that has passed the checks: it lies in the address space, the
stack grows down to it, and the chain goes up or ends. -/
structure SavedPair (newSp newFp : UInt64) : Prop where
  frame : B.fp regs ≠ 0
  location : (B.fp regs + 8).toNat = (B.fp regs).toNat + 8
  sp : newSp.toNat = (B.fp regs).toNat + 16
  up : B.sp regs < newSp
  chain : newFp = 0 ∨ B.fp regs < newFp

variable (B regs w) in
/-- Every way a frame-pointer step can go, with what it has read. -/
inductive FallbackRun : Outcome Regs (Option UInt64) → Prop where
  | noFrame (hfp : B.fp regs = 0) : FallbackRun (.ok none, regs, { w with reads := [] ++ w.reads })
  | refused (err : Error) (hfp : B.fp regs ≠ 0)
    (herr : err = .integerOverflow ∨ err = .framepointerUnwindingMovedBackwards) :
    FallbackRun (.error err, regs, { w with reads := [] ++ w.reads })
  | noSavedFp (hfp : B.fp regs ≠ 0) :
    FallbackRun (.error (.couldNotReadStack (B.fp regs)), regs,
      { w with reads := [(B.fp regs, none)] ++ w.reads })
  | chainRefused (newFp : UInt64) (hfp : B.fp regs ≠ 0) :
    FallbackRun (.error .framepointerUnwindingMovedBackwards, regs,
      { w with reads := [(B.fp regs, some newFp)] ++ w.reads })
  | noReturnAddress {newSp newFp : UInt64} (hpair : SavedPair B regs newSp newFp) :
    FallbackRun (.error (.couldNotReadStack (B.fp regs + 8)), regs,
      { w with reads := [(B.fp regs + 8, none), (B.fp regs, some newFp)] ++ w.reads })
  | chainEnds (word : UInt64) {newSp newFp : UInt64} (hpair : SavedPair B regs newSp newFp) :
    FallbackRun (.ok none, regs,
      { w with reads := [(B.fp regs + 8, some word), (B.fp regs, some newFp)] ++ w.reads })
  | caller (word : UInt64) {newSp newFp : UInt64} (hpair : SavedPair B regs newSp newFp)
    (hz : B.strip regs word ≠ 0) :
    FallbackRun (.ok (some (B.strip regs word)),
      B.fallback regs (B.strip regs word) word newSp newFp,
      { w with reads := [(B.fp regs + 8, some word), (B.fp regs, some newFp)] ++ w.reads })

theorem fallbackReturn_run (currentIp : UInt64) {newSp newFp : UInt64}
    (hpair : SavedPair B regs newSp newFp) {w₁ : World}
    (hw : w₁ = { w with reads := (B.fp regs, some newFp) :: w.reads }) :
    FallbackRun B regs w
      (B.fallbackReturn currentIp (B.fp regs + 8) newSp newFp regs readStack w₁) := by
  unfold fallbackReturn
  obtain ⟨v, hread⟩ := read_spec readStack (B.fp regs + 8) w₁
  rw [hread, hw]
  cases v with
  | none => exact .noReturnAddress hpair
  | some word =>
    dsimp only
    split
    · exact .chainEnds word hpair
    · next hz =>
      -- the check that the step has moved cannot fail here
      rw [if_neg (fun h => absurd h.2 (UInt64.ne_of_lt hpair.up).symm)]
      exact .caller word hpair hz

theorem fallbackUnwindFrame_run (currentIp : UInt64) (regs : Regs) (readStack : Reader) (w : World) :
    FallbackRun B regs w (B.fallbackUnwindFrame currentIp regs readStack w) := by
  unfold fallbackUnwindFrame
  dsimp only
  split
  · next hfp => exact .noFrame hfp
  · next hfp =>
    split
    · next raLocation newSp hra hsp =>
      have hplace := eq_add_of_checkedAdd64 hra
      have hloc := checkedAdd64_eq_some.mp hra
      split
      · exact .refused _ hfp (Or.inr rfl)
      · next hup =>
        obtain ⟨v, hread⟩ := read_spec readStack (B.fp regs) w
        rw [hread]
        cases v with
        | none => exact .noSavedFp hfp
        | some newFp =>
          dsimp only
          split
          · exact .chainRefused newFp hfp
          · next hchain =>
            rw [hplace] at hloc ⊢
            refine fallbackReturn_run currentIp
              ⟨hfp, hloc, checkedAdd64_eq_some.mp hsp, UInt64.not_le.mp hup, ?_⟩ rfl
            by_cases hz : newFp = 0
            · exact Or.inl hz
            · exact Or.inr (UInt64.not_le.mp (fun hle => hchain ⟨hz, hle⟩))
    · exact .refused _ hfp (Or.inl rfl)

variable (B regs w) in
/-- How a frame-pointer step ends: where it stays, with a blame for a failed read
of its own, or at the caller whose return address it has read behind the saved
frame pointer. -/
inductive FallbackOutcome : Outcome Regs (Option UInt64) → Prop where
  | stays (rs : List StackRead) (r : Except Error (Option UInt64)) (hr : ∀ ra, r ≠ .ok (some ra))
    (hblame : ∀ addr, r = .error (.couldNotReadStack addr) → (addr, none) ∈ rs) :
    FallbackOutcome (r, regs, { w with reads := rs ++ w.reads })
  | caller (word newSp newFp : UInt64) (hz : B.strip regs word ≠ 0) :
    FallbackOutcome (.ok (some (B.strip regs word)),
      B.fallback regs (B.strip regs word) word newSp newFp,
      { w with reads := (B.fp regs + 8, some word) :: (B.fp regs, some newFp) :: w.reads })

theorem fallbackUnwindFrame_outcome (currentIp : UInt64) (regs : Regs) (readStack : Reader)
    (w : World) :
    FallbackOutcome B regs w (B.fallbackUnwindFrame currentIp regs readStack w) := by
  have hrun := fallbackUnwindFrame_run (B := B) currentIp regs readStack w
  generalize B.fallbackUnwindFrame currentIp regs readStack w = out at hrun
  cases hrun with
  | noFrame => exact .stays _ _ (by simp) (by simp)
  | refused err hfp herr =>
    refine .stays _ _ (by simp) ?_
    intro addr h
    cases h
    simp at herr
  | noSavedFp => exact .stays _ _ (by simp) (by simp)
  | chainRefused => exact .stays _ _ (by simp) (by simp)
  | noReturnAddress => exact .stays _ _ (by simp) (by simp)
  | chainEnds => exact .stays _ _ (by simp) (by simp)
  | caller word hpair hz => exact .caller word _ _ hz

theorem FallbackOutcome.atomic (h : FallbackOutcome B regs w out) : Atomic regs w out := by
  cases h with
  | stays rs r hr hblame => exact Atomic.same rs rfl hblame
  | caller word newSp newFp hz =>
    exact ⟨fun h => absurd rfl (h _), [(B.fp regs + 8, some word), (B.fp regs, some newFp)], rfl,
      by simp⟩

/-- A step of libunwind that is not reported as a caller leaves the registers. -/
theorem steppedResult_atomic {signalFrame : Bool} {newIp : UInt64} {extras : Extras}
    {r : Except Error (Option UInt64)} {regs' : Regs}
    (h : B.steppedResult modules frame signalFrame newIp extras regs = (r, regs')) :
    ((∀ ra, r ≠ .ok (some ra)) → regs' = regs) ∧ ∀ addr, r ≠ .error (.couldNotReadStack addr) := by
  unfold steppedResult at h
  dsimp only at h
  split at h
  · obtain ⟨rfl, rfl⟩ := Prod.mk.inj h
    exact ⟨fun _ => rfl, by simp⟩
  · split at h
    · obtain ⟨rfl, rfl⟩ := Prod.mk.inj h
      exact ⟨fun _ => rfl, by simp⟩
    · split at h
      · obtain ⟨rfl, rfl⟩ := Prod.mk.inj h
        exact ⟨fun _ => rfl, by simp⟩
      · obtain ⟨rfl, rfl⟩ := Prod.mk.inj h
        exact ⟨fun hne => absurd rfl (hne _), by simp⟩

theorem stepError_blame {err : LibunwindError} {ctx : UnwindCtx Raw} {addr : UInt64}
    (h : stepError err ctx = .couldNotReadStack addr) : ctx.lastFailedReadAddr = some addr := by
  unfold stepError at h
  split at h
  · next b _ hlast =>
    rw [hlast, Error.couldNotReadStack.inj h]
  · cases h
  · cases h

theorem finishStep_atomic {r : Except LibunwindError StepOutcome} {ctx : UnwindCtx Raw}
    {e : UnwindEnv} (hs : Since e w ctx) : Atomic regs w (B.finishStep modules frame regs r ctx) := by
  obtain ⟨rs, hrs, hblame⟩ := hs.reads
  cases r with
  | error err =>
    refine Atomic.same rs hrs ?_
    intro addr h
    exact hblame addr (stepError_blame (Except.error.inj h))
  | ok outcome =>
    cases outcome with
    | endOfStack => exact Atomic.same rs hrs (by simp)
    | stepped newIp extras =>
      rcases hr : B.steppedResult modules frame
        (modules.isSignalFrame ctx.world.caches (B.lookupIp regs frame)) newIp extras regs with ⟨r, regs'⟩
      obtain ⟨hregs, herr⟩ := steppedResult_atomic hr
      rw [finishStep, hr]
      exact ⟨hregs, rs, hrs, fun addr h => absurd h (herr addr)⟩

theorem unwindFrame_atomic (h : B.unwindFrame P modules readStack frame regs w = some out) :
    Atomic regs w out := by
  rcases unwindFrame_cases h with ⟨err, -, rfl⟩ | ⟨-, rfl⟩ | ⟨-, r, ctx, hn, rfl⟩
  · exact Atomic.same [] rfl (by simp)
  · exact (fallbackUnwindFrame_outcome ..).atomic
  · exact finishStep_atomic (nativeStep_since hn)

end Backend

namespace UnwindIterator

variable {Regs Raw : Type} {B : Backend Regs Raw} {P : Process} {modules : ModuleSet}
  {it it' : UnwindIterator Regs} {readStack : Reader} {w w' : World}

/-- What a call of `next` did: the first frame, the end again, or a step. -/
theorem next_cases {U : FrameUnwinder Regs} {r : Except Error (Option FrameAddress)}
    (h : next U readStack it w = some (r, it', w')) :
    (∃ pc, it.state = .initial pc ∧ r = .ok (some (.instructionPointer pc)) ∧
      it' = { it with state := .unwinding (.instructionPointer pc) } ∧ w' = w) ∨
    (it.state = .done ∧ r = .ok none ∧ it' = it ∧ w' = w) ∨
    ∃ frame out regs', it.state = .unwinding frame ∧
      U.unwindFrame readStack frame it.regs w = some (out, regs', w') ∧
      ((∃ err, out = .error err ∧ r = .error err ∧ it' = { it with regs := regs' }) ∨
       ∃ ra, out = .ok ra ∧
        r = .ok (advance (U.isSignalFrame w'.caches frame regs') ra).1 ∧
        it' = ⟨(advance (U.isSignalFrame w'.caches frame regs') ra).2, regs'⟩) := by
  unfold next at h
  cases hs : it.state with
  | initial pc =>
    rw [hs] at h
    simp only [Option.some.injEq, Prod.mk.injEq] at h
    obtain ⟨rfl, rfl, rfl⟩ := h
    exact Or.inl ⟨pc, rfl, rfl, rfl, rfl⟩
  | done =>
    rw [hs] at h
    simp only [Option.some.injEq, Prod.mk.injEq] at h
    obtain ⟨rfl, rfl, rfl⟩ := h
    exact Or.inr (Or.inl ⟨rfl, rfl, rfl, rfl⟩)
  | unwinding frame =>
    rw [hs] at h
    dsimp only at h
    refine Or.inr (Or.inr ?_)
    cases hu : U.unwindFrame readStack frame it.regs w with
    | none =>
      rw [hu] at h
      cases h
    | some out =>
      obtain ⟨out, regs', w₁⟩ := out
      rw [hu] at h
      cases out with
      | error err =>
        simp only [Option.some.injEq, Prod.mk.injEq] at h
        obtain ⟨rfl, rfl, rfl⟩ := h
        exact ⟨frame, _, regs', rfl, hu, Or.inl ⟨err, rfl, rfl, rfl⟩⟩
      | ok ra =>
        simp only [Option.some.injEq, Prod.mk.injEq] at h
        obtain ⟨rfl, rfl, rfl⟩ := h
        exact ⟨frame, _, regs', rfl, hu, Or.inr ⟨ra, rfl, rfl, rfl⟩⟩

/-- A call that fails leaves the iterator as it was, and a read that it blames
is one of its own that failed. -/
theorem next_error {err : Error}
    (h : next (B.unwinder P modules) readStack it w = some (.error err, it', w')) :
    it' = it ∧ ∃ rs, w'.reads = rs ++ w.reads ∧
      ∀ addr, err = .couldNotReadStack addr → (addr, none) ∈ rs := by
  rcases next_cases h with ⟨pc, -, hr, -⟩ | ⟨-, hr, -⟩ | ⟨frame, out, regs', -, hu, hout⟩
  · cases hr
  · cases hr
  · rcases hout with ⟨e, rfl, hr, rfl⟩ | ⟨ra, -, hr, -⟩
    · obtain rfl := Except.error.inj hr
      obtain ⟨hregs, rs, hrs, hblame⟩ := Backend.unwindFrame_atomic hu
      have hregs : regs' = it.regs := hregs (by simp)
      refine ⟨by rw [hregs], rs, hrs, ?_⟩
      intro addr he
      exact hblame addr (congrArg Except.error he)
    · cases hr

/-- The end of the stack is returned only in the final state. -/
theorem next_none (h : next (B.unwinder P modules) readStack it w = some (.ok none, it', w')) :
    it'.state = .done := by
  rcases next_cases h with ⟨pc, -, hr, -⟩ | ⟨hs, -, rfl, -⟩ | ⟨frame, out, regs', -, -, hout⟩
  · cases hr
  · exact hs
  · rcases hout with ⟨e, -, hr, -⟩ | ⟨ra, -, hr, rfl⟩
    · cases hr
    · unfold advance at hr ⊢
      split at hr
      · cases hr
      · rfl

/-- In the final state nothing happens any more. -/
theorem next_done {U : FrameUnwinder Regs} (h : it.state = .done) (readStack : Reader) (w : World) :
    next U readStack it w = some (.ok none, it, w) := by
  unfold next
  rw [h]

end UnwindIterator

end Unwinder
