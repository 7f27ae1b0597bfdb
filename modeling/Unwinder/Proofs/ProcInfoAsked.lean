import Unwinder.Proofs.SignalFrames
import Unwinder.Proofs.StepOutcomes

namespace Unwinder.Native.X8664
open Lib Interaction Ffi Unwinder.X8664

section Asked

variable {t : Target} {getReg : DwarfCursor t.numPreservedRegs → UInt64 → Code UInt64} {rounds : Nat}
  {c : DwarfCursor t.numPreservedRegs}

theorem unwiFindDynamicProcInfo_answered :
    Meets CrateAnswer Backend.isFindProcInfo (fun r => r = .ok (-UNW_ENOINFO)) unwiFindDynamicProcInfo.run := by
  refine Or.inr fun ret (hret : ret < 0) => ?_
  change Meets CrateAnswer Backend.isFindProcInfo _
    (if ret < 0 then (pure (-UNW_ENOINFO) : Code Int) else throw .outside).run
  rw [if_pos hret]
  rfl

theorem fetchProcInfo_asks (ip : UInt64) :
    Meets CrateAnswer Backend.isFindProcInfo (fun _ => False) (fetchProcInfo t c ip).run := by
  refine Meets.bind unwiFindDynamicProcInfo_answered ?_
  rintro r rfl
  exact Or.inl trivial

theorem findRegState_asks :
    Meets CrateAnswer Backend.isFindProcInfo (fun _ => False) (findRegState t rounds c).run :=
  Meets.bind (fetchProcInfo_asks c.ip) (fun _ h => h.elim)

/-- No step comes to an end before it has asked for proc-info. -/
theorem dwarfStep_asks :
    Meets CrateAnswer Backend.isFindProcInfo (fun _ => False) (dwarfStep t getReg rounds c).run :=
  Meets.bind findRegState_asks (fun _ h => h.elim)

end Asked

section Crate

variable {b : Build} {rounds : Nat} {otherwise : Stop → Int × Cursor} {memory : Nat → UInt8}

theorem step_asks (c : Cursor) :
    Meets CrateAnswer Backend.isFindProcInfo (fun _ => False) ((libunwind b rounds otherwise).step c) := by
  refine Meets.bind (q := fun _ => False) ?_ (fun _ h => h.elim)
  exact Meets.bind dwarfStep_asks (fun _ h => h.elim)

theorem initAndStep_asks (regIp : Int) (extraRegs : List Int) :
    Meets CrateAnswer Backend.isFindProcInfo (fun r => ∀ newIp extras, r ≠ .ok (.stepped newIp extras))
      (initAndStep (libunwind b rounds otherwise) regIp extraRegs) := by
  refine Meets.bind (meets_true _) ?_
  rintro ⟨initRet, c⟩ -
  dsimp only
  split
  · intro newIp extras h
    cases h
  · exact Meets.bind (step_asks c) (fun _ h => h.elim)

/-- The vendored libunwind asks for proc-info on every step that succeeds. -/
theorem nativeStep_asked {modules : ModuleSet} {lookupIp : UInt64} {regs : UnwindRegs}
    {readStack : Reader} {w : World} {newIp : UInt64} {extras : Extras} {ctx : UnwindCtx RawRegs}
    (h : X8664.backend.nativeStep (process b rounds otherwise memory) modules lookupIp regs readStack w =
      some (.ok (.stepped newIp extras), ctx)) : w.asked < ctx.world.asked := by
  rcases (initAndStep_asks _ _).rises (fun ctx => ctx.world.asked)
    (fun o s a s' hs => accessors_crateAnswer accessReg_plain hs)
    (fun o s a s' hs => Backend.accessors_asked_le hs)
    (fun o s a s' hp hs => Backend.accessors_asked_lt hp hs) h with hnot | hlt
  · exact absurd rfl (hnot newIp extras)
  · exact hlt

end Crate

end Unwinder.Native.X8664
