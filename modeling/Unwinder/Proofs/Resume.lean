import Unwinder.Aarch64
import Unwinder.Proofs.Atomicity
import Unwinder.Proofs.Lookup
import Unwinder.X8664

namespace Unwinder
open Lib

/-- The reader of a memory that does not change. -/
def steady (mem : UInt64 → Option UInt64) : Reader := fun _ addr => mem addr

/-- The second caches are the first, or the first after one request for the
proc-info of an address that has some. -/
def Asked (modules : ModuleSet) (ip : UInt64) (c c' : Caches) : Prop :=
  c' = c ∨ (OnDwarfPath modules ip ∧ c' = (procInfoAt modules ip c).2)

namespace Asked

variable {modules : ModuleSet} {ip : UInt64} {c c' c'' : Caches}

theorem trans (h : Asked modules ip c c') (h' : Asked modules ip c' c'') :
    Asked modules ip c c'' := by
  rcases h with rfl | ⟨hp, rfl⟩
  · exact h'
  · rcases h' with rfl | ⟨-, rfl⟩
    · exact Or.inr ⟨hp, rfl⟩
    · exact Or.inr ⟨hp, by rw [procInfoAt_again]⟩

theorem procInfo (h : Asked modules ip c c') :
    procInfoAt modules ip c' = procInfoAt modules ip c := by
  rcases h with rfl | ⟨-, rfl⟩
  · rfl
  · exact procInfoAt_again modules ip c

end Asked

/-- Contexts that differ only in the record and in one request for proc-info. -/
structure Alike {Raw : Type} (env : UnwindEnv) (ctx ctx' : UnwindCtx Raw) : Prop where
  regs : ctx'.regs = ctx.regs
  failed : ctx'.lastFailedReadAddr = ctx.lastFailedReadAddr
  error : ctx'.unwindInfoError = ctx.unwindInfoError
  caches : Asked env.modules env.lookupIp ctx.world.caches ctx'.world.caches

section Accessors

variable {Raw : Type} {access : RegAccess Raw} {env : UnwindEnv} {ctx ctx' : UnwindCtx Raw}

end Accessors

namespace Backend

variable {Regs Raw : Type} (B : Backend Regs Raw) (P : Process) (modules : ModuleSet)

variable {B P modules} {frame : FrameAddress} {regs : Regs} {readStack : Reader} {w v : World}
  {mem : UInt64 → Option UInt64}

theorem accessors_asked_le {access : RegAccess Raw} {e : UnwindEnv} {o : Accessor}
    {ctx ctx' : UnwindCtx Raw} {a : o.Answer} (h : accessors access e o ctx = some (a, ctx')) :
    ctx.world.asked ≤ ctx'.world.asked := by
  rcases accessors_touch h with ⟨ht, -⟩ | ⟨addr, hread, -⟩
  · cases ht with
    | untouched he => rw [he]
    | read addr he => rw [he]; exact Nat.le_refl _
    | asked he => rw [he]; exact Nat.le_succ _
  · have hw : ctx'.world = (e.readFn.read addr ctx.world).2 := by rw [hread]
    rw [hw]
    exact Nat.le_refl _

def isFindProcInfo : Accessor → Prop
  | .findProcInfo .. => True
  | _ => False

theorem accessors_asked_lt {access : RegAccess Raw} {e : UnwindEnv} {o : Accessor}
    {ctx ctx' : UnwindCtx Raw} {a : o.Answer} (hf : isFindProcInfo o)
    (h : accessors access e o ctx = some (a, ctx')) : ctx.world.asked < ctx'.world.asked := by
  cases o with
  | findProcInfo ip pi need =>
    simp only [accessors, findProcInfo] at h
    split at h
    · obtain ⟨-, rfl⟩ := Prod.mk.inj (Option.some.inj h)
      exact Nat.lt_succ_self _
    · obtain ⟨-, rfl⟩ := Prod.mk.inj (Option.some.inj h)
      exact Nat.lt_succ_self _
    · cases h
  | _ => cases hf

/-- A libunwind that asks for proc-info on every way to a successful step has
asked for it when one has succeeded. -/
theorem nativeStep_asks {lookupIp newIp : UInt64} {extras : Extras} {ctx : UnwindCtx Raw}
    (h : ∀ c, (P.libunwind.step c).Passes isFindProcInfo (fun r => 0 < r.1))
    (hn : B.nativeStep P modules lookupIp regs readStack w = some (.ok (.stepped newIp extras), ctx)) :
    w.asked < ctx.world.asked := by
  let e := env P modules lookupIp readStack
  have hle : ∀ (o : Accessor) (s : UnwindCtx Raw) (a : o.Answer) s', w.asked ≤ s.world.asked →
      accessors B.accessReg e o s = some (a, s') → w.asked ≤ s'.world.asked :=
    fun o s a s' hs ho => Nat.le_trans hs (accessors_asked_le ho)
  have hlt : ∀ (o : Accessor) (s : UnwindCtx Raw) (a : o.Answer) s', w.asked < s.world.asked →
      accessors B.accessReg e o s = some (a, s') → w.asked < s'.world.asked :=
    fun o s a s' hs ho => Nat.lt_of_lt_of_le hs (accessors_asked_le ho)
  obtain ⟨initRet, cursor, ctx₁, stepRet, cursor₁, ctx₂, hinit, -, hstep, hpos, hread⟩ :=
    nativeStep_stepped hn
  have hj := Interaction.run_inv (fun s => w.asked ≤ s.world.asked) hle (Nat.le_refl _) hinit
  have hi := Interaction.run_passes (fun s => w.asked ≤ s.world.asked)
    (fun s => w.asked < s.world.asked) hle
    (fun o s a s' hs hp ho => Nat.lt_of_le_of_lt hs (accessors_asked_lt hp ho)) hlt
    (h cursor) hj hstep hpos
  exact Interaction.run_inv (fun s => w.asked < s.world.asked) hlt hi hread

theorem FallbackOutcome.caches {out : Outcome Regs (Option UInt64)}
    (h : FallbackOutcome B regs w out) : out.2.2.caches = w.caches := by
  cases h with
  | stays => rfl
  | caller => rfl

theorem finishStep_world {r : Except LibunwindError StepOutcome} {ctx : UnwindCtx Raw} :
    (B.finishStep modules frame regs r ctx).2.2 = ctx.world := by
  cases r with
  | error err => rfl
  | ok outcome => cases outcome <;> rfl

/-- A step of any kind leaves the caches as they were, or asked once. -/
theorem unwindFrame_asked {out : Outcome Regs (Option UInt64)}
    (h : B.unwindFrame P modules readStack frame regs v = some out) :
    Asked modules (B.lookupIp regs frame) v.caches out.2.2.caches := by
  rcases unwindFrame_cases h with ⟨err, -, rfl⟩ | ⟨-, rfl⟩ | ⟨hp, r, ctx, hn, rfl⟩
  · exact Or.inl rfl
  · exact Or.inl (fallbackUnwindFrame_outcome ..).caches
  · rw [finishStep_world]
    rcases (nativeStep_since hn).caches with ⟨-, hc⟩ | ⟨-, hc⟩
    · exact Or.inl hc
    · exact Or.inr ⟨hp, hc⟩

end Backend

namespace UnwindIterator

variable {Regs Raw : Type}

variable {B : Backend Regs Raw} {P : Process} {modules : ModuleSet} {it it' : UnwindIterator Regs}
  {readStack : Reader} {w v v' : World} {mem : UInt64 → Option UInt64}

theorem next_aborted {U : FrameUnwinder Regs} {frame : FrameAddress}
    (hs : it.state = .unwinding frame) (hu : U.unwindFrame readStack frame it.regs w = none) :
    next U readStack it w = none := by
  unfold next
  simp only [hs, hu]

theorem next_failed {U : FrameUnwinder Regs} {frame : FrameAddress} {err : Error} {regs' : Regs}
    (hs : it.state = .unwinding frame)
    (hu : U.unwindFrame readStack frame it.regs w = some (.error err, regs', v)) :
    next U readStack it w = some (.error err, { it with regs := regs' }, v) := by
  unfold next
  simp only [hs, hu]

theorem next_stepped {U : FrameUnwinder Regs} {frame : FrameAddress} {ra : Option UInt64}
    {regs' : Regs} (hs : it.state = .unwinding frame)
    (hu : U.unwindFrame readStack frame it.regs w = some (.ok ra, regs', v)) :
    next U readStack it w =
      some (.ok (advance (U.isSignalFrame v.caches frame regs') ra).1,
        ⟨(advance (U.isSignalFrame v.caches frame regs') ra).2, regs'⟩, v) := by
  unfold next
  simp only [hs, hu]

end UnwindIterator

section Runs

open UnwindIterator

def noProcInfo : UnwProcInfo := ⟨0, 0, 0, 0, 0, 0, 0, 0, none⟩

def askProcInfo (ip : UInt64) : NativeCall (Int × UnwProcInfo) :=
  Interaction.ask (Accessor.findProcInfo ip noProcInfo true)

def askMem (addr : UInt64) : NativeCall (Int × UInt64) :=
  Interaction.ask (Accessor.accessMem addr 0 false)

def askReg (reg : Int) : NativeCall (Int × UInt64) :=
  Interaction.ask (Accessor.accessReg reg 0 false)

def freshWorld : World := ⟨fun _ => .new, [], 0⟩

/-- A libunwind whose every function keeps its return address on top of the
stack. The cursor is the instruction pointer and the stack pointer. -/
def topOfStack (regIp regSp : Int) : Libunwind where
  Cursor := UInt64 × UInt64
  initRemote := do
    let (ret, sp) ← askReg regSp
    return (ret, (0, sp))
  step cursor := do
    let (found, _) ← askProcInfo 0
    if found < 0 then return (found, cursor)
    else
      let (ret, ra) ← askMem cursor.2
      if ret < 0 then return (ret, cursor) else return (1, (ra, cursor.2 + 8))
  getReg cursor reg val :=
    if reg = regIp then return (0, cursor.1, cursor)
    else if reg = regSp then return (0, cursor.2, cursor)
    else return (-3, val, cursor)

def topOfStackX8664 : Process := ⟨topOfStack X8664.UNW_REG_IP X8664.UNW_REG_SP, fun _ => 0⟩

def twoFunctionSet : ModuleSet := ModuleSet.new.add twoFunctions

/-- A stack with the return addresses of two calls between the two functions. -/
def callStack (addr : UInt64) : Option UInt64 :=
  if addr = 0x9000 then some 0x1008
  else if addr = 0x9008 then some 0x1114
  else if addr = 0x9010 then some 0
  else none

def callUnwinder : FrameUnwinder X8664.UnwindRegs :=
  X8664.backend.unwinder topOfStackX8664 twoFunctionSet

end Runs

end Unwinder
