import Mathlib.Logic.Function.Basic
import Unwinder.FunctionDetails
import Unwinder.Lib.Interaction

namespace Unwinder
open Lib Ffi

/-- What libunwind is told about a function. The pointer to the cached
descriptor is kept as what it points at. -/
structure UnwProcInfo where
  startIp : UInt64
  endIp : UInt64
  lsda : UInt64
  handler : UInt64
  gp : UInt64
  flags : UInt64
  format : Int
  unwindInfoSize : Int
  unwindInfo : Option DwarfCieInfo

/-- A call of libunwind into the accessor table. What a pointer argument points
at is passed along and comes back with the answer. -/
inductive Accessor where
  | findProcInfo (ip : UInt64) (pi : UnwProcInfo) (needUnwindInfo : Bool)
  | putUnwindInfo (pi : UnwProcInfo)
  | getDynInfoListAddr (val : UInt64)
  | accessMem (addr val : UInt64) (write : Bool)
  | accessReg (reg : Int) (val : UInt64) (write : Bool)
  | accessFpreg (reg : Int) (val : UInt64 × UInt64) (write : Bool)

abbrev Accessor.Answer : Accessor → Type
  | .findProcInfo .. => Int × UnwProcInfo
  | .putUnwindInfo .. => Unit
  | .getDynInfoListAddr .. => Int
  | .accessMem .. | .accessReg .. => Int × UInt64
  | .accessFpreg .. => Int

/-- One read of the caller's stack reader, with its answer. -/
abbrev StackRead := UInt64 × Option UInt64

/-- The caller's reader; it may remember what it was asked before. -/
abbrev Reader := List StackRead → UInt64 → Option UInt64

/-- What outlives one unwinding step: the function caches, and for the record
the reads so far, latest first, and how often proc-info was asked for. -/
structure World where
  caches : Caches
  reads : List StackRead
  asked : Nat

def Reader.read (readStack : Reader) (addr : UInt64) (w : World) : Option UInt64 × World :=
  let answer := readStack w.reads addr
  (answer, { w with reads := (addr, answer) :: w.reads })

/-- The part of the per-call context that no callback changes. `memory` is the
local memory around the mirrored sections. -/
structure UnwindEnv where
  modules : ModuleSet
  lookupIp : UInt64
  readFn : Reader
  memory : Nat → UInt8

/-- The per-call context, with the registers that `regs_ptr` points at. -/
structure UnwindCtx (Raw : Type) where
  regs : Raw
  lastFailedReadAddr : Option UInt64
  unwindInfoError : Option UnwindInfoError
  world : World

/-- The details for an address, from the cache of its module or parsed. -/
def procInfoAt (modules : ModuleSet) (ip : UInt64) (caches : Caches) :
    Res UnwindInfoError FunctionDetails × Caches :=
  match modules.findModule ip with
  | none => (.err (.moduleNotFound ip), caches)
  | some m =>
    let r := getOrParseFunctionDetails m ip (caches m.functionCache)
    (r.1, Function.update caches m.functionCache r.2)

def DwarfCieInfo.size : Int := 80

/-- Answers with the details of the looked-up address, whatever address
libunwind asks about. A panic in a callback aborts. -/
def findProcInfo {Raw : Type} (env : UnwindEnv) (pi : UnwProcInfo) (ctx : UnwindCtx Raw) :
    Option ((Int × UnwProcInfo) × UnwindCtx Raw) :=
  let (result, caches) := procInfoAt env.modules env.lookupIp ctx.world.caches
  let world := { ctx.world with caches := caches, asked := ctx.world.asked + 1 }
  match result with
  | .ok details =>
    let info : UnwProcInfo :=
      { startIp := details.startIp
        endIp := details.endIp
        lsda := details.lsda
        handler := details.handler
        gp := 0
        flags := 0
        format := UNW_INFO_FORMAT_REMOTE_TABLE
        unwindInfoSize := DwarfCieInfo.size
        unwindInfo := some details.cieInfo }
    some ((UNW_ESUCCESS, info), { ctx with world := world })
  | .err err =>
    some ((-UNW_ENOINFO, pi), { ctx with unwindInfoError := some err, world := world })
  | .panic => none

/-- A byte of a mirrored section, or of the memory behind it. -/
def localByte (memory : Nat → UInt8) (b : Buffer) (off : Nat) : UInt8 :=
  b.bytes.data[off]?.getD (memory (b.ptr + off))

/-- The eight bytes at an offset of a mirrored section. -/
def localWord (memory : Nat → UInt8) (b : Buffer) (off : Nat) : UInt64 :=
  UInt64.ofNat (leValue ((List.range 8).map (fun i => localByte memory b (off + i))))

def accessMem {Raw : Type} (env : UnwindEnv) (addr val : UInt64) (write : Bool)
    (ctx : UnwindCtx Raw) : (Int × UInt64) × UnwindCtx Raw :=
  if write then ((-UNW_EINVAL, val), ctx)
  else match env.modules.lookupLocal addr with
    | some (b, off) => ((UNW_ESUCCESS, localWord env.memory b off), ctx)
    | none =>
      match env.readFn.read addr ctx.world with
      | (some v, world) => ((UNW_ESUCCESS, v), { ctx with world := world })
      | (none, world) =>
        ((-UNW_EINVAL, val), { ctx with lastFailedReadAddr := some addr, world := world })

/-- How a register is read or written in the raw registers. -/
abbrev RegAccess (Raw : Type) := Raw → Int → UInt64 → Bool → (Int × UInt64) × Raw

def accessReg {Raw : Type} (access : RegAccess Raw) (reg : Int) (val : UInt64) (write : Bool)
    (ctx : UnwindCtx Raw) : (Int × UInt64) × UnwindCtx Raw :=
  let (answer, regs) := access ctx.regs reg val write
  (answer, { ctx with regs := regs })

/-- The accessor table. -/
def accessors {Raw : Type} (access : RegAccess Raw) (env : UnwindEnv) :
    (o : Accessor) → UnwindCtx Raw → Option (o.Answer × UnwindCtx Raw)
  | .findProcInfo _ pi _, ctx => findProcInfo env pi ctx
  | .putUnwindInfo _, ctx => some ((), ctx)
  | .getDynInfoListAddr _, ctx => some (-UNW_ENOINFO, ctx)
  | .accessMem addr val write, ctx => some (accessMem env addr val write ctx)
  | .accessReg reg val write, ctx => some (accessReg access reg val write ctx)
  | .accessFpreg _ _ _, ctx => some (-UNW_EBADREG, ctx)

end Unwinder
