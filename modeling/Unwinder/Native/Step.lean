import Mathlib.Data.List.FinRange
import Unwinder.Native.Cfi
import Unwinder.Native.Expr

namespace Unwinder.Native
open Lib Ffi

def UNW_INFO_FORMAT_DYNAMIC : Int := 0
def UNW_INFO_FORMAT_TABLE : Int := 1

/-- Goes on behind a negative status, which is handed out. -/
def attempt {α : Type} (x : Code α) : Code (Except Int α) :=
  ExceptT.mk (x.run >>= fun
    | .ok a => pure (.ok (.ok a))
    | .error (.status ret) => pure (.ok (.error ret))
    | .error stop => pure (.error stop))

/-- `struct dwarf_cursor`; `sigcontext` tells whether the cursor around it has the
format of a signal frame. -/
structure DwarfCursor (n : Nat) where
  cfa : UInt64
  ip : UInt64
  loc : Fin n → Loc
  usePrevInstr : Bool
  pi : UnwProcInfo
  sigcontext : Bool

def dwarfGet (loc : Loc) : Code UInt64 :=
  if loc = .null then throw (.status (-UNW_EBADREG))
  else match loc with
    | .reg num => accessReg num.toNat
    | .mem addr => accessMem addr
    | .val value => return value

/-- A cleared `unw_proc_info_t`. -/
def clearedProcInfo : UnwProcInfo where
  startIp := 0
  endIp := 0
  lsda := 0
  handler := 0
  gp := 0
  flags := 0
  format := 0
  unwindInfoSize := 0
  unwindInfo := none

section Step

variable (t : Target) (getReg : DwarfCursor t.numPreservedRegs → UInt64 → Code UInt64)
  (rounds : Nat)

/-- `tdep_fetch_frame`, which only looks at the descriptor. -/
def tdepFetchFrame (c : DwarfCursor t.numPreservedRegs) : DwarfCursor t.numPreservedRegs :=
  { c with sigcontext := (c.pi.unwindInfo.map t.signalFrame).getD false }

/-- The registered dynamic unwind info; the accessors of this crate have none, and
searching that of another table is left out. -/
def unwiFindDynamicProcInfo : Code Int := do
  let ret ← ask (.getDynInfoListAddr 0)
  if ret < 0 then return -UNW_ENOINFO else throw .outside

def fetchProcInfo (c : DwarfCursor t.numPreservedRegs) (ip : UInt64) :
    Code (Int × DwarfCursor t.numPreservedRegs) := do
  let ip := if c.usePrevInstr then ip - 1 else ip
  let _ ← unwiFindDynamicProcInfo
  let (ret, pi) ← ask (.findProcInfo ip clearedProcInfo true)
  let c := { c with pi := pi }
  if ret < 0 then return (ret, c)
  else if pi.format ≠ UNW_INFO_FORMAT_DYNAMIC ∧ pi.format ≠ UNW_INFO_FORMAT_TABLE ∧
      pi.format ≠ UNW_INFO_FORMAT_REMOTE_TABLE then
    return (-UNW_ENOINFO, c)
  else return (ret, tdepFetchFrame t c)

/-- The descriptor is given up where it came from a local table. -/
def putUnwindInfo (pi : UnwProcInfo) : UnwProcInfo :=
  if pi.format = UNW_INFO_FORMAT_TABLE then { pi with unwindInfo := none } else pi

/-- A cleared register state has every column undefined. -/
def RegState.cleared (n : Nat) : RegState n := ⟨0, fun _ => ⟨.undef, 0⟩, ⟨.undef, 0⟩, ⟨.undef, 0⟩⟩

/-- The state that a CIE's program starts from: every register keeps its value,
and the stack pointer is the canonical frame address. -/
def RegState.start (retAddrColumn : UInt64) : RegState t.numPreservedRegs where
  retAddrColumn := retAddrColumn
  reg := Function.update (fun _ => ⟨.same, 0⟩) t.sp ⟨.cfa, 0⟩
  cfaReg := ⟨.same, 0⟩
  cfaOff := ⟨.same, 0⟩

def setupFde (pi : UnwProcInfo) (dci : DwarfCieInfo) : Code (CfiState t.numPreservedRegs) := do
  let s ← runCfiProgram t dci pi (~~~0) dci.cieInstrEnd rounds
    { ip := 0
      addr := dci.cieInstrStart
      argsSize := 0
      rsInitial := .cleared _
      rsCurrent := .start t dci.retAddrColumn
      rsStack := [] }
  return { s with rsInitial := s.rsCurrent, rsStack := [] }

def parseFde (pi : UnwProcInfo) (dci : DwarfCieInfo) (usePrevInstr : Bool) (ip : UInt64)
    (s : CfiState t.numPreservedRegs) : Code (CfiState t.numPreservedRegs) :=
  runCfiProgram t dci pi (ip - if usePrevInstr then 1 else 0) dci.fdeInstrEnd rounds
    { s with ip := pi.startIp, addr := dci.fdeInstrStart, rsStack := [] }

def createStateRecordFor (pi : UnwProcInfo) (dci : DwarfCieInfo) (usePrevInstr : Bool)
    (ip : UInt64) : Code (RegState t.numPreservedRegs) := do
  if pi.format = UNW_INFO_FORMAT_TABLE ∨ pi.format = UNW_INFO_FORMAT_REMOTE_TABLE then
    let s ← setupFde t rounds pi dci
    let s ← parseFde t rounds pi dci usePrevInstr ip s
    return s.rsCurrent
  else if pi.format = UNW_INFO_FORMAT_DYNAMIC then throw (.status (-UNW_ENOINFO))
  else throw (.status (-UNW_EINVAL))

/-- The save locations of the frame. A remote address space caches none. -/
def findRegState (c : DwarfCursor t.numPreservedRegs) :
    Code (Except Int (RegState t.numPreservedRegs) × DwarfCursor t.numPreservedRegs) := do
  let (ret, c) ← fetchProcInfo t c c.ip
  if ret < 0 then return (.error ret, { c with pi := putUnwindInfo c.pi })
  else
    match c.pi.unwindInfo with
    | none => throw .undefined
    | some dci =>
      let rs ← attempt (createStateRecordFor t rounds c.pi dci c.usePrevInstr c.ip)
      return (rs, { c with
        pi := putUnwindInfo c.pi
        usePrevInstr := !t.signalFrame dci })

def evalLocationExpr (c : DwarfCursor t.numPreservedRegs) (stackVal addr : UInt64) : Code Loc := do
  let (len, addr) ← dwarfReadUleb128 addr
  let (val, isRegister) ← dwarfEvalExpr t.dwarfToUnwRegnum (getReg c) rounds stackVal addr len
  return if isRegister then .reg (t.dwarfToUnwRegnum val) else .mem val

/-- The canonical frame address. A rule other than a register is taken for an
expression. -/
def evalCfa (c : DwarfCursor t.numPreservedRegs) (rs : RegState t.numPreservedRegs) :
    Code UInt64 := do
  if rs.cfaReg.place = .reg then
    let cfa ←
      if rs.cfaReg.val = UInt64.ofNat t.sp ∧ c.loc t.sp = .null then pure c.cfa
      else getReg c (t.dwarfToUnwRegnum rs.cfaReg.val)
    return cfa + rs.cfaOff.val
  else
    match ← evalLocationExpr t getReg rounds c 0 rs.cfaReg.val with
    | .reg _ => throw (.status (-UNW_EBADFRAME))
    | loc => return loc.word

/-- The location of one register in the caller's frame, given those that the loop
has come to. A register that is saved in another one gets the location that the
other one has by then; the number of the other one is not checked. -/
def newLoc (c : DwarfCursor t.numPreservedRegs) (rs : RegState t.numPreservedRegs) (cfa : UInt64)
    (locs : Fin t.numPreservedRegs → Loc) (i : Fin t.numPreservedRegs) : Code Loc :=
  let saved := rs.reg i
  match saved.place with
  | .undef => return .null
  | .same => return locs i
  | .cfa => return t.valLoc cfa
  | .cfarel => return .mem (cfa + saved.val)
  | .reg =>
    if h : saved.val.toNat < t.numPreservedRegs then return locs ⟨saved.val.toNat, h⟩
    else throw .undefined
  | .expr => evalLocationExpr t getReg rounds c cfa saved.val
  | .valExpr => do
    let loc ← evalLocationExpr t getReg rounds c cfa saved.val
    return t.valLoc loc.word

def newLocs (c : DwarfCursor t.numPreservedRegs) (rs : RegState t.numPreservedRegs) (cfa : UInt64) :
    List (Fin t.numPreservedRegs) → (Fin t.numPreservedRegs → Loc) →
      Code (Fin t.numPreservedRegs → Loc)
  | [], locs => return locs
  | i :: rest, locs => do
    let loc ← newLoc t getReg rounds c rs cfa locs i
    newLocs c rs cfa rest (Function.update locs i loc)

/-- The frame address and all locations of the caller's frame. -/
def callerLocs (c : DwarfCursor t.numPreservedRegs) (rs : RegState t.numPreservedRegs) :
    Code (UInt64 × (Fin t.numPreservedRegs → Loc)) := do
  let cfa ← evalCfa t getReg rounds c rs
  let locs ← newLocs t getReg rounds c rs cfa (List.finRange _) c.loc
  return (cfa, locs)

/-- The instruction pointer behind a return-address column. No mask for signed
addresses is known to the accessors of this crate, so none is stripped. -/
def returnIp (loc : Loc) : Code UInt64 := if loc = .null then return 0 else dwarfGet loc

def applyRegState (c : DwarfCursor t.numPreservedRegs) (rs : RegState t.numPreservedRegs) :
    Code (Int × DwarfCursor t.numPreservedRegs) := do
  if h : rs.retAddrColumn.toNat < t.numPreservedRegs then
    match ← attempt (callerLocs t getReg rounds c rs) with
    | .error ret => return (ret, c)
    | .ok (cfa, locs) =>
      match ← attempt (returnIp (locs ⟨rs.retAddrColumn.toNat, h⟩)) with
      | .error ret => return (ret, { c with loc := locs, cfa := cfa })
      | .ok ip =>
        let next := { c with loc := locs, cfa := cfa, ip := ip }
        if ip = c.ip ∧ cfa = c.cfa then return (-UNW_EBADFRAME, next)
        else return (if ip ≠ 0 then 1 else 0, next)
  else return (-UNW_EBADFRAME, c)

def dwarfStep (c : DwarfCursor t.numPreservedRegs) :
    Code (Int × DwarfCursor t.numPreservedRegs) := do
  match ← findRegState t rounds c with
  | (.error ret, c) => return (ret, c)
  | (.ok rs, c) => applyRegState t getReg rounds c rs

end Step

section Linked

variable {Cursor : Type} (otherwise : Stop → Int × Cursor)

/-- Ends a call into libunwind. What happens where the code comes to no value is
not said here. -/
def returning (x : Code (Int × Cursor)) : NativeCall (Int × Cursor) := do
  match ← x.run with
  | .ok r => return r
  | .error stop => return otherwise stop

/-- Ends the read of a register: its value, or the status of a failure. -/
def returningReg (x : Code UInt64) (val : UInt64) : NativeCall (Int × UInt64) := do
  match ← x.run with
  | .ok v => return (0, v)
  | .error (.status ret) => return (ret, val)
  | .error stop => return ((otherwise stop).1, val)

end Linked

end Unwinder.Native
