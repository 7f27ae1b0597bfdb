import Unwinder.FunctionDetails

namespace Unwinder
open Lib

/-- A shared object: what it holds, and which allocation it is. -/
structure Arc (α : Type) where
  id : Nat
  val : α
deriving DecidableEq

/-- Where a caller of `get_or_parse_function_details` stands. -/
inductive Caller where
  | idle
  | missed (ip : UInt64)
  | parsed (ip : UInt64) (details : Arc FunctionDetails)

/-- A call that has ended: who made it, for which address, and with what. -/
structure Return where
  caller : Nat
  ip : UInt64
  result : Res UnwindInfoError (Arc FunctionDetails)

/-- Any number of callers of one module: its cache behind the lock, each
caller's place, the next allocation, and the calls that have ended. -/
structure Sharing where
  cache : OrderedMap UInt64 (Arc FunctionDetails)
  callers : Nat → Caller
  nextId : Nat
  returned : List Return

namespace Sharing

/-- The steps of a call. The lock makes the check and the insertion atomic; no
code under it can panic, so it is never poisoned. -/
inductive Action where
  | check (t : Nat) (ip : UInt64)
  | parse (t : Nat)
  | insert (t : Nat)

def start : Sharing := ⟨.empty, fun _ => .idle, 0, []⟩

def setCaller (s : Sharing) (t : Nat) (c : Caller) : Sharing :=
  { s with callers := fun u => if u = t then c else s.callers u }

/-- The caller's call ends with a result. -/
def endCall (s : Sharing) (t : Nat) (ip : UInt64)
    (result : Res UnwindInfoError (Arc FunctionDetails)) : Sharing :=
  { s.setCaller t .idle with returned := ⟨t, ip, result⟩ :: s.returned }

def cachedArc (cache : OrderedMap UInt64 (Arc FunctionDetails)) (ip : UInt64) :
    Option (Arc FunctionDetails) :=
  match cache.lastLE ip with
  | some (_, details) => if ip < details.val.endIp then some details else none
  | none => none

/-- One step; a step its caller is not ready for does nothing. -/
def step (m : ModuleData) (s : Sharing) : Action → Sharing
  | .check t ip =>
    match s.callers t with
    | .idle =>
      match cachedArc s.cache ip with
      | some details => s.endCall t ip (.ok details)
      | none => s.setCaller t (.missed ip)
    | _ => s
  | .parse t =>
    match s.callers t with
    | .missed ip =>
      match parseFunctionDetails m ip with
      | .ok details =>
        { s.setCaller t (.parsed ip ⟨s.nextId, details⟩) with nextId := s.nextId + 1 }
      | .err err => s.endCall t ip (.err err)
      | .panic => s.endCall t ip .panic
    | _ => s
  | .insert t =>
    match s.callers t with
    | .parsed ip details =>
      { s.endCall t ip (.ok details) with cache := s.cache.insert details.val.startIp details }
    | _ => s

end Sharing

end Unwinder
