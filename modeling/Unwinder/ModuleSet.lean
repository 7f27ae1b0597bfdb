import Unwinder.Module

namespace Unwinder
open Lib

/-- The caches of all modules, by the names that the modules hold. -/
abbrev Caches := Nat → FunctionCache

/-- A mirrored section, with the module that keeps its bytes alive. -/
structure RedirectEntry where
  mirror : LocalSection
  owner : ModuleData

structure ModuleSet where
  modules : OrderedMap UInt64 ModuleData
  redirects : OrderedMap UInt64 RedirectEntry

namespace ModuleSet

def new : ModuleSet := ⟨.empty, .empty⟩

def addRedirects (data : ModuleData) (redirects : OrderedMap UInt64 RedirectEntry) :
    OrderedMap UInt64 RedirectEntry :=
  data.localSections.foldl (fun r sec => r.insert sec.avmaStart ⟨sec, data⟩) redirects

def removeRedirects (data : ModuleData) (redirects : OrderedMap UInt64 RedirectEntry) :
    OrderedMap UInt64 RedirectEntry :=
  data.localSections.foldl (fun r sec => r.erase sec.avmaStart) redirects

def add (s : ModuleSet) (data : ModuleData) : ModuleSet where
  modules := s.modules.insert data.avmaRange.start data
  redirects := addRedirects data s.redirects

def remove (s : ModuleSet) (avmaStart : UInt64) : ModuleSet :=
  match s.modules.get? avmaStart with
  | some data => ⟨s.modules.erase avmaStart, removeRedirects data s.redirects⟩
  | none => s

def maxKnownCodeAddress (s : ModuleSet) : UInt64 :=
  (s.modules.values.map (fun m => m.avmaRange.stop)).foldl max 0

/-- The module whose range contains an address. -/
def findModule (s : ModuleSet) (addr : UInt64) : Option ModuleData :=
  match s.modules.lastLE addr with
  | some (_, data) =>
    if data.avmaRange.start ≤ addr ∧ addr < data.avmaRange.stop then some data else none
  | none => none

def hasUnwindInfo (s : ModuleSet) (addr : UInt64) : Bool :=
  match s.findModule addr with
  | some m => m.table.entryCount ≠ 0 && m.ehFrameHdrLocal.isSome && m.ehFrameLocal.isSome
  | none => false

def containsAddress (s : ModuleSet) (addr : UInt64) : Bool := (s.findModule addr).isSome

def unwindInfoError (s : ModuleSet) (addr : UInt64) : Option UnwindInfoError := do
  let m ← s.findModule addr
  m.ehFrameHdrError.map (.invalidEhFrameHdr m.name)

/-- Whether the cached function at an address is a signal frame. -/
def isSignalFrame (s : ModuleSet) (caches : Caches) (addr : UInt64) : Bool :=
  match s.findModule addr with
  | none => false
  | some m =>
    let cache := caches m.functionCache
    if cache.poisoned then false
    else match cache.entries.lastLE addr with
      | some (_, details) => addr < details.endIp && details.signalFrame
      | none => false

/-- The mirror that serves an 8-byte read at an address, and the offset into it. -/
def lookupLocal (s : ModuleSet) (addr : UInt64) : Option (Buffer × Nat) :=
  match s.redirects.lastLE addr with
  | some (_, entry) =>
    let sec := entry.mirror
    if sec.avmaStart ≤ addr ∧ saturatingAdd addr 8 ≤ sec.avmaEnd then
      some (sec.localPtr, (addr - sec.avmaStart).toNat)
    else none
  | none => none

/-- Cloning adds the registered modules to a new set, in address order. -/
def clone (s : ModuleSet) : ModuleSet := s.modules.values.foldl add new

end ModuleSet

end Unwinder
