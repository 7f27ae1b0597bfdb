import Unwinder.Aarch64
import Unwinder.Lib.Runs
import Unwinder.Proofs.Modules
import Unwinder.Proofs.ReturnAddress
import Unwinder.X8664

namespace Unwinder
open Lib

/-- Every module unwinds by frame pointer. -/
def NoUnwindInfo (modules : ModuleSet) : Prop :=
  ∀ start m, modules.modules.get? start = some m → m.ehFrameHdrError = none ∧
    (m.table.entryCount ≠ 0 && m.ehFrameHdrLocal.isSome && m.ehFrameLocal.isSome) = false

namespace NoUnwindInfo

variable {modules : ModuleSet}

theorem header (h : NoUnwindInfo modules) (addr : UInt64) : modules.unwindInfoError addr = none := by
  unfold ModuleSet.unwindInfoError
  cases hm : modules.findModule addr with
  | none => rfl
  | some m =>
    obtain ⟨start, hs⟩ := ModuleSet.findModule_registered hm
    simp [(h start m hs).1]

theorem info (h : NoUnwindInfo modules) (addr : UInt64) : modules.hasUnwindInfo addr = false := by
  unfold ModuleSet.hasUnwindInfo
  cases hm : modules.findModule addr with
  | none => rfl
  | some m =>
    obtain ⟨start, hs⟩ := ModuleSet.findModule_registered hm
    exact (h start m hs).2

end NoUnwindInfo

namespace Backend

variable {Regs Raw : Type}

theorem unwindFrame_noUnwindInfo {B : Backend Regs Raw} {P : Process} {modules : ModuleSet}
    {readStack : Reader} {frame : FrameAddress} {regs : Regs} {w : World} (h : NoUnwindInfo modules) :
    B.unwindFrame P modules readStack frame regs w =
      some (B.fallbackUnwindFrame (B.currentIp regs frame) regs readStack w) :=
  unwindFrame_framePointer (h.header _) (h.info _)

/-- A step stores the pointers it has found. -/
structure StoresPointers (B : Backend Regs Raw) : Prop where
  stepped : ∀ regs ip extras, B.sp (B.stepped regs ip extras) = extras.newSp
  sp : ∀ regs ra word newSp newFp, B.sp (B.fallback regs ra word newSp newFp) = newSp
  fp : ∀ regs ra word newSp newFp, B.fp (B.fallback regs ra word newSp newFp) = newFp

/-- The caller's frame lies above: its stack pointer is behind the saved pair,
and its frame pointer is higher unless the chain ends there. -/
structure Climbs (B : Backend Regs Raw) (regs regs' : Regs) : Prop where
  frame : B.fp regs ≠ 0
  sp : (B.sp regs').toNat = (B.fp regs).toNat + 16
  up : B.sp regs < B.sp regs'
  chain : B.fp regs' = 0 ∨ B.fp regs < B.fp regs'

variable {B : Backend Regs Raw} {P : Process} {modules : ModuleSet} {readStack : Reader}
  {frame : FrameAddress} {regs : Regs} {w : World}

/-- What a frame-pointer step does: it reads the saved pair at most, ends at a
frame pointer of zero, climbs to a caller, and never stands still. -/
structure WalksUp (B : Backend Regs Raw) (regs : Regs) (w : World)
    (out : Outcome Regs (Option UInt64)) : Prop where
  reads : ∃ rs, out.2.2.reads = rs ++ w.reads ∧
    ∀ p ∈ rs, p.1.toNat = (B.fp regs).toNat ∨ p.1.toNat = (B.fp regs).toNat + 8
  advances : out.1 ≠ .error .didNotAdvance
  ends : B.fp regs = 0 → out.1 = .ok none
  climbs : ∀ ra, out.1 = .ok (some ra) → B.Climbs regs out.2.1

/-- A step that stays where it is. -/
theorem WalksUp.stays {r : Except Error (Option UInt64)} (rs : List StackRead)
    (hrs : ∀ p ∈ rs, p.1.toNat = (B.fp regs).toNat ∨ p.1.toNat = (B.fp regs).toNat + 8)
    (hr : r ≠ .error .didNotAdvance) (hfp : B.fp regs = 0 → r = .ok none)
    (hra : ∀ ra, r ≠ .ok (some ra)) :
    B.WalksUp regs w (r, regs, { w with reads := rs ++ w.reads }) :=
  ⟨⟨rs, rfl, hrs⟩, hr, hfp, fun ra h => absurd h (hra ra)⟩

/-- What the checks say of the reads of a saved pair. -/
theorem SavedPair.reads {newSp newFp : UInt64} (h : SavedPair B regs newSp newFp)
    (answer : Option UInt64) : ∀ p ∈ [(B.fp regs + 8, answer), (B.fp regs, some newFp)],
      p.1.toNat = (B.fp regs).toNat ∨ p.1.toNat = (B.fp regs).toNat + 8 := by
  simp [h.location]

theorem SavedPair.climbs {newSp newFp : UInt64} (hB : B.StoresPointers)
    (h : SavedPair B regs newSp newFp) (ra word : UInt64) :
    B.Climbs regs (B.fallback regs ra word newSp newFp) where
  frame := h.frame
  sp := by rw [hB.sp, h.sp]
  up := by rw [hB.sp]; exact h.up
  chain := by rw [hB.fp]; exact h.chain

theorem fallbackUnwindFrame_walksUp (hB : B.StoresPointers) (currentIp : UInt64) :
    B.WalksUp regs w (B.fallbackUnwindFrame currentIp regs readStack w) := by
  have hrun := fallbackUnwindFrame_run (B := B) currentIp regs readStack w
  generalize B.fallbackUnwindFrame currentIp regs readStack w = out at hrun
  cases hrun with
  | noFrame => exact .stays _ (by simp) (by simp) (fun _ => rfl) (by simp)
  | refused err hfp herr =>
    refine .stays _ (by simp) ?_ (fun h => absurd h hfp) (by simp)
    intro h
    cases h
    simp at herr
  | noSavedFp hfp => exact .stays _ (by simp) (by simp) (fun h => absurd h hfp) (by simp)
  | chainRefused newFp hfp => exact .stays _ (by simp) (by simp) (fun h => absurd h hfp) (by simp)
  | noReturnAddress hpair =>
    exact .stays _ (hpair.reads none) (by simp) (fun h => absurd h hpair.frame) (by simp)
  | chainEnds word hpair =>
    exact .stays _ (hpair.reads (some word)) (by simp) (fun h => absurd h hpair.frame) (by simp)
  | caller word hpair hz =>
    exact ⟨⟨_, rfl, hpair.reads (some word)⟩, by simp, fun h => absurd h hpair.frame,
      fun ra _ => hpair.climbs hB _ word⟩

end Backend

namespace UnwindIterator

variable {Regs Raw : Type}

/-- The results of the calls of a run; after a panic there are none. -/
def results (U : FrameUnwinder Regs) :
    List Reader → UnwindIterator Regs → World → List (Except Error (Option FrameAddress))
  | [], _, _ => []
  | readStack :: readers, it, w =>
    match next U readStack it w with
    | none => []
    | some (r, it, w) => r :: results U readers it w

def isFrame : Except Error (Option FrameAddress) → Bool
  | .ok (some _) => true
  | _ => false

variable (B : Backend Regs Raw) (P : Process) (modules : ModuleSet)

/-- A call returns, reads the saved pair at most, and ends or climbs. -/
def CallClimbs (s : Option (UnwindIterator Regs × World)) (readStack : Reader) : Prop :=
  ∀ it w, s = some (it, w) → ∃ r it' w',
    next (B.unwinder P modules) readStack it w = some (r, it', w') ∧
    r ≠ .error .didNotAdvance ∧
    (∃ rs, w'.reads = rs ++ w.reads ∧ ∀ p ∈ rs,
      p.1.toNat = (B.fp it.regs).toNat ∨ p.1.toNat = (B.fp it.regs).toNat + 8) ∧
    ∀ frame, it.state = .unwinding frame → (B.fp it.regs = 0 → r = .ok none) ∧
      ∀ caller, r = .ok (some caller) → B.Climbs it.regs it'.regs

/-- Every run only moves up the stack, and so yields finitely many frames. -/
def RunsClimb : Prop :=
  ∀ (pc : UInt64) (regs : Regs) (w : World) (readers : List Reader),
    EachStep (call (B.unwinder P modules)) (CallClimbs B P modules) (some (new pc regs, w)) readers ∧
    ((results (B.unwinder P modules) readers (new pc regs) w).filter isFrame).length ≤
      2 ^ 64 - (B.sp regs).toNat

variable {B P modules} {it it' : UnwindIterator Regs} {readStack : Reader} {w w' : World}

theorem next_climbs (hB : B.StoresPointers) (h : NoUnwindInfo modules)
    (s : Option (UnwindIterator Regs × World)) (readStack : Reader) :
    CallClimbs B P modules s readStack := by
  intro it w hs
  cases hst : it.state with
  | initial pc =>
    have hn : next (B.unwinder P modules) readStack it w = some (.ok (some (.instructionPointer pc)),
        { it with state := .unwinding (.instructionPointer pc) }, w) := by
      unfold next
      rw [hst]
    exact ⟨_, _, _, hn, by simp, ⟨[], rfl, by simp⟩, by simp⟩
  | done => exact ⟨_, _, _, next_done hst _ _, by simp, ⟨[], rfl, by simp⟩, by simp⟩
  | unwinding frame =>
    have hu : B.unwindFrame P modules readStack frame it.regs w = _ :=
      Backend.unwindFrame_noUnwindInfo h
    have hup : B.WalksUp it.regs w
        (B.fallbackUnwindFrame (B.currentIp it.regs frame) it.regs readStack w) :=
      Backend.fallbackUnwindFrame_walksUp hB _
    rcases hout : B.fallbackUnwindFrame (B.currentIp it.regs frame) it.regs readStack w with
      ⟨r, regs', w'⟩
    rw [hout] at hu hup
    cases r with
    | error err =>
      refine ⟨_, _, _, next_failed hst hu, ?_, hup.reads, ?_⟩
      · intro he
        exact hup.advances (by rw [Except.error.inj he])
      · intro frame' _
        refine ⟨?_, by simp⟩
        intro hz
        cases hup.ends hz
    | ok ra =>
      refine ⟨_, _, _, next_stepped hst hu, by simp, hup.reads, ?_⟩
      intro frame' _
      refine ⟨?_, ?_⟩
      · intro hz
        obtain rfl := Except.ok.inj (hup.ends hz)
        rfl
      · intro caller hc
        exact hup.climbs _ (congrArg Except.ok (advance_address (Except.ok.inj hc)))

/-- How many frames can still follow. -/
def headroom (B : Backend Regs Raw) (it : UnwindIterator Regs) : Nat :=
  match it.state with
  | .initial _ => 2 ^ 64 - (B.sp it.regs).toNat
  | .unwinding _ => 2 ^ 64 - 1 - (B.sp it.regs).toNat
  | .done => 0

theorem advance_state {interrupted : Bool} {ra : Option UInt64} {caller : FrameAddress}
    (h : (advance interrupted ra).1 = some caller) :
    (advance interrupted ra).2 = .unwinding caller := by
  unfold advance at h ⊢
  split at h
  · obtain rfl := Option.some.inj h
    rfl
  · cases h

/-- A frame that is returned is the one to unwind next. -/
theorem next_some {U : FrameUnwinder Regs} {caller : FrameAddress}
    (h : next U readStack it w = some (.ok (some caller), it', w')) :
    it'.state = .unwinding caller := by
  rcases next_cases h with ⟨pc, -, hr, rfl, -⟩ | ⟨-, hr, -⟩ | ⟨frame, out, regs', -, -, hout⟩
  · rw [Option.some.inj (Except.ok.inj hr)]
  · cases hr
  · rcases hout with ⟨err, -, hr, -⟩ | ⟨ra, -, hr, rfl⟩
    · cases hr
    · exact advance_state (Except.ok.inj hr).symm

theorem next_headroom (hB : B.StoresPointers) (h : NoUnwindInfo modules)
    {r : Except Error (Option FrameAddress)}
    (hn : next (B.unwinder P modules) readStack it w = some (r, it', w')) :
    (if isFrame r then 1 else 0) + headroom B it' ≤ headroom B it := by
  have hsp := (B.sp it.regs).toNat_lt
  cases r with
  | error err =>
    rw [(next_error hn).1]
    exact Nat.le_of_eq (Nat.zero_add _)
  | ok o =>
    cases o with
    | none => simp [headroom, next_none hn, isFrame]
    | some caller =>
      have hst' := next_some hn
      have hsp' := (B.sp it'.regs).toNat_lt
      cases hst : it.state with
      | initial pc =>
        rcases next_cases hn with ⟨pc, -, -, rfl, -⟩ | ⟨hd, -⟩ | ⟨frame, out, regs', hd, -⟩
        · simp only [headroom, isFrame, hst, if_true]
          omega
        · rw [hst] at hd
          cases hd
        · rw [hst] at hd
          cases hd
      | done =>
        rw [next_done hst] at hn
        cases hn
      | unwinding frame =>
        obtain ⟨r, it₁, w₁, hn₁, -, -, hclimb⟩ := next_climbs (P := P) hB h _ readStack it w rfl
        rw [hn] at hn₁
        obtain ⟨rfl, rfl, rfl⟩ := hn₁
        have hup := UInt64.lt_iff_toNat_lt.mp ((hclimb frame hst).2 caller rfl).up
        simp only [headroom, isFrame, hst, hst', if_true]
        omega

theorem frames_le_headroom (hB : B.StoresPointers) (h : NoUnwindInfo modules)
    (readers : List Reader) (it : UnwindIterator Regs) (w : World) :
    ((results (B.unwinder P modules) readers it w).filter isFrame).length ≤ headroom B it := by
  induction readers generalizing it w with
  | nil => exact Nat.zero_le _
  | cons readStack readers ih =>
    rw [results]
    cases hn : next (B.unwinder P modules) readStack it w with
    | none => exact Nat.zero_le _
    | some out =>
      obtain ⟨r, it', w'⟩ := out
      have hstep := next_headroom hB h hn
      have hrest := ih it' w'
      dsimp only
      rw [List.filter_cons]
      split
      · next hr =>
        rw [if_pos hr] at hstep
        rw [List.length_cons]
        omega
      · omega

theorem runsClimb (hB : B.StoresPointers) (h : NoUnwindInfo modules) : RunsClimb B P modules := by
  intro pc regs w readers
  refine ⟨eachStep_of_inv (I := fun _ => True) (fun _ _ _ => trivial) ?_ trivial,
    frames_le_headroom hB h readers (new pc regs) w⟩
  intro s readStack _
  exact next_climbs hB h s readStack

end UnwindIterator

namespace X8664

theorem restored_sp (regs : UnwindRegs) (ip sp bp : UInt64) : (restored regs ip sp bp).sp = sp := by
  simp [restored, UnwindRegs.sp, UnwindRegs.setBp, UnwindRegs.setSp, UnwindRegs.set,
    UnwindRegs.setIndex, UnwindRegs.get, Reg.index]

theorem restored_bp (regs : UnwindRegs) (ip sp bp : UInt64) : (restored regs ip sp bp).bp = bp := by
  simp [restored, UnwindRegs.bp, UnwindRegs.setBp, UnwindRegs.set, UnwindRegs.setIndex,
    UnwindRegs.get]

theorem storesPointers : backend.StoresPointers where
  stepped _ _ _ := restored_sp ..
  sp _ _ _ _ _ := restored_sp ..
  fp _ _ _ _ _ := restored_bp ..

end X8664

theorem Aarch64.storesPointers : Aarch64.backend.StoresPointers where
  stepped _ _ _ := rfl
  sp _ _ _ _ _ := rfl
  fp _ _ _ _ _ := rfl

/-- Without unwind info every run climbs the stack, whatever the reader answers. -/
theorem framePointer_runs_climb (P : Process) (modules : ModuleSet) (h : NoUnwindInfo modules) :
    UnwindIterator.RunsClimb X8664.backend P modules ∧
    UnwindIterator.RunsClimb Aarch64.backend P modules :=
  ⟨UnwindIterator.runsClimb X8664.storesPointers h, UnwindIterator.runsClimb Aarch64.storesPointers h⟩

/-- A module without unwind sections, and a chain of two saved pairs. -/
def plainSet : ModuleSet := ModuleSet.new.add (.fallbackOnly "plain" ⟨0x1000, 0x2000⟩ 0x1000 0)

def chainStack (addr : UInt64) : Option UInt64 :=
  if addr = 0x9000 then some 0x9100
  else if addr = 0x9008 then some 0x1100
  else if addr = 0x9100 then some 0
  else if addr = 0x9108 then some 0x1200
  else none

theorem plainSet_noUnwindInfo : NoUnwindInfo plainSet := by
  intro start m hm
  rw [plainSet, ModuleSet.add, OrderedMap.get?_insert] at hm
  split at hm
  · obtain rfl := Option.some.inj hm
    exact ⟨rfl, rfl⟩
  · cases hm

theorem plainSet_climbs : NoUnwindInfo plainSet ∧
    UnwindIterator.results (X8664.backend.unwinder topOfStackX8664 plainSet)
      (List.replicate 4 (steady chainStack)) (.new 0x1004 (.new 0x1004 0x8000 0x9000)) freshWorld =
      [.ok (some (.instructionPointer 0x1004)), .ok (some (.returnAddress 0x1100 (by decide))),
        .ok (some (.returnAddress 0x1200 (by decide))), .ok none] ∧
    UnwindIterator.RunsClimb X8664.backend topOfStackX8664 plainSet :=
  ⟨plainSet_noUnwindInfo, by decide +kernel,
    (framePointer_runs_climb topOfStackX8664 plainSet plainSet_noUnwindInfo).1⟩

end Unwinder
