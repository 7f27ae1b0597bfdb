import Mathlib.Data.Prod.Lex
import Unwinder.Proofs.FramePointer

namespace Unwinder
open Lib

namespace Backend

variable {Regs Raw : Type} {B : Backend Regs Raw} {P : Process} {modules : ModuleSet}
  {readStack : Reader} {frame : FrameAddress} {regs regs' : Regs} {w w' : World} {ra : UInt64}

/-- A step to a caller changes the code address or the stack pointer. -/
theorem unwindFrame_moves (hB : B.StoresPointers)
    (h : B.unwindFrame P modules readStack frame regs w = some (.ok (some ra), regs', w')) :
    ¬ (ra = B.currentIp regs frame ∧ B.sp regs' = B.sp regs) := by
  rcases unwindFrame_cases h with ⟨err, -, he⟩ | ⟨-, he⟩ | ⟨-, r, ctx, -, he⟩
  · cases he
  · have hup : B.WalksUp regs w (B.fallbackUnwindFrame (B.currentIp regs frame) regs readStack w) :=
      fallbackUnwindFrame_walksUp hB _
    rw [← he] at hup
    intro hsame
    exact UInt64.ne_of_lt (hup.climbs ra rfl).up hsame.2.symm
  · obtain ⟨v, extras, -, -, -, hmoves, rfl⟩ := finishStep_caller he.symm
    rw [hB.stepped]
    exact hmoves

/-- A step does not lower the stack pointer, and where it keeps it, it goes to a
code address of lower rank. -/
def Descends (B : Backend Regs Raw) (rank : UInt64 → Nat) (frame : FrameAddress) (regs : Regs)
    (ra : UInt64) (regs' : Regs) : Prop :=
  B.sp regs ≤ B.sp regs' ∧
    (B.sp regs' = B.sp regs → rank (B.strip regs ra) < rank (B.currentIp regs frame))

/-- How far a step is from the end: the stack above it, then the rank of its
code address. -/
def height (B : Backend Regs Raw) (rank : UInt64 → Nat) (frame : FrameAddress) (regs : Regs) :
    Nat ×ₗ Nat :=
  toLex (2 ^ 64 - (B.sp regs).toNat, rank (B.currentIp regs frame))

theorem unwindFrame_lower (hB : B.StoresPointers) {rank : UInt64 → Nat}
    {caller : FrameAddress}
    (h : B.unwindFrame P modules readStack frame regs w = some (.ok (some ra), regs', w'))
    (hd : OnDwarfPath modules (B.lookupIp regs frame) → B.Descends rank frame regs ra regs')
    (hc : caller.address = ra) : B.height rank caller regs' < B.height rank frame regs := by
  have hstrip := unwindFrame_strip h
  have hsp := (B.sp regs').toNat_lt
  unfold height
  rw [Prod.Lex.toLex_lt_toLex]
  dsimp only
  by_cases hp : OnDwarfPath modules (B.lookupIp regs frame)
  · obtain ⟨hle, hrank⟩ := hd hp
    by_cases heq : B.sp regs' = B.sp regs
    · right
      refine ⟨by rw [heq], ?_⟩
      unfold currentIp at hrank ⊢
      rw [hc, hstrip]
      exact hrank heq
    · left
      have hlt := UInt64.lt_iff_toNat_lt.mp (UInt64.lt_of_le_of_ne hle (Ne.symm heq))
      omega
  · rcases unwindFrame_cases h with ⟨err, -, he⟩ | ⟨-, he⟩ | ⟨hp', -⟩
    · cases he
    · have hup : B.WalksUp regs w
          (B.fallbackUnwindFrame (B.currentIp regs frame) regs readStack w) :=
        fallbackUnwindFrame_walksUp hB _
      rw [← he] at hup
      have hlt := UInt64.lt_iff_toNat_lt.mp (hup.climbs ra rfl).up
      left
      dsimp only at hlt
      omega
    · exact absurd hp' hp

end Backend

namespace UnwindIterator

variable {Regs Raw : Type}

/-- The frames that calls yield one after the other, each with the registers it
is yielded with, and where the calls leave the iterator. -/
inductive Walk (U : FrameUnwinder Regs) (readStack : Reader) : UnwindIterator Regs → World →
    List (FrameAddress × Regs) → UnwindIterator Regs → World → Prop
  | stop (it : UnwindIterator Regs) (w : World) : Walk U readStack it w [] it w
  | yield {it it₁ it' : UnwindIterator Regs} {w w₁ w' : World} {frame : FrameAddress}
      {visits : List (FrameAddress × Regs)}
      (hn : next U readStack it w = some (.ok (some frame), it₁, w₁))
      (rest : Walk U readStack it₁ w₁ visits it' w') :
      Walk U readStack it w ((frame, it₁.regs) :: visits) it' w'

/-- The next call yields no frame. There is no outcome where a callback panics. -/
def Ends (U : FrameUnwinder Regs) (readStack : Reader) (it : UnwindIterator Regs) (w : World) :
    Prop :=
  next U readStack it w = none ∨ (∃ it' w', next U readStack it w = some (.ok none, it', w')) ∨
    ∃ err it' w', next U readStack it w = some (.error err, it', w')

/-- The DWARF steps of the frames that calls reach from here all descend. -/
def Descends (B : Backend Regs Raw) (P : Process) (modules : ModuleSet) (readStack : Reader)
    (rank : UInt64 → Nat) (it : UnwindIterator Regs) (w : World) : Prop :=
  ∀ visits it₁ w₁ frame ra regs' w', Walk (B.unwinder P modules) readStack it w visits it₁ w₁ →
    it₁.state = .unwinding frame → OnDwarfPath modules (B.lookupIp it₁.regs frame) →
    B.unwindFrame P modules readStack frame it₁.regs w₁ = some (.ok (some ra), regs', w') →
      B.Descends rank frame it₁.regs ra regs'

variable {B : Backend Regs Raw} {P : Process} {modules : ModuleSet} {it it' : UnwindIterator Regs}
  {readStack : Reader} {w w' : World} {frame caller : FrameAddress}
  {visits : List (FrameAddress × Regs)} {rank : UInt64 → Nat}

/-- What a call leaves reaches nothing new. -/
theorem Descends.next (hd : Descends B P modules readStack rank it w)
    (hn : next (B.unwinder P modules) readStack it w = some (.ok (some frame), it', w')) :
    Descends B P modules readStack rank it' w' := by
  intro visits it₁ w₁ frame₁ ra regs' w₂ hwalk
  exact hd _ it₁ w₁ frame₁ ra regs' w₂ (.yield hn hwalk)

/-- A frame that is yielded behind another is the caller its step has found. -/
theorem next_caller (hst : it.state = .unwinding frame)
    (hn : next (B.unwinder P modules) readStack it w = some (.ok (some caller), it', w')) :
    ∃ ra, B.unwindFrame P modules readStack frame it.regs w = some (.ok (some ra), it'.regs, w') ∧
      caller.address = ra := by
  rcases next_cases hn with ⟨pc, hd, -⟩ | ⟨hd, -⟩ | ⟨frame', out, regs', hd, hu, hout⟩
  · rw [hst] at hd
    cases hd
  · rw [hst] at hd
    cases hd
  · rw [hst] at hd
    obtain rfl := UnwindIteratorState.unwinding.inj hd
    rcases hout with ⟨err, -, hr, -⟩ | ⟨ra, rfl, hr, rfl⟩
    · cases hr
    · have hra := advance_address (Except.ok.inj hr).symm
      rw [hra] at hu
      exact ⟨_, hu, rfl⟩

/-- The caller that a descending step yields is lower than the frame it steps from. -/
theorem Descends.lower (hB : B.StoresPointers) (hd : Descends B P modules readStack rank it w)
    (hst : it.state = .unwinding frame)
    (hn : UnwindIterator.next (B.unwinder P modules) readStack it w =
      some (.ok (some caller), it', w')) :
    B.height rank caller it'.regs < B.height rank frame it.regs := by
  obtain ⟨ra, hu, hra⟩ := next_caller hst hn
  refine Backend.unwindFrame_lower hB hu ?_ hra
  intro hp
  exact hd [] it w frame ra it'.regs w' (.stop it w) hst hp hu

theorem Walk.lower (hB : B.StoresPointers)
    (h : Walk (B.unwinder P modules) readStack it w visits it' w')
    (hd : Descends B P modules readStack rank it w) (hst : it.state = .unwinding frame) :
    ∀ v ∈ visits, B.height rank v.1 v.2 < B.height rank frame it.regs := by
  induction h generalizing frame with
  | stop it w => simp
  | yield hn rest ih =>
    have hstep := hd.lower hB hst hn
    intro v hv
    rcases List.mem_cons.mp hv with rfl | hv
    · exact hstep
    · exact lt_trans (ih (hd.next hn) (next_some hn) v hv) hstep

/-- Where a frame is visited: its code address and its stack pointer. -/
def place (B : Backend Regs Raw) (visit : FrameAddress × Regs) : UInt64 × UInt64 :=
  (B.currentIp visit.2 visit.1, B.sp visit.2)

theorem height_place (rank : UInt64 → Nat) {v v' : FrameAddress × Regs}
    (h : place B v = place B v') : B.height rank v.1 v.2 = B.height rank v'.1 v'.2 := by
  obtain ⟨hip, hsp⟩ := Prod.mk.inj h
  unfold Backend.height
  rw [hip, hsp]

/-- No code address is visited twice at the same stack pointer. -/
theorem Walk.nodup (hB : B.StoresPointers)
    (h : Walk (B.unwinder P modules) readStack it w visits it' w')
    (hd : Descends B P modules readStack rank it w) : (visits.map (place B)).Nodup := by
  induction h with
  | stop it w => exact List.nodup_nil
  | yield hn rest ih =>
    have hrest := hd.next hn
    rw [List.map_cons]
    refine List.nodup_cons.mpr ⟨?_, ih hrest⟩
    intro hmem
    obtain ⟨v, hv, hplace⟩ := List.mem_map.mp hmem
    have hlower := rest.lower hB hrest (next_some hn) v hv
    rw [height_place rank hplace] at hlower
    exact lt_irrefl _ hlower

theorem ends_or_yields (U : FrameUnwinder Regs) (readStack : Reader) (it : UnwindIterator Regs)
    (w : World) : Ends U readStack it w ∨
      ∃ frame it' w', next U readStack it w = some (.ok (some frame), it', w') := by
  unfold Ends
  cases hn : next U readStack it w with
  | none => exact Or.inl (Or.inl rfl)
  | some out =>
    obtain ⟨r, it', w'⟩ := out
    cases r with
    | error err => exact Or.inl (Or.inr (Or.inr ⟨err, it', w', rfl⟩))
    | ok o =>
      cases o with
      | none => exact Or.inl (Or.inr (Or.inl ⟨it', w', rfl⟩))
      | some frame => exact Or.inr ⟨frame, it', w', rfl⟩

/-- A walk from a frame comes to an end: the height of the frames decreases. -/
theorem walk_ends_from (hB : B.StoresPointers) (it : UnwindIterator Regs) (w : World)
    (frame : FrameAddress) (hd : Descends B P modules readStack rank it w)
    (hst : it.state = .unwinding frame) :
    ∃ visits it' w', Walk (B.unwinder P modules) readStack it w visits it' w' ∧
      Ends (B.unwinder P modules) readStack it' w' := by
  generalize hh : B.height rank frame it.regs = height
  induction height using WellFoundedLT.induction generalizing it w frame with
  | _ height ih =>
    rcases ends_or_yields (B.unwinder P modules) readStack it w with hend | ⟨caller, it₁, w₁, hn⟩
    · exact ⟨[], it, w, .stop it w, hend⟩
    · have hlower := hd.lower hB hst hn
      rw [hh] at hlower
      obtain ⟨visits, it', w', hwalk, hend⟩ :=
        ih _ hlower it₁ w₁ caller (hd.next hn) (next_some hn) rfl
      exact ⟨_, it', w', .yield hn hwalk, hend⟩

theorem walk_ends (hB : B.StoresPointers) (it : UnwindIterator Regs) (w : World)
    (hd : Descends B P modules readStack rank it w) :
    ∃ visits it' w', Walk (B.unwinder P modules) readStack it w visits it' w' ∧
      Ends (B.unwinder P modules) readStack it' w' := by
  rcases ends_or_yields (B.unwinder P modules) readStack it w with hend | ⟨frame, it₁, w₁, hn⟩
  · exact ⟨[], it, w, .stop it w, hend⟩
  · obtain ⟨visits, it', w', hwalk, hend⟩ :=
      walk_ends_from hB it₁ w₁ frame (hd.next hn) (next_some hn)
    exact ⟨_, it', w', .yield hn hwalk, hend⟩

variable (B P modules) in
/-- What keeps the walks of an architecture from looping: no step stays where it
is, and where the DWARF steps of the frames a walk reaches descend, the walk does
not come back to a code address at the same stack pointer, and it ends. -/
structure WalksEnd : Prop where
  moves : ∀ readStack it w frame caller it' w', it.state = .unwinding frame →
    next (B.unwinder P modules) readStack it w = some (.ok (some caller), it', w') →
      ¬ (caller.address = B.currentIp it.regs frame ∧ B.sp it'.regs = B.sp it.regs)
  nodup : ∀ mem rank pc regs w, Descends B P modules (steady mem) rank (new pc regs) w →
    ∀ visits it' w', Walk (B.unwinder P modules) (steady mem) (new pc regs) w visits it' w' →
      (visits.map (place B)).Nodup
  ends : ∀ mem rank pc regs w, Descends B P modules (steady mem) rank (new pc regs) w →
    ∃ visits it' w', Walk (B.unwinder P modules) (steady mem) (new pc regs) w visits it' w' ∧
      Ends (B.unwinder P modules) (steady mem) it' w'

theorem walksEnd (hB : B.StoresPointers) (P : Process) (modules : ModuleSet) :
    WalksEnd B P modules where
  moves _ _ _ _ _ _ _ hst hn := by
    obtain ⟨ra, hu, rfl⟩ := next_caller hst hn
    exact Backend.unwindFrame_moves hB hu
  nodup _ _ _ _ _ hd _ _ _ h := h.nodup hB hd
  ends _ _ _ _ _ hd := walk_ends hB _ _ hd

end UnwindIterator

/-- On both architectures. -/
theorem backends_walks_end (P : Process) (modules : ModuleSet) :
    UnwindIterator.WalksEnd X8664.backend P modules ∧
    UnwindIterator.WalksEnd Aarch64.backend P modules :=
  ⟨UnwindIterator.walksEnd X8664.storesPointers P modules,
    UnwindIterator.walksEnd Aarch64.storesPointers P modules⟩

/-- The check of libunwind itself: no success with the address it was handed and
an unchanged stack pointer. -/
def Backend.ChecksItself {Regs Raw : Type} (B : Backend Regs Raw) (P : Process)
    (modules : ModuleSet) (mem : UInt64 → Option UInt64) : Prop :=
  ∀ lookupIp regs w v extras ctx, B.nativeStep P modules lookupIp regs (steady mem) w =
    some (.ok (.stepped v extras), ctx) → ¬ (v = lookupIp ∧ extras.newSp = B.sp regs)

section EvenFrames

open UnwindIterator

/-- A libunwind on which every frame takes the same room on the stack. The first
function keeps its return address on top, the others behind it. -/
def evenFrames (room : UInt64) : Libunwind where
  Cursor := UInt64 × UInt64
  initRemote := do
    let (_, ip) ← askReg X8664.UNW_REG_IP
    let (ret, sp) ← askReg X8664.UNW_REG_SP
    return (ret, (ip, sp))
  step cursor := do
    let (found, pi) ← askProcInfo cursor.1
    if found < 0 then return (found, cursor)
    else
      let (ret, ra) ← askMem (if pi.startIp = 0x1000 then cursor.2 else cursor.2 + 8)
      if ret < 0 then return (ret, cursor)
      else if cursor.2 + room < cursor.2 ∨ ra = cursor.1 then return (-7, cursor)
      else return (1, (ra, cursor.2 + room))
  getReg cursor reg val :=
    if reg = X8664.UNW_REG_IP then return (0, cursor.1, cursor)
    else if reg = X8664.UNW_REG_SP then return (0, cursor.2, cursor)
    else return (-3, val, cursor)

def evenProcess (room : UInt64) : Process := ⟨evenFrames room, fun _ => 0⟩

variable {room : UInt64} {e : UnwindEnv} {ctx ctx' : UnwindCtx X8664.RawRegs} {ret : Int}
  {cursor cursor' : UInt64 × UInt64}

theorem accessReg_sp (r : X8664.RawRegs) (val : UInt64) :
    X8664.RawRegs.accessReg r X8664.UNW_REG_SP val false =
      if r.validRegs &&& X8664.bit 7 ≠ 0 then ((0, r.sp), r) else ((-3, val), r) := rfl

theorem evenFrames_init (h : (evenFrames room).initRemote.run
    (accessors X8664.RawRegs.accessReg e) ctx = some ((ret, cursor), ctx')) (hret : 0 ≤ ret) :
    cursor = (ctx.regs.ip, ctx.regs.sp) := by
  simp only [evenFrames, askReg, Interaction.run_bind] at h
  obtain ⟨⟨⟨ret₁, ip⟩, ctx₁⟩, hip, h⟩ := Option.bind_eq_some_iff.mp h
  obtain ⟨⟨⟨ret₂, sp⟩, ctx₂⟩, hsp, h⟩ := Option.bind_eq_some_iff.mp h
  cases hip
  cases h
  simp only [Interaction.ask, Interaction.run, accessors, accessReg, accessReg_sp] at hsp
  split at hsp
  · cases hsp
    rfl
  · cases hsp
    dsimp only at hret
    omega

theorem evenFrames_step (h : ((evenFrames room).step cursor).run
    (accessors X8664.RawRegs.accessReg e) ctx = some ((ret, cursor'), ctx')) (hret : 0 < ret) :
    cursor.2 ≤ cursor.2 + room ∧ cursor'.1 ≠ cursor.1 ∧ cursor'.2 = cursor.2 + room := by
  simp only [evenFrames, Interaction.run_bind] at h
  obtain ⟨⟨⟨found, pi⟩, ctx₁⟩, -, h⟩ := Option.bind_eq_some_iff.mp h
  dsimp only at h
  split at h
  · cases h
    omega
  · rw [Interaction.run_bind] at h
    obtain ⟨⟨⟨read, ra⟩, ctx₂⟩, -, h⟩ := Option.bind_eq_some_iff.mp h
    dsimp only at h
    split at h
    · cases h
      omega
    · split at h
      · cases h
        omega
      · next hok =>
        cases h
        exact ⟨UInt64.not_lt.mp (fun hlt => hok (Or.inl hlt)), fun he => hok (Or.inr he), rfl⟩

/-- Every step of this libunwind goes to another address, and takes its room. -/
theorem evenFrames_stepped {modules : ModuleSet} {readStack : Reader} {lookupIp v : UInt64}
    {regs : X8664.UnwindRegs} {w : World} {extras : Extras}
    (h : X8664.backend.nativeStep (evenProcess room) modules lookupIp regs readStack w =
      some (.ok (.stepped v extras), ctx)) :
    v ≠ lookupIp ∧ regs.sp ≤ extras.newSp ∧ extras.newSp = regs.sp + room := by
  obtain ⟨initRet, cursor, ctx₁, stepRet, cursor₁, ctx₂, hinit, hok, hstep, hpos, hread⟩ :=
    Backend.nativeStep_stepped h
  obtain ⟨getRet, cursor₂, ctx₃, hget, hextras⟩ := Backend.readStepped_regs hread
  have hcursor : cursor = (lookupIp, regs.sp) := evenFrames_init hinit hok
  obtain ⟨hroom, hne, hsp⟩ := evenFrames_step hstep hpos
  rw [hcursor] at hroom hne hsp
  cases hget
  cases hextras
  have hnew : Extras.newSp ((Vector.replicate 4 0).setIfInBounds 0 cursor₁.2) = cursor₁.2 := rfl
  refine ⟨hne, ?_⟩
  rw [hnew, hsp]
  exact ⟨hroom, rfl⟩

def pingPongStack (addr : UInt64) : Option UInt64 :=
  if addr = 0x9000 then some 0x1108 else if addr = 0x9008 then some 0x1008 else none

/-- The calls of a walk, as far as they yield frames. -/
def walkFrames {Regs : Type} (U : FrameUnwinder Regs) (readStack : Reader) :
    Nat → UnwindIterator Regs → World → List (FrameAddress × Regs) × UnwindIterator Regs × World
  | 0, it, w => ([], it, w)
  | n + 1, it, w =>
    match next U readStack it w with
    | some (.ok (some frame), it₁, w₁) =>
      let (visits, it', w') := walkFrames U readStack n it₁ w₁
      ((frame, it₁.regs) :: visits, it', w')
    | _ => ([], it, w)

theorem walkFrames_walk {Regs : Type} (U : FrameUnwinder Regs) (readStack : Reader) (n : Nat)
    (it : UnwindIterator Regs) (w : World) :
    Walk U readStack it w (walkFrames U readStack n it w).1 (walkFrames U readStack n it w).2.1
      (walkFrames U readStack n it w).2.2 := by
  induction n generalizing it w with
  | zero => exact .stop it w
  | succ n ih =>
    rw [walkFrames]
    split
    · next frame it₁ w₁ hn => exact .yield hn (ih it₁ w₁)
    · exact .stop it w

/-- Two functions that unwind to each other without moving the stack pointer are
visited again and again. -/
theorem pingPong_revisits :
    ¬ ∀ P modules mem, X8664.backend.ChecksItself P modules mem → ∀ pc regs w visits it' w',
      Walk (X8664.backend.unwinder P modules) (steady mem) (new pc regs) w visits it' w' →
        visits.Nodup := by
  intro h
  have hcheck : X8664.backend.ChecksItself (evenProcess 0) twoFunctionSet pingPongStack := by
    intro lookupIp regs w v extras ctx hn hsame
    exact (evenFrames_stepped hn).1 hsame.1
  have hwalk := walkFrames_walk (X8664.backend.unwinder (evenProcess 0) twoFunctionSet)
    (steady pingPongStack) 5 (new 0x1004 (.new 0x1004 0x9000 0)) freshWorld
  have hnodup := h (evenProcess 0) twoFunctionSet pingPongStack hcheck _ _ _ _ _ _ hwalk
  revert hnodup
  decide +kernel

theorem evenFrames_descends (modules : ModuleSet) (mem : UInt64 → Option UInt64)
    (it : UnwindIterator X8664.UnwindRegs) (w : World) :
    Descends X8664.backend (evenProcess 8) modules (steady mem) (fun _ => 0) it w := by
  intro visits it₁ w₁ frame ra regs' w' hwalk hst hp hu
  rw [Backend.unwindFrame_onPath hp] at hu
  obtain ⟨⟨r, ctx⟩, hn, he⟩ := Option.map_eq_some_iff.mp hu
  obtain ⟨v, extras, rfl, -, -, -, rfl⟩ := Backend.finishStep_caller he
  obtain ⟨-, hle, hsp⟩ := evenFrames_stepped hn
  unfold Backend.Descends
  rw [X8664.storesPointers.stepped]
  refine ⟨hle, ?_⟩
  intro hsame
  have hzero : it₁.regs.sp + 8 = it₁.regs.sp := hsp.symm.trans hsame
  simp at hzero

/-- A stack for frames of one word each. -/
def risingStack (addr : UInt64) : Option UInt64 :=
  if addr = 0x9000 then some 0x1108 else if addr = 0x9010 then some 0 else none

theorem risingStack_walk_ends :
    (walkFrames (X8664.backend.unwinder (evenProcess 8) twoFunctionSet) (steady risingStack) 3
      (new 0x1004 (.new 0x1004 0x9000 0)) freshWorld).1.map Prod.fst =
        [.instructionPointer 0x1004, .returnAddress 0x1108 (by decide)] ∧
    (∀ visits it' w', Walk (X8664.backend.unwinder (evenProcess 8) twoFunctionSet)
      (steady risingStack) (new 0x1004 (.new 0x1004 0x9000 0)) freshWorld visits it' w' →
      (visits.map (place X8664.backend)).Nodup) ∧
    ∃ visits it' w', Walk (X8664.backend.unwinder (evenProcess 8) twoFunctionSet)
      (steady risingStack) (new 0x1004 (.new 0x1004 0x9000 0)) freshWorld visits it' w' ∧
      Ends (X8664.backend.unwinder (evenProcess 8) twoFunctionSet) (steady risingStack) it' w' := by
  have hends := (backends_walks_end (evenProcess 8) twoFunctionSet).1
  have hd := evenFrames_descends twoFunctionSet risingStack (new 0x1004 (.new 0x1004 0x9000 0))
    freshWorld
  refine ⟨by decide +kernel, ?_, ?_⟩
  · exact hends.nodup risingStack _ _ _ _ hd
  · exact hends.ends risingStack _ _ _ _ hd

end EvenFrames

end Unwinder
