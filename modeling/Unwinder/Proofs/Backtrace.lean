import Unwinder.Proofs.ProcInfoAsked
import Unwinder.Proofs.TableUnwind

namespace Unwinder.Native.X8664
open Lib Interaction CallFrame Dwarf Ffi Unwinder.X8664

section Entries

variable {modules : ModuleSet} {addr : UInt64} {m : ModuleData} {ehFrame : Buffer} {cie : ParsedCie}
  {fde : ParsedFde} {tracee : UInt64 → UInt8} {available : UInt64 → Bool} {rounds : Nat}

/-- The module around an address lists this entry there. -/
structure EntryAt (modules : ModuleSet) (addr : UInt64) (m : ModuleData) (ehFrame : Buffer)
    (cie : ParsedCie) (fde : ParsedFde) : Prop where
  path : OnDwarfPath modules addr
  found : modules.findModule addr = some m
  listed : ∃ hdr cieAt fdeAt i, WellFormed m hdr ehFrame cieAt fdeAt ∧ i < m.table.count ∧
    cieAt i = cie ∧ fdeAt i = fde
  covers : fde.Covers addr

/-- The section is in the tracee's memory where the module says, and can be read there. -/
structure Loaded (m : ModuleData) (ehFrame : Buffer) (tracee : UInt64 → UInt8)
    (available : UInt64 → Bool) : Prop where
  bytes : ∀ k (hk : k < ehFrame.bytes.data.length),
    tracee (m.ehFrameAvma + UInt64.ofNat k) = ehFrame.bytes.data.get ⟨k, hk⟩
  low : m.ehFrameAvma.toNat + ehFrame.bytes.len < 2 ^ 64
  readable : ∀ k < ehFrame.bytes.len,
    available (alignedAddr (m.ehFrameAvma + UInt64.ofNat k)) = true

/-- The bytes of a program, from an offset of the section on. -/
def ProgramAt (ehFrame : Buffer) (off len : Nat) (program : List (Insn 17 (Exp rounds))) : Prop :=
  ehFrame.bytes.get? off (off + len) = some (programBytes Exp.code program)

theorem programAt_cases {off len : Nat} {program : List (Insn 17 (Exp rounds))}
    (h : ProgramAt ehFrame off len program) : off + len ≤ ehFrame.bytes.len ∧
      programBytes Exp.code program = (ehFrame.bytes.data.drop off).take len := by
  unfold ProgramAt Slice.get? at h
  split at h
  · next hle =>
    have hbytes := Option.some.inj h
    rw [Nat.add_sub_cancel_left] at hbytes
    exact ⟨hle.2, hbytes.symm⟩
  · cases h

theorem Loaded.offset_toNat (h : Loaded m ehFrame tracee available) {off : Nat}
    (hoff : off ≤ ehFrame.bytes.len) :
    (m.ehFrameAvma + UInt64.ofNat off).toNat = m.ehFrameAvma.toNat + off := by
  have hlow := h.low
  rw [UInt64.toNat_add, UInt64.toNat_ofNat', Nat.mod_eq_of_lt (a := off) (by omega),
    Nat.mod_eq_of_lt (by omega)]

theorem offset_add (base : UInt64) (off k : Nat) :
    base + UInt64.ofNat off + UInt64.ofNat k = base + UInt64.ofNat (off + k) := by
  rw [UInt64.ofNat_add, UInt64.add_assoc]

section Program

variable {off len : Nat} {program : List (Insn 17 (Exp rounds))}

theorem programAt_length (hp : ProgramAt ehFrame off len program) :
    (programBytes Exp.code program).length = len := by
  obtain ⟨hle, hbytes⟩ := programAt_cases hp
  have hl : ehFrame.bytes.len = ehFrame.bytes.data.length := rfl
  rw [hbytes, List.length_take, List.length_drop]
  omega

/-- Libunwind reads a program of a loaded section byte by byte. -/
theorem Loaded.hasBytes (h : Loaded m ehFrame tracee available)
    (hp : ProgramAt ehFrame off len program) (raw : RawRegs) (info : UnwProcInfo) :
    HasBytes (frameOracle raw tracee available info) (m.ehFrameAvma + UInt64.ofNat off)
      (programBytes Exp.code program) := by
  obtain ⟨hle, hbytes⟩ := programAt_cases hp
  have hl : ehFrame.bytes.len = ehFrame.bytes.data.length := rfl
  have hlen := programAt_length hp
  apply hasBytes_tracee
  · intro k hk
    rw [offset_add]
    exact frameOracle_mem (h.readable _ (by omega))
  · intro k hk
    rw [offset_add, h.bytes (off + k) (by omega)]
    simp [hbytes]

theorem Loaded.hasEnd (h : Loaded m ehFrame tracee available)
    (hp : ProgramAt ehFrame off len program) :
    (m.ehFrameAvma + UInt64.ofNat off).toNat + (programBytes Exp.code program).length =
      (m.ehFrameAvma + UInt64.ofNat off + UInt64.ofNat len).toNat := by
  obtain ⟨hle, -⟩ := programAt_cases hp
  rw [offset_add, h.offset_toNat (by omega), h.offset_toNat hle, programAt_length hp]
  omega

end Program

variable {b : Build} {cieProgram fdeProgram : List (Insn 17 (Exp rounds))}
  {row : Row (Fin 17) UInt64 (Exp rounds)}

/-- The programs of an entry, which libunwind supports, give the row for an address. -/
structure GivesRow (b : Build) (m : ModuleData) (ehFrame : Buffer) (cie : ParsedCie)
    (fde : ParsedFde) (cieProgram fdeProgram : List (Insn 17 (Exp rounds))) (addr : UInt64)
    (row : Row (Fin 17) UInt64 (Exp rounds)) : Prop where
  cieBytes : ProgramAt ehFrame cie.cieInstrOffsetInEhFrame cie.cieInstrLen cieProgram
  fdeBytes : ProgramAt ehFrame fde.fdeInstrOffsetInEhFrame fde.fdeInstrLen fdeProgram
  cieSupported : ∀ i ∈ cieProgram, i.Supported (target b) (buildDwarfCieInfo cie fde m.ehFrameAvma)
  fdeSupported : ∀ i ∈ fdeProgram, i.Supported (target b) (buildDwarfCieInfo cie fde m.ehFrameAvma)
  cieRounds : cieProgram.length ≤ rounds
  fdeRounds : fdeProgram.length ≤ rounds
  row : ∃ table, cfiTable (target b) ⟨cie.codeAlign, cie.dataAlign.toUInt64, 0, fde.initialPc⟩
      Exp.code (m.ehFrameAvma + UInt64.ofNat cie.cieInstrOffsetInEhFrame)
      (m.ehFrameAvma + UInt64.ofNat fde.fdeInstrOffsetInEhFrame) cieProgram fdeProgram = some table ∧
    table.Pairwise (fun a b => a.1 ≤ b.1) ∧ rowAt table addr = some row

theorem GivesRow.hasRow (h : GivesRow b m ehFrame cie fde cieProgram fdeProgram addr row)
    (hl : Loaded m ehFrame tracee available) (hc : fde.Covers addr) (raw : RawRegs) :
    HasRow (target b) (frameOracle raw tracee available (procInfoOf (WellFormed.details m cie fde)))
      Exp.code rounds (procInfoOf (WellFormed.details m cie fde))
      (WellFormed.details m cie fde).cieInfo cieProgram fdeProgram addr row where
  flags := UInt64.zero_and
  programs :=
    { cieBytes := hl.hasBytes h.cieBytes raw _
      cieEnd := hl.hasEnd h.cieBytes
      fdeBytes := hl.hasBytes h.fdeBytes raw _
      fdeEnd := hl.hasEnd h.fdeBytes
      cieSupported := h.cieSupported
      fdeSupported := h.fdeSupported }
  cieRounds := h.cieRounds
  fdeRounds := h.fdeRounds
  inside := hc.1
  row := h.row

/-- The crate hands out the details of the entry, whatever was asked before. -/
theorem EntryAt.procInfo (he : EntryAt modules addr m ehFrame cie fde) {caches : Caches}
    (hc : CacheHistory m (caches m.functionCache)) :
    (procInfoAt modules addr caches).1 = .ok (WellFormed.details m cie fde) := by
  obtain ⟨hdr, cieAt, fdeAt, i, hw, hi, rfl, rfl⟩ := he.listed
  have hparse := hw.parse_covered hi he.covers
  have hsound : ¬ (caches m.functionCache).poisoned = true := by simp [hc.unpoisoned]
  unfold procInfoAt
  rw [he.found]
  dsimp only
  rw [getOrParseFunctionDetails, if_neg hsound]
  cases hd : cachedDetails (caches m.functionCache).entries addr with
  | none => simp only [hparse]
  | some d =>
    have hhit := hc.hit hw hd
    rw [hparse] at hhit
    exact hhit.symm

/-- Behind such a request the caches tell whether the entry is a signal frame. -/
theorem EntryAt.isSignalFrame {ops : List SetOp} (he : EntryAt (ModuleSet.after ops) addr m ehFrame cie fde)
    {caches : Caches} (hc : CacheHistory m (caches m.functionCache)) :
    (ModuleSet.after ops).isSignalFrame (procInfoAt (ModuleSet.after ops) addr caches).2 addr =
      cie.signalFrame := by
  obtain ⟨hdr, cieAt, fdeAt, i, hw, hi, rfl, rfl⟩ := he.listed
  have hcaches : (procInfoAt (ModuleSet.after ops) addr caches).2 m.functionCache =
      (getOrParseFunctionDetails m addr (caches m.functionCache)).2 := by
    unfold procInfoAt
    rw [he.found]
    simp
  have hasked := hc.request addr
  rw [← hcaches] at hasked
  have hcached := (hc.requested hw).mpr (hw.parse_covered hi he.covers)
  rw [← hcaches] at hcached
  rw [Bool.eq_iff_iff, ModuleSet.isSignalFrame_of_found he.found hasked.unpoisoned]
  simp only [hcached, Option.some.injEq, exists_eq_left']
  rfl

end Entries

section Frames

variable {b : Build} {rounds : Nat} {otherwise : Stop → Int × Cursor} {memory : Nat → UInt8}
  {ops : List SetOp} {tracee : UInt64 → UInt8} {available : UInt64 → Bool} {readStack : Reader}
  {w : World} {frame : FrameAddress} {regs : UnwindRegs} {cie : ParsedCie}
  {row : Row (Fin 17) UInt64 (Exp rounds)} {cfa ip : UInt64}

/-- What expressions and rules can look at in a frame. -/
abbrev viewOf (rounds : Nat) (tracee : UInt64 → UInt8) (available : UInt64 → Bool)
    (frame : FrameAddress) (regs : UnwindRegs) : View (Fin 17) UInt64 (Exp rounds) :=
  frameView (RawRegs.fromPublic frame.addressForLookup regs) tracee available rounds

/-- A frame with unwind info: the entry listed for its address has a row there, and
the row leads to the caller's frame. -/
structure Tabled (b : Build) (ops : List SetOp) (tracee : UInt64 → UInt8)
    (available : UInt64 → Bool) (frame : FrameAddress) (regs : UnwindRegs) (cie : ParsedCie)
    (row : Row (Fin 17) UInt64 (Exp rounds)) (cfa ip : UInt64) : Prop where
  entry : ∃ m ehFrame fde cieProgram fdeProgram,
    EntryAt (ModuleSet.after ops) frame.addressForLookup m ehFrame cie fde ∧
    Loaded m ehFrame tracee available ∧
    GivesRow b m ehFrame cie fde cieProgram fdeProgram frame.addressForLookup row
  leads : ∃ col : Fin 17, cie.retAddrColumn = UInt64.ofNat col ∧
    LeadsTo (viewOf rounds tracee available frame regs) row col cfa ip
  moves : ∃ sp, regs.getIfSet .RSP = some sp ∧ ¬ (ip = frame.addressForLookup ∧ cfa = sp)

/-- The callbacks let libunwind come to what the frame lets it compute. -/
theorem nativeStep_of_consult {addr : UInt64} {m : ModuleData} {ehFrame : Buffer} {fde : ParsedFde}
    {r : Except LibunwindError StepOutcome} (memory : Nat → UInt8)
    (he : EntryAt (ModuleSet.after ops) addr m ehFrame cie fde)
    (hc : CacheHistory m (w.caches m.functionCache)) (hr : Readable ops readStack tracee available)
    (hx : consult (frameOracle (RawRegs.fromPublic addr regs) tracee available
        (procInfoOf (WellFormed.details m cie fde)))
      (initAndStep (libunwind b rounds otherwise) UNW_REG_IP [UNW_REG_SP, UNW_X86_64_RBP]) = some r) :
    ∃ ctx, X8664.backend.nativeStep (process b rounds otherwise memory) (ModuleSet.after ops) addr regs
      readStack w = some (r, ctx) := by
  have hanswers := @accessors_answer ops readStack tracee available (RawRegs.fromPublic addr regs)
    (WellFormed.details m cie fde)
    (Backend.env (process b rounds otherwise memory) (ModuleSet.after ops) addr readStack) rfl rfl hr
  obtain ⟨ctx, hrun, -⟩ := run_of_consult hanswers hx
    (s := X8664.backend.startCtx addr regs w) ⟨rfl, he.procInfo hc⟩
  exact ⟨ctx, hrun⟩

theorem Tabled.leaves (h : Tabled b ops tracee available frame regs cie row cfa ip) :
    ∃ m ehFrame fde cieProgram fdeProgram sp,
      EntryAt (ModuleSet.after ops) frame.addressForLookup m ehFrame cie fde ∧
      Leaves b (RawRegs.fromPublic frame.addressForLookup regs) tracee available
        (procInfoOf (WellFormed.details m cie fde)) (WellFormed.details m cie fde).cieInfo
        cieProgram fdeProgram row sp cfa ip := by
  obtain ⟨m, ehFrame, fde, cieProgram, fdeProgram, he, hl, hrow⟩ := h.entry
  obtain ⟨sp, hsp, hmoves⟩ := h.moves
  exact ⟨m, ehFrame, fde, cieProgram, fdeProgram, sp, he, ⟨rfl, rfl⟩, hsp, hrow.hasRow hl he.covers _,
    h.leads, hmoves⟩

theorem unwindFrame_native {modules : ModuleSet} (hp : OnDwarfPath modules frame.addressForLookup)
    {P : Process} {r : Except LibunwindError StepOutcome} {ctx : UnwindCtx RawRegs}
    (hn : X8664.backend.nativeStep P modules frame.addressForLookup regs readStack w = some (r, ctx)) :
    X8664.backend.unwindFrame P modules readStack frame regs w =
      some (X8664.backend.finishStep modules frame regs r ctx) := by
  have hlookup : X8664.backend.lookupIp regs frame = frame.addressForLookup := rfl
  unfold Backend.unwindFrame
  rw [hlookup, hp.header, hp.info, hn]
  rfl

/-- Behind a step of libunwind that reached a frame, the caches tell the kind of the
frame that was left. -/
theorem nativeStep_signalFrame {addr : UInt64} {m : ModuleData} {ehFrame : Buffer} {fde : ParsedFde}
    (he : EntryAt (ModuleSet.after ops) addr m ehFrame cie fde)
    (hc : CacheHistory m (w.caches m.functionCache)) {newIp : UInt64} {extras : Extras}
    {ctx : UnwindCtx RawRegs}
    (hn : X8664.backend.nativeStep (process b rounds otherwise memory) (ModuleSet.after ops) addr regs
      readStack w = some (.ok (.stepped newIp extras), ctx)) :
    (ModuleSet.after ops).isSignalFrame ctx.world.caches addr = cie.signalFrame := by
  have hasked := nativeStep_asked hn
  rcases (Backend.nativeStep_since hn).caches with ⟨hsame, -⟩ | ⟨-, hcaches⟩
  · omega
  · rw [hcaches]
    exact he.isSignalFrame hc

theorem histories_found {caches : Caches} {addr : UInt64} {m : ModuleData}
    (hh : (ModuleSet.after ops).Histories caches)
    (hf : (ModuleSet.after ops).findModule addr = some m) :
    CacheHistory m (caches m.functionCache) := by
  obtain ⟨start, hm⟩ := ModuleSet.findModule_registered hf
  exact hh start m hm

/-- The step from a frame with unwind info goes where the tables say. -/
theorem unwindFrame_caller (h : Tabled b ops tracee available frame regs cie row cfa ip)
    (hh : (ModuleSet.after ops).Histories w.caches) (hr : Readable ops readStack tracee available)
    (hne : ip ≠ 0) {sp' bp' out : UInt64}
    (hsp' : (row.rule RSP).caller (viewOf rounds tracee available frame regs) cfa RSP = some sp')
    (hbp' : (row.rule RBP).caller (viewOf rounds tracee available frame regs) cfa RBP = some bp')
    (hout : Backend.compensated (ModuleSet.after ops) frame cie.signalFrame ip = some out)
    (hadvances : ¬ (out = frame.address ∧ sp' = regs.sp)) :
    ∃ w', X8664.backend.unwindFrame (process b rounds otherwise memory) (ModuleSet.after ops) readStack
        frame regs w = some (.ok (some out), restored regs out sp' bp', w') ∧
      (ModuleSet.after ops).isSignalFrame w'.caches frame.addressForLookup = cie.signalFrame := by
  obtain ⟨m, ehFrame, fde, cieProgram, fdeProgram, sp, he, hl⟩ := h.leaves
  have hc := histories_found hh he.found
  obtain ⟨ctx, hn⟩ := nativeStep_of_consult memory he hc hr
    (initAndStep_recovers otherwise hl hne hsp' hbp')
  have hsignal := nativeStep_signalFrame he hc hn
  refine ⟨ctx.world, ?_, hsignal⟩
  have hlookup : X8664.backend.lookupIp regs frame = frame.addressForLookup := rfl
  have hstrip : X8664.backend.strip regs ip = ip := rfl
  rw [unwindFrame_native he.path hn, Backend.finishStep, hlookup, hsignal, Backend.steppedResult, hstrip]
  dsimp only
  rw [if_neg hne, hout]
  have hmoves : ¬ (out = X8664.backend.currentIp regs frame ∧
      Extras.newSp #v[sp', bp', 0, 0] = X8664.backend.sp regs) := hadvances
  dsimp only
  rw [if_neg hmoves]
  rfl

end Frames

section Walk

variable {b : Build} {rounds : Nat} {otherwise : Stop → Int × Cursor} {memory : Nat → UInt8}
  {ops : List SetOp} {tracee : UInt64 → UInt8} {available : UInt64 → Bool} {readStack : Reader}
  {w : World} {frame : FrameAddress} {regs : UnwindRegs}

/-- The crate reports one more than the address that a row leads to, for the
decrement of the lookup: the frame that is left is a return address and no signal
frame, and the address lies in a module. -/
def Slips (ops : List SetOp) (frame : FrameAddress) (signalFrame : Bool) (ip : UInt64) : Prop :=
  frame.isReturnAddress = true ∧ signalFrame = false ∧
    ∃ m, (ModuleSet.after ops).IsRegistered m ∧ m.Contains ip

/-- The frames that the tables lead to, from a frame on: the address that the row
leads to, and the frame that it is reported as, which is an interrupted
instruction behind a signal frame and a return address elsewhere. The walk goes on
from the reported frame with the stack and frame pointers that the row recovers. -/
inductive Walk (b : Build) (rounds : Nat) (ops : List SetOp) (tracee : UInt64 → UInt8)
    (available : UInt64 → Bool) :
    FrameAddress → UnwindRegs → List (UInt64 × FrameAddress) → Prop where
  | outermost {frame regs cie cfa ip} {row : Row (Fin 17) UInt64 (Exp rounds)}
      (h : Tabled b ops tracee available frame regs cie row cfa ip) (last : Outermost row ip) :
      Walk b rounds ops tracee available frame regs []
  | caller {frame regs cie cfa ip sp bp next rest} {row : Row (Fin 17) UInt64 (Exp rounds)}
      (h : Tabled b ops tracee available frame regs cie row cfa ip) (known : ip ≠ 0)
      (stack : (row.rule RSP).caller (viewOf rounds tracee available frame regs) cfa RSP = some sp)
      (base : (row.rule RBP).caller (viewOf rounds tracee available frame regs) cfa RBP = some bp)
      (address : (next.address = ip ∧ ¬ Slips ops frame cie.signalFrame ip) ∨
        (next.address = ip + 1 ∧ Slips ops frame cie.signalFrame ip))
      (kind : next.isReturnAddress = !cie.signalFrame)
      (advances : ¬ (next.address = frame.address ∧ sp = regs.sp))
      (walk : Walk b rounds ops tracee available next (restored regs next.address sp bp) rest) :
      Walk b rounds ops tracee available frame regs ((ip, next) :: rest)

open UnwindIterator

end Walk

section Recursion

/-- A module whose only function, `0x1000..0x1100`, keeps a frame pointer. -/
def recursiveParts : ModuleParts where
  name := "recursive"
  avmaRange := ⟨0x1000, 0x2000⟩
  baseAvma := 0
  baseSvma := 0
  textSvma := some ⟨0x1000, 0x2000⟩
  ehFrameSvma := some ⟨0x3000, 0x3032⟩
  ehFrame := some ⟨0x7000, ⟨[14, 0, 0, 0, 0, 0, 0, 0, 1, 0, 1, 0x78, 16, 0x0c, 7, 8, 0x90, 1,
    28, 0, 0, 0, 22, 0, 0, 0, 0, 0x10, 0, 0, 0, 0, 0, 0, 0, 0x01, 0, 0, 0, 0, 0, 0,
    0x41, 0x0e, 16, 0x86, 2, 0x43, 0x0d, 6], by decide⟩⟩
  ehFrameHdrSvma := some ⟨0x4000, 0x4014⟩
  ehFrameHdr := some ⟨0x8000, ⟨[1, 0x03, 0x03, 0x3b, 0, 0x30, 0, 0, 1, 0, 0, 0,
    0x00, 0xd0, 0xff, 0xff, 0x12, 0xf0, 0xff, 0xff], by decide⟩⟩

def recursiveSet : List SetOp := [.add recursiveParts 0]

end Recursion

section Interruptions

open UnwindIterator

variable {b : Build} {rounds : Nat} {otherwise : Stop → Int × Cursor} {memory : Nat → UInt8}
  {ops : List SetOp}

/-- With the vendored libunwind, every run classifies its frames from the entries of
the modules, whatever calls have filled the caches before it. -/
theorem libunwind_runs_classified (hw : (ModuleSet.after ops).WellFormedModules) (pc : UInt64)
    (regs : UnwindRegs) (w : World) (readers : List Reader)
    (hh : (ModuleSet.after ops).Histories w.caches) :
    EachStep (call (X8664.backend.unwinder (process b rounds otherwise memory) (ModuleSet.after ops)))
      (Classifies X8664.backend (process b rounds otherwise memory) (ModuleSet.after ops))
      (some (.new pc regs, w)) readers :=
  runsClassify hw (fun _ _ _ _ _ _ _ _ hn => nativeStep_asked hn) pc regs w readers hh

/-- The second frame of the run is a signal frame. -/
theorem interrupted_classified :
    results (X8664.backend.unwinder (process ⟨fun _ => false, fun _ => false⟩ 8
        (fun _ => (-1, blankCursor)) (fun _ => 0)) (ModuleSet.after trampolineSet))
      (List.replicate 4 (steady signalStack)) (.new 0x5000 (.new 0x5000 0x8000 0x9000)) freshWorld =
      [.ok (some (.instructionPointer 0x5000)), .ok (some (.returnAddress 0x1005 (by decide))),
        .ok (some (.instructionPointer 0x6000)), .ok none] ∧
    EachStep (call (X8664.backend.unwinder (process ⟨fun _ => false, fun _ => false⟩ 8
        (fun _ => (-1, blankCursor)) (fun _ => 0)) (ModuleSet.after trampolineSet)))
      (Classifies X8664.backend (process ⟨fun _ => false, fun _ => false⟩ 8
        (fun _ => (-1, blankCursor)) (fun _ => 0)) (ModuleSet.after trampolineSet))
      (some (.new 0x5000 (.new 0x5000 0x8000 0x9000), freshWorld))
      (List.replicate 4 (steady signalStack)) :=
  ⟨by decide +kernel,
    libunwind_runs_classified trampolineSet_wellFormed _ _ _ _ (fun _ _ _ => .fresh)⟩

end Interruptions

end Unwinder.Native.X8664
