import Unwinder.Proofs.FramePointer

namespace Unwinder
open Lib Ffi

/-- Two outcomes that differ in the registers only, and there only as a relation allows. -/
def SameOutcome {Regs α : Type} (S : Regs → Regs → Prop) (out out' : Outcome Regs α) : Prop :=
  out.1 = out'.1 ∧ S out.2.1 out'.2.1 ∧ out.2.2 = out'.2.2

/-- Two results that are absent together, or related. -/
def BothOrNeither {α : Type} (R : α → α → Prop) (x y : Option α) : Prop :=
  (x = none ∧ y = none) ∨ ∃ a b, x = some a ∧ y = some b ∧ R a b

namespace Backend

variable {Regs Raw : Type}

/-- An architecture that cannot tell related registers apart: what it reads of them is
equal, what libunwind is answered is equal, and what a step leaves is related again. -/
structure Hides (B : Backend Regs Raw) (S : Regs → Regs → Prop) (T : Raw → Raw → Prop) : Prop where
  strip : ∀ r r', S r r' → B.strip r = B.strip r'
  sp : ∀ r r', S r r' → B.sp r = B.sp r'
  fp : ∀ r r', S r r' → B.fp r = B.fp r'
  raw : ∀ r r' ip, S r r' → T (B.raw ip r) (B.raw ip r')
  answer : ∀ x x' reg val write, T x x' →
    (B.accessReg x reg val write).1 = (B.accessReg x' reg val write).1
  access : ∀ x x' reg val write, T x x' →
    T (B.accessReg x reg val write).2 (B.accessReg x' reg val write).2
  stepped : ∀ r r' ip extras, S r r' → S (B.stepped r ip extras) (B.stepped r' ip extras)
  fallback : ∀ r r' ra word sp fp, S r r' → S (B.fallback r ra word sp fp) (B.fallback r' ra word sp fp)

/-- Contexts that differ in the registers only. -/
def CtxHides (T : Raw → Raw → Prop) (ctx ctx' : UnwindCtx Raw) : Prop :=
  T ctx.regs ctx'.regs ∧ ctx' = { ctx with regs := ctx'.regs }

theorem findProcInfo_regs (env : UnwindEnv) (pi : UnwProcInfo) (ctx : UnwindCtx Raw) (x : Raw) :
    findProcInfo env pi { ctx with regs := x } =
      (findProcInfo env pi ctx).map (fun r => (r.1, { r.2 with regs := x })) := by
  unfold findProcInfo
  dsimp only
  split <;> rfl

theorem findProcInfo_keeps {env : UnwindEnv} {pi : UnwProcInfo} {ctx ctx' : UnwindCtx Raw}
    {a : Int × UnwProcInfo} (h : findProcInfo env pi ctx = some (a, ctx')) : ctx'.regs = ctx.regs := by
  unfold findProcInfo at h
  dsimp only at h
  split at h
  · obtain ⟨-, rfl⟩ := Prod.mk.inj (Option.some.inj h)
    rfl
  · obtain ⟨-, rfl⟩ := Prod.mk.inj (Option.some.inj h)
    rfl
  · cases h

theorem accessMem_regs (env : UnwindEnv) (addr val : UInt64) (write : Bool) (ctx : UnwindCtx Raw)
    (x : Raw) : accessMem env addr val write { ctx with regs := x } =
      ((accessMem env addr val write ctx).1,
        { (accessMem env addr val write ctx).2 with regs := x }) ∧
      (accessMem env addr val write ctx).2.regs = ctx.regs := by
  unfold accessMem
  split
  · exact ⟨rfl, rfl⟩
  · split
    · exact ⟨rfl, rfl⟩
    · dsimp only
      cases env.readFn.read addr ctx.world with
      | mk v world =>
        cases v with
        | none => exact ⟨rfl, rfl⟩
        | some v => exact ⟨rfl, rfl⟩

variable {B : Backend Regs Raw} {S : Regs → Regs → Prop} {T : Raw → Raw → Prop}

/-- The accessors answer alike, and the registers stay related. -/
theorem Hides.accessors (h : B.Hides S T) (env : UnwindEnv) :
    Interaction.Agree (accessors B.accessReg env) (accessors B.accessReg env) (CtxHides T) := by
  intro o ctx ctx' hctx
  obtain ⟨hT, hrest⟩ := hctx
  rw [hrest]
  cases o with
  | findProcInfo ip pi need =>
    simp only [Unwinder.accessors, findProcInfo_regs]
    cases hf : findProcInfo env pi ctx with
    | none => exact .inl ⟨rfl, rfl⟩
    | some r =>
      obtain ⟨a, ctx₁⟩ := r
      refine .inr ⟨a, ctx₁, _, rfl, rfl, ?_, rfl⟩
      rw [findProcInfo_keeps hf]
      exact hT
  | putUnwindInfo pi => exact .inr ⟨_, _, _, rfl, rfl, hT, rfl⟩
  | getDynInfoListAddr val => exact .inr ⟨_, _, _, rfl, rfl, hT, rfl⟩
  | accessMem addr val write =>
    obtain ⟨hregs, hkeeps⟩ := accessMem_regs env addr val write ctx ctx'.regs
    refine .inr ⟨_, (accessMem env addr val write ctx).2,
      { (accessMem env addr val write ctx).2 with regs := ctx'.regs }, rfl, congrArg some hregs, ?_, rfl⟩
    rw [hkeeps]
    exact hT
  | accessReg reg val write =>
    refine .inr ⟨(B.accessReg ctx.regs reg val write).1,
      { ctx with regs := (B.accessReg ctx.regs reg val write).2 },
      { ctx with regs := (B.accessReg ctx'.regs reg val write).2 }, rfl, ?_,
      h.access _ _ reg val write hT, rfl⟩
    simp only [Unwinder.accessors, Unwinder.accessReg, h.answer _ _ reg val write hT]
  | accessFpreg reg val write => exact .inr ⟨_, _, _, rfl, rfl, hT, rfl⟩

variable {P : Process} {modules : ModuleSet} {regs regs' : Regs}

theorem Hides.nativeStep (h : B.Hides S T) (hS : S regs regs') (P : Process) (modules : ModuleSet)
    (lookupIp : UInt64) (readStack : Reader) (w : World) :
    BothOrNeither (fun r r' => r.1 = r'.1 ∧ CtxHides T r.2 r'.2)
      (B.nativeStep P modules lookupIp regs readStack w)
      (B.nativeStep P modules lookupIp regs' readStack w) := by
  have hstart : CtxHides T (B.startCtx lookupIp regs w) (B.startCtx lookupIp regs' w) :=
    ⟨h.raw regs regs' lookupIp hS, rfl⟩
  rcases Interaction.run_agree (h.accessors (env P modules lookupIp readStack))
    (initAndStep P.libunwind B.regIp B.extraRegs) hstart with hn | ⟨r, ctx, ctx', h1, h2, hctx⟩
  · exact .inl hn
  · exact .inr ⟨(r, ctx), (r, ctx'), h1, h2, rfl, hctx⟩

theorem Hides.fallbackReturn (h : B.Hides S T) (hS : S regs regs')
    (currentIp raLocation newSp newFp : UInt64) (readStack : Reader) (w : World) :
    SameOutcome S (B.fallbackReturn currentIp raLocation newSp newFp regs readStack w)
      (B.fallbackReturn currentIp raLocation newSp newFp regs' readStack w) := by
  unfold Backend.fallbackReturn
  rw [h.strip regs regs' hS, h.sp regs regs' hS]
  cases readStack.read raLocation w with
  | mk v w₁ =>
    cases v with
    | none => exact ⟨rfl, hS, rfl⟩
    | some word =>
      dsimp only
      split
      · exact ⟨rfl, hS, rfl⟩
      · split
        · exact ⟨rfl, hS, rfl⟩
        · exact ⟨rfl, h.fallback _ _ _ _ _ _ hS, rfl⟩

theorem Hides.fallbackUnwindFrame (h : B.Hides S T) (hS : S regs regs') (currentIp : UInt64)
    (readStack : Reader) (w : World) :
    SameOutcome S (B.fallbackUnwindFrame currentIp regs readStack w)
      (B.fallbackUnwindFrame currentIp regs' readStack w) := by
  unfold Backend.fallbackUnwindFrame
  rw [h.fp regs regs' hS, h.sp regs regs' hS]
  dsimp only
  split
  · exact ⟨rfl, hS, rfl⟩
  · split
    · split
      · exact ⟨rfl, hS, rfl⟩
      · cases readStack.read (B.fp regs') w with
        | mk v w₁ =>
          cases v with
          | none => exact ⟨rfl, hS, rfl⟩
          | some newFp =>
            dsimp only
            split
            · exact ⟨rfl, hS, rfl⟩
            · exact h.fallbackReturn hS _ _ _ _ _ _
    · exact ⟨rfl, hS, rfl⟩

theorem Hides.currentIp (h : B.Hides S T) (hS : S regs regs') (frame : FrameAddress) :
    B.currentIp regs frame = B.currentIp regs' frame := by
  unfold Backend.currentIp
  rw [h.strip regs regs' hS]

theorem Hides.lookupIp (h : B.Hides S T) (hS : S regs regs') (frame : FrameAddress) :
    B.lookupIp regs frame = B.lookupIp regs' frame := by
  unfold Backend.lookupIp
  rw [h.strip regs regs' hS]

theorem Hides.finishStep (h : B.Hides S T) (hS : S regs regs') (frame : FrameAddress)
    (r : Except LibunwindError StepOutcome) {ctx ctx' : UnwindCtx Raw} (hctx : CtxHides T ctx ctx') :
    SameOutcome S (B.finishStep modules frame regs r ctx) (B.finishStep modules frame regs' r ctx') := by
  have hw : ctx'.world = ctx.world := by rw [hctx.2]
  cases r with
  | error err =>
    refine ⟨?_, hS, hw.symm⟩
    unfold Backend.finishStep stepError
    rw [hctx.2]
  | ok outcome =>
    cases outcome with
    | endOfStack => exact ⟨rfl, hS, hw.symm⟩
    | stepped newIp extras =>
      simp only [Backend.finishStep, Backend.steppedResult, hw, h.lookupIp hS, h.currentIp hS,
        h.strip regs regs' hS, h.sp regs regs' hS]
      split
      · exact ⟨rfl, hS, rfl⟩
      · split
        · exact ⟨rfl, hS, rfl⟩
        · split
          · exact ⟨rfl, hS, rfl⟩
          · exact ⟨rfl, h.stepped _ _ _ _ hS, rfl⟩

/-- A step from related registers ends alike. -/
theorem Hides.unwindFrame (h : B.Hides S T) (hS : S regs regs') (readStack : Reader)
    (frame : FrameAddress) (w : World) :
    BothOrNeither (SameOutcome S) (B.unwindFrame P modules readStack frame regs w)
      (B.unwindFrame P modules readStack frame regs' w) := by
  unfold Backend.unwindFrame
  rw [h.lookupIp hS, h.currentIp hS]
  cases modules.unwindInfoError (B.lookupIp regs' frame) with
  | some err => exact .inr ⟨_, _, rfl, rfl, rfl, hS, rfl⟩
  | none =>
    dsimp only
    split
    · exact .inr ⟨_, _, rfl, rfl, h.fallbackUnwindFrame hS _ _ _⟩
    · rcases h.nativeStep hS P modules (B.lookupIp regs' frame) readStack w with
        ⟨hn, hn'⟩ | ⟨⟨r, ctx⟩, ⟨r', ctx'⟩, h1, h2, hr, hctx⟩
      · rw [hn, hn']
        exact .inl ⟨rfl, rfl⟩
      · rw [h1, h2]
        obtain rfl := hr
        exact .inr ⟨_, _, rfl, rfl, h.finishStep hS frame r hctx⟩

/-- The registers of a caller are those that a step of either kind stores. -/
theorem unwindFrame_caller {readStack : Reader} {frame : FrameAddress} {w w' : World} {ra : UInt64}
    (h : B.unwindFrame P modules readStack frame regs w = some (.ok (some ra), regs', w')) :
    (∃ extras, regs' = B.stepped regs ra extras) ∨
      ∃ word newSp newFp, regs' = B.fallback regs ra word newSp newFp := by
  rcases unwindFrame_cases h with ⟨err, -, he⟩ | ⟨-, he⟩ | ⟨-, r, ctx, -, he⟩
  · cases he
  · obtain ⟨word, newSp, newFp, -, -, hregs, -⟩ := fallbackUnwindFrame_caller he.symm
    exact .inr ⟨word, newSp, newFp, hregs⟩
  · obtain ⟨v, extras, -, -, -, -, hregs⟩ := finishStep_caller he.symm
    exact .inl ⟨extras, hregs⟩

end Backend

namespace UnwindIterator

variable {Regs Raw : Type} {B : Backend Regs Raw} {S : Regs → Regs → Prop} {T : Raw → Raw → Prop}
  {P : Process} {modules : ModuleSet} {it it' : UnwindIterator Regs}

/-- Iterators at the same place with related registers. -/
def SamePlace (S : Regs → Regs → Prop) (it it' : UnwindIterator Regs) : Prop :=
  it.state = it'.state ∧ S it.regs it'.regs

theorem next_samePlace (h : B.Hides S T) (hit : SamePlace S it it') (readStack : Reader) (w : World) :
    BothOrNeither (fun r r' => r.1 = r'.1 ∧ SamePlace S r.2.1 r'.2.1 ∧ r.2.2 = r'.2.2)
      (next (B.unwinder P modules) readStack it w) (next (B.unwinder P modules) readStack it' w) := by
  obtain ⟨hstate, hS⟩ := hit
  cases hst : it.state with
  | initial pc =>
    unfold next
    rw [← hstate, hst]
    exact .inr ⟨_, _, rfl, rfl, rfl, ⟨rfl, hS⟩, rfl⟩
  | done =>
    rw [next_done hst, next_done (hstate.symm.trans hst)]
    exact .inr ⟨_, _, rfl, rfl, rfl, ⟨hstate, hS⟩, rfl⟩
  | unwinding frame =>
    have hst' := hstate.symm.trans hst
    rcases h.unwindFrame hS readStack frame w with
      ⟨hn, hn'⟩ | ⟨⟨r, regs, w₁⟩, ⟨r', regs', w₁'⟩, h1, h2, hr, hregs, hw⟩
    · rw [next_aborted hst hn, next_aborted hst' hn']
      exact .inl ⟨rfl, rfl⟩
    · obtain rfl : r = r' := hr
      obtain rfl : w₁ = w₁' := hw
      cases r with
      | error err =>
        rw [next_failed hst h1, next_failed hst' h2]
        exact .inr ⟨_, _, rfl, rfl, rfl, ⟨hstate, hregs⟩, rfl⟩
      | ok ra =>
        have hsignal : B.isSignalFrame modules w₁.caches frame regs =
            B.isSignalFrame modules w₁.caches frame regs' := by
          unfold Backend.isSignalFrame
          rw [h.lookupIp hregs]
        rw [next_stepped hst h1, next_stepped hst' h2]
        refine .inr ⟨_, _, rfl, rfl, ?_, ⟨?_, hregs⟩, rfl⟩
        · exact congrArg (fun b => Except.ok (advance b ra).1) hsignal
        · exact congrArg (fun b => (advance b ra).2) hsignal

/-- Whole runs from related registers return the same. -/
theorem results_samePlace (h : B.Hides S T) (readers : List Reader) (hit : SamePlace S it it')
    (w : World) : results (B.unwinder P modules) readers it w =
      results (B.unwinder P modules) readers it' w := by
  induction readers generalizing it it' w with
  | nil => rfl
  | cons readStack readers ih =>
    rw [results, results]
    rcases next_samePlace h hit readStack w with
      ⟨hn, hn'⟩ | ⟨⟨r, it₁, w₁⟩, ⟨r', it₁', w₁'⟩, h1, h2, hr, hplace, hw⟩
    · rw [hn, hn']
    · obtain rfl : r = r' := hr
      obtain rfl : w₁ = w₁' := hw
      rw [h1, h2]
      exact congrArg (r :: ·) (ih hplace w₁)

end UnwindIterator

namespace X8664

variable {r r' : UnwindRegs} {i j : Fin 16}

/-- The register holds a value. -/
def UnwindRegs.Valid (r : UnwindRegs) (i : Fin 16) : Prop := r.validRegs &&& bit i ≠ 0

/-- Equal but for the registers that hold no value. -/
structure UnwindRegs.Agree (r r' : UnwindRegs) : Prop where
  ip : r.ip = r'.ip
  validRegs : r.validRegs = r'.validRegs
  regs : ∀ i, r.Valid i → r.regs.get i = r'.regs.get i

def UnwindRegs.PointersValid (r : UnwindRegs) : Prop := r.Valid Reg.RSP.index ∧ r.Valid Reg.RBP.index

theorem Reg.index_injective : Function.Injective Reg.index := by
  intro a b h
  cases a <;> cases b <;> first | rfl | cases h

theorem bit_apart : ∀ i j : Fin 16, i ≠ j → bit j &&& bit i = 0 := by decide

theorem bit_self : ∀ i : Fin 16, bit i &&& bit i ≠ 0 := by decide

theorem or_and (m a b : UInt16) : (m ||| a) &&& b = (m &&& b) ||| (a &&& b) := by
  rw [← UInt16.toBitVec_inj]
  ext k hk
  simp [Bool.and_or_distrib_right]

theorem valid_setIndex (r : UnwindRegs) (i j : Fin 16) (v : UInt64) :
    (r.setIndex j v).Valid i ↔ i = j ∨ r.Valid i := by
  unfold UnwindRegs.Valid UnwindRegs.setIndex
  dsimp only
  rw [or_and]
  by_cases h : i = j
  · subst h
    refine ⟨fun _ => .inl rfl, fun _ hz => bit_self i ?_⟩
    exact (UInt16.or_eq_zero_iff.mp hz).2
  · rw [bit_apart i j h, UInt16.or_zero]
    exact ⟨.inr, fun hv => hv.resolve_left h⟩

theorem agree_setIndex (h : r.Agree r') (j : Fin 16) (v : UInt64) :
    (r.setIndex j v).Agree (r'.setIndex j v) where
  ip := h.ip
  validRegs := congrArg (· ||| bit j) h.validRegs
  regs i hi := by
    have hget : ∀ r : UnwindRegs, (r.setIndex j v).regs.get i =
        if j.val = i.val then v else r.regs.get i :=
      fun _ => Vector.getElem_set j.isLt i.isLt
    rw [hget, hget]
    split
    · rfl
    · next hne =>
      have hvalid := (valid_setIndex r i j v).mp hi
      exact h.regs i (hvalid.resolve_left (fun he => hne (congrArg Fin.val he.symm)))

/-- The accessor answers from valid registers only. -/
theorem accessReg_agree (h : r.Agree r') (reg : Int) (val : UInt64) (write : Bool) :
    (RawRegs.accessReg r reg val write).1 = (RawRegs.accessReg r' reg val write).1 ∧
      (RawRegs.accessReg r reg val write).2.Agree (RawRegs.accessReg r' reg val write).2 := by
  unfold RawRegs.accessReg
  split
  · split
    · exact ⟨rfl, rfl, h.validRegs, h.regs⟩
    · exact ⟨by rw [h.ip], h⟩
  · split
    · next hin =>
      dsimp only
      split
      · exact ⟨rfl, agree_setIndex h _ val⟩
      · rw [← h.validRegs]
        split
        · next hv => exact ⟨congrArg (Prod.mk _) (h.regs _ hv), h⟩
        · exact ⟨rfl, h⟩
    · exact ⟨rfl, h⟩

theorem valid_restored {ip sp bp : UInt64} :
    (restored r ip sp bp).Valid i ↔ i = Reg.RSP.index ∨ i = Reg.RBP.index := by
  have hmask : ∀ i : Fin 16, (bit Reg.RSP.index ||| bit Reg.RBP.index ||| bit Reg.RSP.index |||
      bit Reg.RBP.index) &&& bit i ≠ 0 ↔ i = Reg.RSP.index ∨ i = Reg.RBP.index := by decide
  exact hmask i

/-- Nothing of the old registers is left in what a step stores. -/
theorem restored_agree (r r' : UnwindRegs) (ip sp bp : UInt64) :
    (restored r ip sp bp).Agree (restored r' ip sp bp) where
  ip := rfl
  validRegs := rfl
  regs i hi := by
    rcases valid_restored.mp hi with rfl | rfl
    · exact (restored_sp r ip sp bp).trans (restored_sp r' ip sp bp).symm
    · exact (restored_bp r ip sp bp).trans (restored_bp r' ip sp bp).symm

theorem restored_pointersValid (r : UnwindRegs) (ip sp bp : UInt64) :
    (restored r ip sp bp).PointersValid :=
  ⟨valid_restored.mpr (.inl rfl), valid_restored.mpr (.inr rfl)⟩

theorem hides : backend.Hides (fun r r' => r.Agree r' ∧ r.PointersValid) UnwindRegs.Agree where
  strip _ _ _ := rfl
  sp _ _ h := h.1.regs _ h.2.1
  fp _ _ h := h.1.regs _ h.2.2
  raw _ _ _ h := ⟨rfl, h.1.validRegs, h.1.regs⟩
  answer _ _ reg val write h := (accessReg_agree h reg val write).1
  access _ _ reg val write h := (accessReg_agree h reg val write).2
  stepped r r' _ _ _ := ⟨restored_agree r r' .., restored_pointersValid ..⟩
  fallback r r' _ _ _ _ _ := ⟨restored_agree r r' .., restored_pointersValid ..⟩

/-- The register states that there are: the fields are private, so a caller builds one
from its pointers, sets registers in it, and has the unwinder step it. -/
inductive UnwindRegs.Built : UnwindRegs → Prop
  | new (ip sp bp : UInt64) : Built (.new ip sp bp)
  | set {r : UnwindRegs} (h : Built r) (reg : Reg) (value : UInt64) : Built (r.set reg value)
  | setIp {r : UnwindRegs} (h : Built r) (ip : UInt64) : Built (r.setIp ip)
  | stepped {r : UnwindRegs} (h : Built r) (ip sp bp : UInt64) : Built (restored r ip sp bp)

theorem UnwindRegs.Built.pointersValid (h : r.Built) : r.PointersValid := by
  induction h with
  | new ip sp bp =>
    exact ⟨(valid_setIndex _ _ _ _).mpr (.inr ((valid_setIndex _ _ _ _).mpr (.inl rfl))),
      (valid_setIndex _ _ _ _).mpr (.inl rfl)⟩
  | set h reg value ih =>
    exact ⟨(valid_setIndex _ _ _ _).mpr (.inr ih.1), (valid_setIndex _ _ _ _).mpr (.inr ih.2)⟩
  | setIp h ip ih => exact ih
  | stepped h ip sp bp ih => exact restored_pointersValid ..

theorem getIfSet_restored {ip sp bp : UInt64} {reg : Reg} (hsp : reg ≠ .RSP) (hbp : reg ≠ .RBP) :
    (restored r ip sp bp).getIfSet reg = none := by
  refine if_neg ?_
  intro hv
  rcases valid_restored.mp hv with he | he
  · exact hsp (Reg.index_injective he)
  · exact hbp (Reg.index_injective he)

section Runs

variable (P : Process) (modules : ModuleSet)

abbrev unwinder : FrameUnwinder UnwindRegs := backend.unwinder P modules

/-- Stack and frame pointer hold values in the state. -/
def KeepsPointers (s : Option (UnwindIterator UnwindRegs × World)) : Prop :=
  ∀ it w, s = some (it, w) → it.regs.PointersValid

/-- A call that steps to a caller leaves no register of the callee. -/
def ClearsCallee (s : Option (UnwindIterator UnwindRegs × World)) (readStack : Reader) : Prop :=
  ∀ it w frame caller it' w', s = some (it, w) → it.state = .unwinding frame →
    UnwindIterator.next (unwinder P modules) readStack it w = some (.ok (some caller), it', w') →
    ∀ reg, reg ≠ .RSP → reg ≠ .RBP → it'.regs.getIfSet reg = none

variable {P modules} {it it' : UnwindIterator UnwindRegs} {readStack : Reader} {w w' : World}

theorem unwindFrame_restored {frame : FrameAddress} {ra : UInt64}
    (h : backend.unwindFrame P modules readStack frame r w = some (.ok (some ra), r', w')) :
    ∃ ip sp bp, r' = restored r ip sp bp := by
  rcases Backend.unwindFrame_caller h with ⟨extras, rfl⟩ | ⟨word, newSp, newFp, rfl⟩
  · exact ⟨_, _, _, rfl⟩
  · exact ⟨_, _, _, rfl⟩

/-- A call leaves the registers alone or restores them. -/
theorem next_restored {res : Except Error (Option FrameAddress)}
    (h : UnwindIterator.next (unwinder P modules) readStack it w = some (res, it', w')) :
    it'.regs = it.regs ∨ ∃ ip sp bp, it'.regs = restored it.regs ip sp bp := by
  rcases UnwindIterator.next_cases h with ⟨pc, -, -, rfl, -⟩ | ⟨-, -, rfl, -⟩ |
    ⟨frame, out, regs', -, hu, hout⟩
  · exact .inl rfl
  · exact .inl rfl
  · have hregs : it'.regs = regs' := by
      rcases hout with ⟨err, -, -, rfl⟩ | ⟨ra, -, -, rfl⟩
      · rfl
      · rfl
    rw [hregs]
    by_cases hra : ∃ ra, out = .ok (some ra)
    · obtain ⟨ra, rfl⟩ := hra
      exact .inr (unwindFrame_restored hu)
    · exact .inl ((Backend.unwindFrame_atomic hu).regs (fun ra he => hra ⟨ra, he⟩))

theorem clearsCallee (s : Option (UnwindIterator UnwindRegs × World)) (readStack : Reader) :
    ClearsCallee P modules s readStack := by
  intro it w frame caller it' w' _ hst hn reg hsp hbp
  rcases UnwindIterator.next_cases hn with ⟨pc, hs, -⟩ | ⟨hs, -⟩ | ⟨frame', out, regs', -, hu, hout⟩
  · rw [hst] at hs
    cases hs
  · rw [hst] at hs
    cases hs
  · rcases hout with ⟨err, -, hr, -⟩ | ⟨ra, rfl, hr, rfl⟩
    · cases hr
    · have hra := UnwindIterator.advance_address (Except.ok.inj hr).symm
      subst hra
      obtain ⟨ip, sp, bp, rfl⟩ := unwindFrame_restored hu
      exact getIfSet_restored hsp hbp

theorem keepsPointers_run {regs : UnwindRegs} (h : regs.PointersValid) (pc : UInt64) (w : World)
    (readers : List Reader) : Always (UnwindIterator.call (unwinder P modules)) KeepsPointers
      (some (.new pc regs, w)) readers := by
  refine always_iff_shorter.mpr ?_
  intro bs _
  refine runFrom_inv (I := KeepsPointers) ?_ ?_
  · intro s readStack _ hs
    refine UnwindIterator.call_inv (I := fun it _ => it.regs.PointersValid) ?_ s readStack
      (fun it w he => hs it w he)
    intro readStack it w r it' w' hi hn
    rcases next_restored hn with he | ⟨ip, sp, bp, he⟩
    · rw [he]
      exact hi
    · rw [he]
      exact restored_pointersValid ..
  · intro it w' he
    obtain ⟨rfl, -⟩ := Prod.mk.inj (Option.some.inj he)
    exact h

end Runs

/-- Registers that hold no value do not influence a run: two states that agree on all
others return the same results; every state reached has its pointers, and behind a
step nothing but its pointers. -/
theorem invalid_registers_unobserved (P : Process) (modules : ModuleSet) (regs regs' : UnwindRegs)
    (hbuilt : regs.Built) (h : regs.Agree regs') (pc : UInt64) (w : World) (readers : List Reader) :
    UnwindIterator.results (unwinder P modules) readers (.new pc regs) w =
      UnwindIterator.results (unwinder P modules) readers (.new pc regs') w ∧
    (∀ r, r = regs ∨ r = regs' →
      Always (UnwindIterator.call (unwinder P modules)) KeepsPointers (some (.new pc r, w)) readers ∧
      EachStep (UnwindIterator.call (unwinder P modules)) (ClearsCallee P modules)
        (some (.new pc r, w)) readers) := by
  have hvalid := hbuilt.pointersValid
  have hplace : UnwindIterator.SamePlace (fun r r' => r.Agree r' ∧ r.PointersValid)
      (.new pc regs) (.new pc regs') := ⟨rfl, h, hvalid⟩
  refine ⟨UnwindIterator.results_samePlace hides readers hplace w, ?_⟩
  intro r hr
  have hpointers : r.PointersValid := by
    rcases hr with rfl | rfl
    · exact hvalid
    · unfold UnwindRegs.PointersValid UnwindRegs.Valid at hvalid ⊢
      rwa [← h.validRegs]
  refine ⟨keepsPointers_run hpointers pc w readers, ?_⟩
  exact eachStep_of_inv (I := fun _ => True) (fun _ _ _ => trivial)
    (fun s readStack _ => clearsCallee s readStack) trivial

/-- A caller's registers, with what the callee had in `RBX` still in the array. -/
def leftover (rbx : UInt64) : UnwindRegs :=
  restored ((UnwindRegs.new 0x1008 0x8000 0).set .RBX rbx) 0x1110 0x9000 0

theorem leftover_unobserved : (leftover 5).get .RBX ≠ (leftover 7).get .RBX ∧
    UnwindIterator.results callUnwinder (List.replicate 4 callReader) (.new 0x1110 (leftover 5))
        freshWorld =
      UnwindIterator.results callUnwinder (List.replicate 4 callReader) (.new 0x1110 (leftover 7))
        freshWorld :=
  ⟨by decide, (invalid_registers_unobserved topOfStackX8664 twoFunctionSet (leftover 5) (leftover 7)
    (.stepped (.set (.new ..) ..) ..) (restored_agree ..) 0x1110 freshWorld _).1⟩

end X8664

end Unwinder
