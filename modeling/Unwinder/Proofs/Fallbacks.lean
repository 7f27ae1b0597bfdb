import Unwinder.Fallbacks
import Unwinder.Proofs.FramePointer

namespace Unwinder
open Lib

namespace RegsM

variable {Regs α β : Type} {r : Regs} {w : World}

@[simp] theorem outcome_pure (a : α) :
    outcome (pure a : RegsM Regs α) r w = (.ok a, r, w) := rfl

@[simp] theorem outcome_throw_bind (e : Error) (f : α → RegsM Regs β) :
    outcome ((throw e : RegsM Regs α) >>= f) r w = (.error e, r, w) := rfl

@[simp] theorem outcome_regs_bind (f : Regs → RegsM Regs β) :
    outcome (regs >>= f) r w = outcome (f r) r w := rfl

@[simp] theorem outcome_change_bind (g : Regs → Regs) (f : Unit → RegsM Regs β) :
    outcome (change g >>= f) r w = outcome (f ()) (g r) w := rfl

@[simp] theorem outcome_okOr_some (e : Error) (a : α) (f : α → RegsM Regs β) :
    outcome (okOr e (some a) >>= f) r w = outcome (f a) r w := rfl

@[simp] theorem outcome_okOr_none (e : Error) (f : α → RegsM Regs β) :
    outcome (okOr e none >>= f) r w = (.error e, r, w) := rfl

theorem outcome_readStack_bind {reader : Reader} {addr : UInt64} {answer : Option UInt64}
    {w' : World} (h : reader.read addr w = (answer, w')) (f : Option UInt64 → RegsM Regs β) :
    outcome (readStack reader addr >>= f) r w = outcome (f answer) r w' := by
  have hrun : outcome (readStack reader addr >>= f) r w =
      outcome (f (reader.read addr w).1) r (reader.read addr w).2 := rfl
  rw [hrun, h]

@[simp] theorem outcome_ite (c : Prop) [Decidable c] (x y : RegsM Regs α) :
    outcome (if c then x else y) r w = if c then outcome x r w else outcome y r w := by
  split
  · rfl
  · rfl

end RegsM

open RegsM

/-- The x86_64 body is the step that the unwinder takes without unwind info. -/
theorem X8664.fallbackUnwindFrameBody_outcome (currentIp : UInt64) (reader : Reader)
    (regs : X8664.UnwindRegs) (w : World) :
    outcome (X8664.fallbackUnwindFrameBody currentIp reader) regs w =
      X8664.fallbackUnwindFrame currentIp regs reader w := by
  unfold X8664.fallbackUnwindFrameBody X8664.fallbackUnwindFrame Backend.fallbackUnwindFrame
  have hfp : X8664.backend.fp regs = regs.bp := rfl
  have hsp : X8664.backend.sp regs = regs.sp := rfl
  simp only [outcome_regs_bind, outcome_ite, outcome_pure, hfp, hsp]
  cases checkedAdd64 regs.bp 8 with
  | none => simp only [outcome_okOr_none]
  | some raLocation =>
    cases checkedAdd64 regs.bp 16 with
    | none => simp only [outcome_okOr_some, outcome_okOr_none]
    | some newSp =>
      obtain ⟨newBp, hread⟩ := Backend.read_spec reader regs.bp w
      simp only [outcome_okOr_some, outcome_ite, outcome_throw_bind, outcome_readStack_bind hread,
        hread]
      cases newBp with
      | none => simp only [outcome_okOr_none]
      | some newBp =>
        unfold Backend.fallbackReturn
        obtain ⟨word, hword⟩ := Backend.read_spec reader raLocation
          { w with reads := (regs.bp, some newBp) :: w.reads }
        simp only [outcome_okOr_some, outcome_ite, outcome_throw_bind,
          outcome_readStack_bind hword, hword]
        cases word with
        | none => simp only [outcome_okOr_none]
        | some word =>
          -- the two conditions of the last check stand the other way round
          simp only [outcome_okOr_some, outcome_ite, outcome_pure, outcome_throw_bind,
            outcome_change_bind, hsp, and_comm (a := newSp = regs.sp)]
          rfl

/-- The aarch64 body is the step that the unwinder takes without unwind info. -/
theorem Aarch64.fallbackUnwindFrameBody_outcome (currentIp : UInt64) (reader : Reader)
    (regs : Aarch64.UnwindRegs) (w : World) :
    outcome (Aarch64.fallbackUnwindFrameBody currentIp reader) regs w =
      Aarch64.fallbackUnwindFrame currentIp regs reader w := by
  unfold Aarch64.fallbackUnwindFrameBody Aarch64.fallbackUnwindFrame Backend.fallbackUnwindFrame
  have hfp : Aarch64.backend.fp regs = regs.fp := rfl
  have hsp : Aarch64.backend.sp regs = regs.sp := rfl
  simp only [outcome_regs_bind, outcome_ite, outcome_pure, hfp, hsp]
  cases checkedAdd64 regs.fp 8 with
  | none => simp only [outcome_okOr_none]
  | some raLocation =>
    cases checkedAdd64 regs.fp 16 with
    | none => simp only [outcome_okOr_some, outcome_okOr_none]
    | some newSp =>
      obtain ⟨newFp, hread⟩ := Backend.read_spec reader regs.fp w
      simp only [outcome_okOr_some, outcome_ite, outcome_throw_bind, outcome_readStack_bind hread,
        hread]
      cases newFp with
      | none => simp only [outcome_okOr_none]
      | some newFp =>
        unfold Backend.fallbackReturn
        obtain ⟨word, hword⟩ := Backend.read_spec reader raLocation
          { w with reads := (regs.fp, some newFp) :: w.reads }
        simp only [outcome_okOr_some, outcome_ite, outcome_throw_bind,
          outcome_readStack_bind hword, hword]
        cases word with
        | none => simp only [outcome_okOr_none]
        | some word =>
          simp only [outcome_okOr_some, outcome_regs_bind, outcome_ite, outcome_pure,
            outcome_throw_bind, outcome_change_bind, hsp]
          rfl

namespace Backend

variable {Regs Raw Regs' Raw' : Type} {B : Backend Regs Raw} {B' : Backend Regs' Raw'}
  {regs : Regs} {regs' : Regs'} {w : World} {reader reader' : Reader}

variable (B B' regs regs' w) in
/-- Two frame-pointer steps side by side: they ask for the same addresses, and
both stay where they are with one result, or both go to the same caller. -/
inductive SameWalk : Outcome Regs (Option UInt64) → Outcome Regs' (Option UInt64) → Prop where
  | stays (rs rs' : List StackRead) (r : Except Error (Option UInt64))
    (hr : ∀ ra, r ≠ .ok (some ra)) (hrs : rs.map Prod.fst = rs'.map Prod.fst) :
    SameWalk (r, regs, { w with reads := rs ++ w.reads })
      (r, regs', { w with reads := rs' ++ w.reads })
  | caller (ra word word' newSp newFp : UInt64) (hword : B.strip regs word = ra)
    (hword' : B'.strip regs' word' = ra) :
    SameWalk
      (.ok (some ra), B.fallback regs ra word newSp newFp,
        { w with reads := [(B.fp regs + 8, some word), (B.fp regs, some newFp)] ++ w.reads })
      (.ok (some ra), B'.fallback regs' ra word' newSp newFp,
        { w with reads := [(B.fp regs + 8, some word'), (B.fp regs, some newFp)] ++ w.reads })

variable (B B' regs regs' w) in
/-- The first read is answered alike, and later ones alike once stripped. -/
structure SameWords (reader reader' : Reader) : Prop where
  first : ∀ addr, reader w.reads addr = reader' w.reads addr
  later : ∀ hist addr, hist ≠ w.reads →
    (reader hist addr).map (B.strip regs) = (reader' hist addr).map (B'.strip regs')

theorem fallbackReturn_sameWalk (h : SameWords B B' regs regs' w reader reader')
    (hsp : B.sp regs = B'.sp regs') (currentIp newSp newFp : UInt64) {w₁ : World}
    (hw : w₁ = { w with reads := (B.fp regs, some newFp) :: w.reads }) :
    SameWalk B B' regs regs' w
      (B.fallbackReturn currentIp (B.fp regs + 8) newSp newFp regs reader w₁)
      (B'.fallbackReturn currentIp (B.fp regs + 8) newSp newFp regs' reader' w₁) := by
  unfold fallbackReturn
  have hlater := h.later w₁.reads (B.fp regs + 8) (by rw [hw]; exact List.cons_ne_self _ _)
  simp only [Reader.read]
  cases hv : reader w₁.reads (B.fp regs + 8) with
  | none =>
    rw [hv, Option.map_none, eq_comm, Option.map_eq_none_iff] at hlater
    rw [hlater, hw]
    exact .stays [(B.fp regs + 8, none), (B.fp regs, some newFp)]
      [(B.fp regs + 8, none), (B.fp regs, some newFp)] _ (by simp) rfl
  | some word =>
    rw [hv, Option.map_some, eq_comm, Option.map_eq_some_iff] at hlater
    obtain ⟨word', hv', hword⟩ := hlater
    rw [hv', hw]
    dsimp only
    rw [hword, ← hsp]
    split
    · exact .stays [(B.fp regs + 8, some word), (B.fp regs, some newFp)]
        [(B.fp regs + 8, some word'), (B.fp regs, some newFp)] _ (by simp) rfl
    · split
      · exact .stays [(B.fp regs + 8, some word), (B.fp regs, some newFp)]
          [(B.fp regs + 8, some word'), (B.fp regs, some newFp)] _ (by simp) rfl
      · exact .caller _ word word' newSp newFp rfl hword

theorem fallbackUnwindFrame_sameWalk (h : SameWords B B' regs regs' w reader reader')
    (hsp : B.sp regs = B'.sp regs') (hfp : B.fp regs = B'.fp regs') (currentIp : UInt64) :
    SameWalk B B' regs regs' w (B.fallbackUnwindFrame currentIp regs reader w)
      (B'.fallbackUnwindFrame currentIp regs' reader' w) := by
  unfold fallbackUnwindFrame
  rw [← hsp, ← hfp]
  dsimp only
  split
  · exact .stays [] [] _ (by simp) rfl
  · split
    · next raLocation newSp hra _ =>
      have hloc := eq_add_of_checkedAdd64 hra
      split
      · exact .stays [] [] _ (by simp) rfl
      · simp only [Reader.read, ← h.first]
        cases reader w.reads (B.fp regs) with
        | none => exact .stays [(B.fp regs, none)] [(B.fp regs, none)] _ (by simp) rfl
        | some newFp =>
          dsimp only
          split
          · exact .stays [(B.fp regs, some newFp)] [(B.fp regs, some newFp)] _ (by simp) rfl
          · rw [hloc]
            exact fallbackReturn_sameWalk h hsp currentIp newSp newFp rfl
    · exact .stays [] [] _ (by simp) rfl

theorem SameWalk.pointers {out : Outcome Regs (Option UInt64)} {out' : Outcome Regs' (Option UInt64)}
    (hB : B.StoresPointers) (hB' : B'.StoresPointers) (hsp : B.sp regs = B'.sp regs')
    (hfp : B.fp regs = B'.fp regs') (h : SameWalk B B' regs regs' w out out') :
    B.sp out.2.1 = B'.sp out'.2.1 ∧ B.fp out.2.1 = B'.fp out'.2.1 := by
  cases h with
  | stays => exact ⟨hsp, hfp⟩
  | caller => exact ⟨by rw [hB.sp, hB'.sp], by rw [hB.fp, hB'.fp]⟩

theorem SameWalk.result {out : Outcome Regs (Option UInt64)} {out' : Outcome Regs' (Option UInt64)}
    (h : SameWalk B B' regs regs' w out out') : out.1 = out'.1 := by
  cases h with
  | stays => rfl
  | caller => rfl

theorem SameWalk.reads {out : Outcome Regs (Option UInt64)} {out' : Outcome Regs' (Option UInt64)}
    (h : SameWalk B B' regs regs' w out out') :
    out.2.2.reads.map Prod.fst = out'.2.2.reads.map Prod.fst := by
  cases h with
  | stays rs rs' r hr hrs => rw [List.map_append, List.map_append, hrs]
  | caller => rfl

end Backend

/-- A step of each architecture: the same addresses were asked for in the same
order, the result is the same, and so are the pointers behind the step. -/
structure SameStep (x : Outcome X8664.UnwindRegs (Option UInt64))
    (a : Outcome Aarch64.UnwindRegs (Option UInt64)) : Prop where
  result : x.1 = a.1
  reads : x.2.2.reads.map Prod.fst = a.2.2.reads.map Prod.fst
  sp : x.2.1.sp = a.2.1.sp
  fp : x.2.1.bp = a.2.1.fp

/-- The reader with the return word masked, which is what a step reads behind its
first read. -/
def Reader.returnMasked (reader : Reader) (w : World) (m : Aarch64.PtrAuthMask) : Reader :=
  fun hist addr =>
    if hist = w.reads then reader hist addr else (reader hist addr).map m.stripPtrAuth

theorem Reader.returnMasked_newNoStrip (reader : Reader) (w : World) :
    reader.returnMasked w .newNoStrip = reader := by
  have hstrip : Aarch64.PtrAuthMask.newNoStrip.stripPtrAuth = id := by
    funext addr
    exact UInt64.and_neg_one
  funext hist addr
  unfold returnMasked
  rw [hstrip, Option.map_id, id, ite_self]

theorem sameWords_returnMasked (rx : X8664.UnwindRegs) (ra : Aarch64.UnwindRegs) (w : World)
    (reader : Reader) :
    Backend.SameWords X8664.backend Aarch64.backend rx ra w (reader.returnMasked w ra.lrMask)
      reader where
  first _ := if_pos rfl
  later hist addr hne := by
    have hid : X8664.backend.strip rx = id := rfl
    rw [hid, Option.map_id, id]
    exact if_neg hne

theorem sameStep_of_sameWords {rx : X8664.UnwindRegs} {ra : Aarch64.UnwindRegs} {w : World}
    {reader reader' : Reader}
    (h : Backend.SameWords X8664.backend Aarch64.backend rx ra w reader reader')
    (hsp : rx.sp = ra.sp) (hfp : rx.bp = ra.fp) (currentIp : UInt64) :
    SameStep (outcome (X8664.fallbackUnwindFrameBody currentIp reader) rx w)
      (outcome (Aarch64.fallbackUnwindFrameBody currentIp reader') ra w) := by
  rw [X8664.fallbackUnwindFrameBody_outcome, Aarch64.fallbackUnwindFrameBody_outcome]
  have hwalk := Backend.fallbackUnwindFrame_sameWalk h hsp hfp currentIp
  obtain ⟨hsp', hfp'⟩ := hwalk.pointers X8664.storesPointers Aarch64.storesPointers hsp hfp
  exact ⟨hwalk.result, hwalk.reads, hsp', hfp'⟩

/-- What is returned and stored is the masked word that was read last. -/
theorem Aarch64.fallbackUnwindFrameBody_lr {currentIp addr : UInt64} {reader : Reader}
    {ra : Aarch64.UnwindRegs} {w : World}
    (h : (outcome (Aarch64.fallbackUnwindFrameBody currentIp reader) ra w).1 = .ok (some addr)) :
    ∃ word,
      (outcome (Aarch64.fallbackUnwindFrameBody currentIp reader) ra w).2.2.reads.head? =
        some (ra.fp + 8, some word) ∧
      addr = ra.lrMask.stripPtrAuth word ∧
      (outcome (Aarch64.fallbackUnwindFrameBody currentIp reader) ra w).2.1.lr = addr := by
  rw [Aarch64.fallbackUnwindFrameBody_outcome] at h ⊢
  rcases hout : Aarch64.fallbackUnwindFrame currentIp ra reader w with ⟨r, regs', w'⟩
  rw [hout] at h
  cases h
  obtain ⟨word, newSp, newFp, hword, -, hregs, hreads⟩ := Backend.fallbackUnwindFrame_caller hout
  refine ⟨word, ?_, hword, ?_⟩
  · rw [hreads]
    rfl
  · rw [hregs, hword]
    rfl

/-- Both steps have the same result and registers, and asked for the same addresses. -/
structure Aarch64.SameOutcome (a a' : Outcome Aarch64.UnwindRegs (Option UInt64)) : Prop where
  result : a.1 = a'.1
  regs : a.2.1 = a'.2.1
  reads : a.2.2.reads.map Prod.fst = a'.2.2.reads.map Prod.fst

theorem Aarch64.sameOutcome_of_sameWalk {ra : Aarch64.UnwindRegs} {w : World}
    {a a' : Outcome Aarch64.UnwindRegs (Option UInt64)}
    (h : Backend.SameWalk Aarch64.backend Aarch64.backend ra ra w a a') :
    Aarch64.SameOutcome a a' := by
  refine ⟨h.result, ?_, h.reads⟩
  cases h with
  | stays => rfl
  | caller addr word word' newSp newFp hword hword' =>
    have hlr : ra.setLr word = ra.setLr word' :=
      congrArg (fun lr => { ra with lr := lr }) (hword.trans hword'.symm)
    exact congrArg (fun r : Aarch64.UnwindRegs => (r.setSp newSp).setFp newFp) hlr

/-- The two frame-pointer steps are one algorithm: they agree when x86_64 reads the
masked return word, and so on every input when the mask keeps all bits. The bits
it drops change nothing on aarch64. -/
theorem fallbacks_agree (rx : X8664.UnwindRegs) (ra : Aarch64.UnwindRegs) (hsp : rx.sp = ra.sp)
    (hfp : rx.bp = ra.fp) (currentIp : UInt64) (reader : Reader) (w : World) :
    SameStep
      (outcome (X8664.fallbackUnwindFrameBody currentIp (reader.returnMasked w ra.lrMask)) rx w)
      (outcome (Aarch64.fallbackUnwindFrameBody currentIp reader) ra w) ∧
    (∀ addr, (outcome (Aarch64.fallbackUnwindFrameBody currentIp reader) ra w).1 = .ok (some addr) →
      ∃ word,
        (outcome (Aarch64.fallbackUnwindFrameBody currentIp reader) ra w).2.2.reads.head? =
          some (ra.fp + 8, some word) ∧
        addr = ra.lrMask.stripPtrAuth word ∧
        (outcome (Aarch64.fallbackUnwindFrameBody currentIp reader) ra w).2.1.lr = addr) ∧
    (ra.lrMask = .newNoStrip →
      SameStep (outcome (X8664.fallbackUnwindFrameBody currentIp reader) rx w)
        (outcome (Aarch64.fallbackUnwindFrameBody currentIp reader) ra w)) ∧
    ∀ reader', Backend.SameWords Aarch64.backend Aarch64.backend ra ra w reader reader' →
      Aarch64.SameOutcome (outcome (Aarch64.fallbackUnwindFrameBody currentIp reader) ra w)
        (outcome (Aarch64.fallbackUnwindFrameBody currentIp reader') ra w) := by
  have hmasked := sameStep_of_sameWords (sameWords_returnMasked rx ra w reader) hsp hfp currentIp
  refine ⟨hmasked, fun addr h => Aarch64.fallbackUnwindFrameBody_lr h, ?_, ?_⟩
  · intro hm
    rwa [hm, Reader.returnMasked_newNoStrip] at hmasked
  · intro reader' h
    rw [Aarch64.fallbackUnwindFrameBody_outcome, Aarch64.fallbackUnwindFrameBody_outcome]
    exact Aarch64.sameOutcome_of_sameWalk (Backend.fallbackUnwindFrame_sameWalk h rfl rfl currentIp)

/-- A saved pair whose return address is signed. -/
def signedPair (addr : UInt64) : Option UInt64 :=
  if addr = 0x9000 then some 0x9100
  else if addr = 0x9008 then some 0xab00000000001100
  else none

theorem signedPair_agree :
    (outcome (Aarch64.fallbackUnwindFrameBody 0x1004 (steady signedPair))
      (.newWithPtrAuthMask .new2440 0 0x8000 0x9000) freshWorld).1 = .ok (some 0x1100) ∧
    SameStep
      (outcome (X8664.fallbackUnwindFrameBody 0x1004
        (Reader.returnMasked (steady signedPair) freshWorld .new2440)) (.new 0x1004 0x8000 0x9000)
        freshWorld)
      (outcome (Aarch64.fallbackUnwindFrameBody 0x1004 (steady signedPair))
        (.newWithPtrAuthMask .new2440 0 0x8000 0x9000) freshWorld) :=
  ⟨by decide +kernel,
    (fallbacks_agree (.new 0x1004 0x8000 0x9000) (.newWithPtrAuthMask .new2440 0 0x8000 0x9000)
      (by decide +kernel) (by decide +kernel) 0x1004 (steady signedPair) freshWorld).1⟩

end Unwinder
