import Unwinder.Backend

namespace Unwinder
open Lib

theorem coveringDetails_covers {m : ModuleData} {ip : UInt64} {cie : Dwarf.ParsedCie}
    {fde : Dwarf.ParsedFde} {d : FunctionDetails} (h : coveringDetails m ip cie fde = .ok d) :
    d.startIp ≤ ip ∧ ip < d.endIp := by
  unfold coveringDetails at h
  split at h
  · cases h
  · split at h
    · cases h
    · next endIp _ hin =>
      obtain rfl := Res.ok.inj h
      exact ⟨not_lt.mp (fun hlt => hin (Or.inl hlt)), not_le.mp (fun hle => hin (Or.inr hle))⟩

/-- Parsed details are for a function that contains the address. -/
theorem parseFunctionDetails_covers {m : ModuleData} {ip : UInt64} {d : FunctionDetails}
    (h : parseFunctionDetails m ip = .ok d) : d.startIp ≤ ip ∧ ip < d.endIp := by
  unfold parseFunctionDetails at h
  split at h
  · obtain ⟨_, _, h⟩ := Res.bind_eq_ok.mp h
    obtain ⟨_, _, h⟩ := Res.bind_eq_ok.mp h
    obtain ⟨_, _, h⟩ := Res.bind_eq_ok.mp h
    exact coveringDetails_covers h
  · cases h

/-- Caching the details for an address does not turn another function's entry
into an answer for it. -/
theorem cachedDetails_insert {entries : OrderedMap UInt64 FunctionDetails} {ip : UInt64}
    {d : FunctionDetails} (hd : d.startIp ≤ ip ∧ ip < d.endIp)
    (hmiss : cachedDetails entries ip = none) :
    cachedDetails (entries.insert d.startIp d) ip = some d ∨
      cachedDetails (entries.insert d.startIp d) ip = none := by
  unfold cachedDetails at hmiss ⊢
  cases hl : (entries.insert d.startIp d).lastLE ip with
  | none => exact Or.inr rfl
  | some e =>
    obtain ⟨k, e⟩ := e
    obtain ⟨hg, hle, hmax⟩ := OrderedMap.lastLE_eq_some.mp hl
    rw [OrderedMap.get?_insert] at hg
    split at hg
    · obtain rfl := Option.some.inj hg
      exact Or.inl (if_pos hd.2)
    · -- the nearest entry was there before, and it missed then
      have hold : entries.lastLE ip = some (k, e) := by
        refine OrderedMap.lastLE_eq_some.mpr ⟨hg, hle, ?_⟩
        intro i hi hik
        refine hmax i ?_ hik
        rw [OrderedMap.get?_insert]
        split
        · rfl
        · exact hi
      rw [hold] at hmiss
      exact Or.inr hmiss

/-- Asking a second time gives the same answer and changes nothing. -/
theorem getOrParse_again (m : ModuleData) (ip : UInt64) (cache : FunctionCache) :
    getOrParseFunctionDetails m ip (getOrParseFunctionDetails m ip cache).2 =
      getOrParseFunctionDetails m ip cache := by
  by_cases hp : cache.poisoned = true
  · have h : getOrParseFunctionDetails m ip cache = (.err (.functionCachePoisoned m.name), cache) := by
      rw [getOrParseFunctionDetails, if_pos hp]
    rw [h, h]
  · cases hc : cachedDetails cache.entries ip with
    | some d =>
      have h : getOrParseFunctionDetails m ip cache = (.ok d, cache) := by
        rw [getOrParseFunctionDetails, if_neg hp, hc]
      rw [h, h]
    | none =>
      cases hparse : parseFunctionDetails m ip with
      | err e =>
        have h : getOrParseFunctionDetails m ip cache = (.err e, cache) := by
          rw [getOrParseFunctionDetails, if_neg hp, hc, hparse]
        rw [h, h]
      | panic =>
        have h : getOrParseFunctionDetails m ip cache = (.panic, cache) := by
          rw [getOrParseFunctionDetails, if_neg hp, hc, hparse]
        rw [h, h]
      | ok d =>
        have h : getOrParseFunctionDetails m ip cache =
            (.ok d, { cache with entries := cache.entries.insert d.startIp d }) := by
          rw [getOrParseFunctionDetails, if_neg hp, hc, hparse]
        rw [h, getOrParseFunctionDetails, if_neg hp]
        rcases cachedDetails_insert (parseFunctionDetails_covers hparse) hc with hhit | hmiss
        · rw [hhit]
        · rw [hmiss, hparse]
          dsimp only
          rw [OrderedMap.insert_of_get? (OrderedMap.get?_insert_self _ _ _)]

theorem procInfoAt_again (modules : ModuleSet) (ip : UInt64) (caches : Caches) :
    procInfoAt modules ip (procInfoAt modules ip caches).2 = procInfoAt modules ip caches := by
  unfold procInfoAt
  cases modules.findModule ip with
  | none => rfl
  | some m =>
    dsimp only
    rw [Function.update_self, getOrParse_again, Function.update_idem]

section Accessors

variable {Raw : Type} {access : RegAccess Raw} {env : UnwindEnv}

/-- What a callback can do to the world: nothing, one stack read, or one request
for proc-info. -/
inductive Touched (env : UnwindEnv) (w w' : World) : Prop where
  | untouched (h : w' = w)
  | read (addr : UInt64) (h : w' = (env.readFn.read addr w).2)
  | asked (h : w' = { w with
      caches := (procInfoAt env.modules env.lookupIp w.caches).2, asked := w.asked + 1 })

theorem accessMem_touch (env : UnwindEnv) (addr val : UInt64) (write : Bool)
    (ctx : UnwindCtx Raw) :
    let ctx' := (accessMem env addr val write ctx).2
    (Touched env ctx.world ctx'.world ∧ ctx'.lastFailedReadAddr = ctx.lastFailedReadAddr) ∨
    ∃ addr, env.readFn.read addr ctx.world = (none, ctx'.world) ∧
      ctx'.lastFailedReadAddr = some addr := by
  unfold accessMem
  cases write with
  | true => exact Or.inl ⟨.untouched rfl, rfl⟩
  | false =>
    rw [if_neg (by decide)]
    cases env.modules.lookupLocal addr with
    | some p => exact Or.inl ⟨.untouched rfl, rfl⟩
    | none =>
      dsimp only
      rcases hr : env.readFn.read addr ctx.world with ⟨v, world⟩
      cases v with
      | some v => exact Or.inl ⟨.read addr (congrArg Prod.snd hr).symm, rfl⟩
      | none => exact Or.inr ⟨addr, hr, rfl⟩

/-- A callback touches the world in one of these ways, and blames a read only
after one of its own that failed. -/
theorem accessors_touch {o : Accessor} {ctx ctx' : UnwindCtx Raw} {a : o.Answer}
    (h : accessors access env o ctx = some (a, ctx')) :
    (Touched env ctx.world ctx'.world ∧ ctx'.lastFailedReadAddr = ctx.lastFailedReadAddr) ∨
    ∃ addr, env.readFn.read addr ctx.world = (none, ctx'.world) ∧
      ctx'.lastFailedReadAddr = some addr := by
  cases o with
  | findProcInfo ip pi need =>
    simp only [accessors, findProcInfo] at h
    split at h
    · obtain ⟨-, rfl⟩ := Prod.mk.inj (Option.some.inj h)
      exact Or.inl ⟨.asked rfl, rfl⟩
    · obtain ⟨-, rfl⟩ := Prod.mk.inj (Option.some.inj h)
      exact Or.inl ⟨.asked rfl, rfl⟩
    · cases h
  | accessMem addr val write =>
    obtain ⟨-, rfl⟩ := Prod.mk.inj (Option.some.inj h)
    exact accessMem_touch env addr val write ctx
  | accessReg reg val write =>
    obtain ⟨-, rfl⟩ := Prod.mk.inj (Option.some.inj h)
    exact Or.inl ⟨.untouched rfl, rfl⟩
  | putUnwindInfo pi =>
    obtain ⟨-, rfl⟩ := Prod.mk.inj (Option.some.inj h)
    exact Or.inl ⟨.untouched rfl, rfl⟩
  | getDynInfoListAddr val =>
    obtain ⟨-, rfl⟩ := Prod.mk.inj (Option.some.inj h)
    exact Or.inl ⟨.untouched rfl, rfl⟩
  | accessFpreg reg val write =>
    obtain ⟨-, rfl⟩ := Prod.mk.inj (Option.some.inj h)
    exact Or.inl ⟨.untouched rfl, rfl⟩

/-- How a context stands to the world that its call began in: the reads since
then, among them every one that is blamed, and at most the one entry in the
caches that a request for proc-info leaves. -/
structure Since (env : UnwindEnv) (w : World) (ctx : UnwindCtx Raw) : Prop where
  reads : ∃ rs, ctx.world.reads = rs ++ w.reads ∧
    ∀ addr, ctx.lastFailedReadAddr = some addr → (addr, none) ∈ rs
  caches : (ctx.world.asked = w.asked ∧ ctx.world.caches = w.caches) ∨
    (w.asked < ctx.world.asked ∧
      ctx.world.caches = (procInfoAt env.modules env.lookupIp w.caches).2)

theorem Since.start (env : UnwindEnv) (w : World) (regs : Raw) :
    Since env w ⟨regs, none, none, w⟩ := by
  refine ⟨⟨[], rfl, ?_⟩, Or.inl ⟨rfl, rfl⟩⟩
  intro addr h
  cases h

theorem Since.step {w : World} {o : Accessor} {ctx ctx' : UnwindCtx Raw} {a : o.Answer}
    (hs : Since env w ctx) (h : accessors access env o ctx = some (a, ctx')) :
    Since env w ctx' := by
  obtain ⟨rs, hrs, hblame⟩ := hs.reads
  rcases accessors_touch h with ⟨ht, hlast⟩ | ⟨addr, hread, hlast⟩
  · cases ht with
    | untouched he =>
      rw [← hlast] at hblame
      refine ⟨⟨rs, by rw [he, hrs], hblame⟩, ?_⟩
      rw [he]
      exact hs.caches
    | read addr he =>
      refine ⟨⟨(addr, _) :: rs, by rw [he, Reader.read, hrs]; rfl, ?_⟩, ?_⟩
      · intro b hb
        exact List.mem_cons_of_mem _ (hblame b (hlast ▸ hb))
      · rw [he]
        exact hs.caches
    | asked he =>
      rw [← hlast] at hblame
      refine ⟨⟨rs, by rw [he, hrs], hblame⟩, Or.inr ?_⟩
      rw [he]
      rcases hs.caches with ⟨hasked, hcaches⟩ | ⟨hasked, hcaches⟩
      · exact ⟨by dsimp only; omega, by dsimp only; rw [hcaches]⟩
      · exact ⟨by dsimp only; omega, by dsimp only; rw [hcaches, procInfoAt_again]⟩
  · have hworld : ctx'.world = (env.readFn.read addr ctx.world).2 := by rw [hread]
    have hanswer : env.readFn ctx.world.reads addr = none := congrArg Prod.fst hread
    refine ⟨⟨(addr, none) :: rs, ?_, ?_⟩, ?_⟩
    · rw [hworld, Reader.read, hanswer, hrs]
      rfl
    · intro b hb
      rw [hlast] at hb
      obtain rfl := Option.some.inj hb
      exact List.mem_cons_self
    · rw [hworld]
      exact hs.caches

end Accessors

namespace Backend

variable {Regs Raw : Type} {B : Backend Regs Raw} {P : Process} {modules : ModuleSet}
  {lookupIp : UInt64} {regs : Regs} {readStack : Reader} {w : World}
  {r : Except LibunwindError StepOutcome} {ctx : UnwindCtx Raw}

theorem nativeStep_since (h : B.nativeStep P modules lookupIp regs readStack w = some (r, ctx)) :
    Since (env P modules lookupIp readStack) w ctx := by
  unfold nativeStep at h
  refine Interaction.run_inv (Since (env P modules lookupIp readStack) w) ?_
    (Since.start _ w (B.raw lookupIp regs)) h
  intro o s a s' hs ho
  exact hs.step ho

/-- How a step of libunwind reaches a frame: the cursor is initialised and stepped
with success, and then the registers of the frame are read. -/
theorem nativeStep_stepped {v : UInt64} {extras : Extras}
    (h : B.nativeStep P modules lookupIp regs readStack w = some (.ok (.stepped v extras), ctx)) :
    ∃ initRet cursor ctx₁ stepRet cursor₁ ctx₂,
      P.libunwind.initRemote.run (accessors B.accessReg (env P modules lookupIp readStack))
        (B.startCtx lookupIp regs w) = some ((initRet, cursor), ctx₁) ∧ 0 ≤ initRet ∧
      (P.libunwind.step cursor).run (accessors B.accessReg (env P modules lookupIp readStack)) ctx₁ =
        some ((stepRet, cursor₁), ctx₂) ∧ 0 < stepRet ∧
      (readStepped P.libunwind B.regIp B.extraRegs cursor₁).run
        (accessors B.accessReg (env P modules lookupIp readStack)) ctx₂ =
          some (.ok (.stepped v extras), ctx) := by
  unfold nativeStep initAndStep at h
  rw [Interaction.run_bind] at h
  obtain ⟨⟨⟨initRet, cursor⟩, ctx₁⟩, h₁, h⟩ := Option.bind_eq_some_iff.mp h
  dsimp only at h
  split at h
  · cases h
  · next hinit =>
    unfold stepCursor at h
    rw [Interaction.run_bind] at h
    obtain ⟨⟨⟨stepRet, cursor₁⟩, ctx₂⟩, h₂, h⟩ := Option.bind_eq_some_iff.mp h
    dsimp only at h
    split at h
    · cases h
    · split at h
      · cases h
      · exact ⟨initRet, cursor, ctx₁, stepRet, cursor₁, ctx₂, h₁, by omega, h₂, by omega, h⟩

/-- What is reported are the registers of the stepped cursor. -/
theorem readStepped_regs {handle : (o : Accessor) → UnwindCtx Raw → Option (o.Answer × UnwindCtx Raw)}
    {L : Libunwind} {regIp : Int} {extraRegs : List Int} {cursor : L.Cursor}
    {s s' : UnwindCtx Raw} {v : UInt64} {extras : Extras}
    (h : (readStepped L regIp extraRegs cursor).run handle s = some (.ok (.stepped v extras), s')) :
    ∃ ret cursor₁ s₁, (L.getReg cursor regIp 0).run handle s = some ((ret, v, cursor₁), s₁) ∧
      (readExtras L (extraRegs.take 4) 0 cursor₁ (Vector.replicate 4 0)).run handle s₁ =
        some (.ok extras, s') := by
  unfold readStepped at h
  rw [Interaction.run_bind] at h
  obtain ⟨⟨⟨ret, ip, cursor₁⟩, s₁⟩, h₁, h⟩ := Option.bind_eq_some_iff.mp h
  dsimp only at h
  split at h
  · cases h
  · rw [Interaction.run_bind] at h
    obtain ⟨⟨r, s₂⟩, h₂, h⟩ := Option.bind_eq_some_iff.mp h
    cases r with
    | error err => cases h
    | ok extras' =>
      cases h
      exact ⟨ret, cursor₁, s₁, h₁, h₂⟩

end Backend

end Unwinder
