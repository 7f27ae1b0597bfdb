import Unwinder.Proofs.Sharing

namespace Unwinder.Sharing
open Lib Dwarf

variable {m : ModuleData} {s s' : Sharing} {a : Action} {hdr ehFrame : Buffer}
  {cie : Nat → ParsedCie} {fde : Nat → ParsedFde}

/-- What a successful parse returned is a listed function around the address. -/
theorem parse_ok_listed (w : WellFormed m hdr ehFrame cie fde) {ip : UInt64} {d : FunctionDetails}
    (h : parseFunctionDetails m ip = .ok d) :
    ∃ i < m.table.count, (fde i).Covers ip ∧ d = WellFormed.details m (cie i) (fde i) := by
  by_cases hc : ∃ i < m.table.count, (fde i).Covers ip
  · obtain ⟨i, hi, hc⟩ := hc
    refine ⟨i, hi, hc, ?_⟩
    rw [w.parse_covered hi hc] at h
    exact (Res.ok.inj h).symm
  · rw [w.parse_uncovered (fun i hi hcov => hc ⟨i, hi, hcov⟩)] at h
    cases h

/-- The cache holds listed functions under their starts, every caller about to
insert has parsed its own address, and every call ended as a parse would. -/
structure Transparent (m : ModuleData) (cie : Nat → ParsedCie) (fde : Nat → ParsedFde)
    (s : Sharing) : Prop where
  cached : ∀ k d, s.cache.get? k = some d → k = d.val.startIp ∧
    ∃ i < m.table.count, d.val = WellFormed.details m (cie i) (fde i)
  pending : ∀ t ip d, s.callers t = .parsed ip d → parseFunctionDetails m ip = .ok d.val
  returned : ∀ r ∈ s.returned, Arc.val <$> r.result = parseFunctionDetails m r.ip

theorem Transparent.start : Transparent m cie fde start := by
  refine ⟨?_, ?_, ?_⟩
  · intro k d h
    cases h
  · intro t ip d h
    cases h
  · intro r hr
    cases hr

/-- A hit in the cache is what a parse would have returned. -/
theorem Transparent.hit (w : WellFormed m hdr ehFrame cie fde) (h : Transparent m cie fde s)
    {ip : UInt64} {d : Arc FunctionDetails} (hd : cachedArc s.cache ip = some d) :
    parseFunctionDetails m ip = .ok d.val := by
  obtain ⟨k, hk, hle, hlt⟩ := cachedArc_mem hd
  obtain ⟨rfl, i, hi, hval⟩ := h.cached k d hk
  have hend := w.endIp_toNat hi
  rw [← hval] at hend
  have hcov : (fde i).Covers ip := by
    refine ⟨?_, by rw [← hend]; exact UInt64.lt_iff_toNat_lt.mp hlt⟩
    rw [hval] at hle
    exact hle
  rw [w.parse_covered hi hcov, hval]

theorem Transparent.endCall (h : Transparent m cie fde s) {t : Nat} {ip : UInt64}
    {r : Res UnwindInfoError (Arc FunctionDetails)}
    (hr : Arc.val <$> r = parseFunctionDetails m ip) : Transparent m cie fde (s.endCall t ip r) where
  cached := h.cached
  pending u jp d hu := h.pending u jp d (parsed_of_endCall hu).2
  returned r' hr' := by
    rcases List.mem_cons.mp hr' with rfl | hin
    · exact hr
    · exact h.returned r' hin

theorem Transparent.step (w : WellFormed m hdr ehFrame cie fde) (h : Transparent m cie fde s)
    (hs : Steps m s a s') : Transparent m cie fde s' := by
  cases hs with
  | stutter => exact h
  | hit t ip d hc hd => exact h.endCall (h.hit w hd).symm
  | miss t ip hc hd =>
    exact ⟨h.cached, fun u jp d hu => h.pending u jp d (parsed_of_setMissed hu), h.returned⟩
  | parsed t ip d hc hd =>
    refine ⟨h.cached, ?_, h.returned⟩
    intro u jp e hu
    simp only [callers_setCaller] at hu
    split at hu
    · cases hu
      exact hd
    · exact h.pending u jp e hu
  | failed t ip r hc hr hf => exact h.endCall hr
  | inserted t ip d hc =>
    have hparse := h.pending t ip d hc
    have hend : Transparent m cie fde (s.endCall t ip (.ok d)) := h.endCall hparse.symm
    refine ⟨?_, hend.pending, hend.returned⟩
    intro k e hk
    rw [OrderedMap.get?_insert] at hk
    split at hk
    · next he =>
      obtain rfl := Option.some.inj hk
      obtain ⟨i, hi, -, hval⟩ := parse_ok_listed w hparse
      exact ⟨he, i, hi, hval⟩
    · exact h.cached k e hk

theorem transparent_run (w : WellFormed m hdr ehFrame cie fde) (acts : List Action) :
    Transparent m cie fde (runFrom (Sharing.step m) Sharing.start acts) :=
  runFrom_inv (fun s a _ h => h.step w (step_spec m s a)) Transparent.start

/-- Only an insertion changes the cache. -/
theorem cache_unchanged (hs : Steps m s a s')
    (ha : ∀ t ip d, a = .insert t → s.callers t ≠ .parsed ip d) : s'.cache = s.cache := by
  cases hs with
  | stutter => rfl
  | hit t ip d hc hd => rfl
  | miss t ip hc hd => rfl
  | parsed t ip d hc hd => rfl
  | failed t ip r hc hr hf => rfl
  | inserted t ip d hc => exact absurd hc (ha t ip d rfl)

/-- The caller has a call under way for the address. -/
def UnderWay (s : Sharing) (t : Nat) (ip : UInt64) : Prop :=
  s.callers t = .missed ip ∨ ∃ d, s.callers t = .parsed ip d

/-- A call under way returns after at most two more steps of its caller. -/
theorem call_ends (m : ModuleData) {s : Sharing} {t : Nat} {ip : UInt64} (h : UnderWay s t ip) :
    let s' := runFrom (step m) s [.parse t, .insert t]
    s'.callers t = .idle ∧ ∃ r ∈ s'.returned, r.caller = t ∧ r.ip = ip := by
  rcases h with hc | ⟨d, hc⟩
  · cases hp : parseFunctionDetails m ip with
    | ok d => simp [step, hc, hp, callers_setCaller, endCall]
    | err e => simp [step, hc, hp, callers_setCaller, endCall]
    | panic => simp [step, hc, hp, callers_setCaller, endCall]
  · simp [step, hc, callers_setCaller, endCall]

/-- The cache cannot be told from parsing anew: after any interleaving, every
call has ended as a parse of its address would, the cache changed only through
calls that succeed, and every call under way comes to its end. -/
theorem cache_transparent (w : WellFormed m hdr ehFrame cie fde) (acts : List Action) :
    let s := runFrom (step m) start acts
    (∀ r ∈ s.returned, Arc.val <$> r.result = parseFunctionDetails m r.ip) ∧
    (∀ a, (step m s a).cache ≠ s.cache → ∃ t ip d, a = .insert t ∧ s.callers t = .parsed ip d ∧
      parseFunctionDetails m ip = .ok d.val) ∧
    (∀ t ip, UnderWay s t ip → let s' := runFrom (step m) s [.parse t, .insert t]
      s'.callers t = .idle ∧ ∃ r ∈ s'.returned, r.caller = t ∧ r.ip = ip) := by
  intro s
  have ht : Transparent m cie fde s := transparent_run w acts
  refine ⟨ht.returned, ?_, fun t ip h => call_ends m h⟩
  intro a hne
  by_contra hno
  apply hne
  apply cache_unchanged (step_spec m s a)
  intro t ip d ha hc
  exact hno ⟨t, ip, d, ha, hc, ht.pending t ip d hc⟩

theorem bothMiss_transparent :
    (runFrom (step twoFunctions) start bothMiss).returned.length = 2 ∧
    ∀ r ∈ (runFrom (step twoFunctions) start bothMiss).returned,
      Arc.val <$> r.result = parseFunctionDetails twoFunctions r.ip :=
  ⟨by decide +kernel, (cache_transparent twoFunctions_wellFormed bothMiss).1⟩

end Unwinder.Sharing
