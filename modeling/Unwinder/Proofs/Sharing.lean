import Unwinder.Concurrent
import Unwinder.Proofs.Lookup
import Unwinder.Lib.Runs

namespace Unwinder.Sharing
open Lib

variable {m : ModuleData} {s s' : Sharing} {a : Action}

/-- What one step can do. -/
inductive Steps (m : ModuleData) (s : Sharing) : Action → Sharing → Prop
  | stutter (a : Action) : Steps m s a s
  | hit (t : Nat) (ip : UInt64) (d : Arc FunctionDetails) (hc : s.callers t = .idle)
      (hd : cachedArc s.cache ip = some d) : Steps m s (.check t ip) (s.endCall t ip (.ok d))
  | miss (t : Nat) (ip : UInt64) (hc : s.callers t = .idle) (hd : cachedArc s.cache ip = none) :
      Steps m s (.check t ip) (s.setCaller t (.missed ip))
  | parsed (t : Nat) (ip : UInt64) (d : FunctionDetails) (hc : s.callers t = .missed ip)
      (hd : parseFunctionDetails m ip = .ok d) : Steps m s (.parse t)
        { s.setCaller t (.parsed ip ⟨s.nextId, d⟩) with nextId := s.nextId + 1 }
  | failed (t : Nat) (ip : UInt64) (r : Res UnwindInfoError (Arc FunctionDetails))
      (hc : s.callers t = .missed ip) (hr : Arc.val <$> r = parseFunctionDetails m ip)
      (hf : ∀ d, r ≠ .ok d) : Steps m s (.parse t) (s.endCall t ip r)
  | inserted (t : Nat) (ip : UInt64) (d : Arc FunctionDetails) (hc : s.callers t = .parsed ip d) :
      Steps m s (.insert t)
        { s.endCall t ip (.ok d) with cache := s.cache.insert d.val.startIp d }

theorem step_spec (m : ModuleData) (s : Sharing) (a : Action) : Steps m s a (step m s a) := by
  cases a with
  | check t ip =>
    cases hc : s.callers t with
    | idle =>
      cases hd : cachedArc s.cache ip with
      | some d =>
        simp only [step, hc, hd]
        exact .hit t ip d hc hd
      | none =>
        simp only [step, hc, hd]
        exact .miss t ip hc hd
    | missed ip =>
      simp only [step, hc]
      exact .stutter _
    | parsed ip d =>
      simp only [step, hc]
      exact .stutter _
  | parse t =>
    cases hc : s.callers t with
    | idle =>
      simp only [step, hc]
      exact .stutter _
    | missed ip =>
      cases hd : parseFunctionDetails m ip with
      | ok d =>
        simp only [step, hc, hd]
        exact .parsed t ip d hc hd
      | err e =>
        simp only [step, hc, hd]
        exact .failed t ip (.err e) hc hd.symm (by simp)
      | panic =>
        simp only [step, hc, hd]
        exact .failed t ip .panic hc hd.symm (by simp)
    | parsed ip d =>
      simp only [step, hc]
      exact .stutter _
  | insert t =>
    cases hc : s.callers t with
    | idle =>
      simp only [step, hc]
      exact .stutter _
    | missed ip =>
      simp only [step, hc]
      exact .stutter _
    | parsed ip d =>
      simp only [step, hc]
      exact .inserted t ip d hc

theorem cachedArc_mem {cache : OrderedMap UInt64 (Arc FunctionDetails)} {ip : UInt64}
    {d : Arc FunctionDetails} (h : cachedArc cache ip = some d) :
    ∃ k, cache.get? k = some d ∧ k ≤ ip ∧ ip < d.val.endIp := by
  unfold cachedArc at h
  cases hl : cache.lastLE ip with
  | none => simp [hl] at h
  | some p =>
    obtain ⟨k, d'⟩ := p
    simp only [hl] at h
    split at h
    · next hlt =>
      obtain rfl := Option.some.inj h
      obtain ⟨hg, hle, -⟩ := OrderedMap.lastLE_eq_some.mp hl
      exact ⟨k, hg, hle, hlt⟩
    · cases h

/-- Which object is whose: cached ones have been returned, and a caller that is
about to insert holds one that nobody has seen. -/
structure Owned (s : Sharing) : Prop where
  key : ∀ k d, s.cache.get? k = some d → d.val.startIp = k
  cached : ∀ k d, s.cache.get? k = some d → ∃ r ∈ s.returned, r.result = .ok d
  old : ∀ r ∈ s.returned, ∀ d, r.result = .ok d → d.id < s.nextId
  pending : ∀ t ip d, s.callers t = .parsed ip d → d.id < s.nextId
  unseen : ∀ t ip d, s.callers t = .parsed ip d → ∀ r ∈ s.returned, ∀ e, r.result = .ok e →
    e.id ≠ d.id
  apart : ∀ t u ip jp d e, s.callers t = .parsed ip d → s.callers u = .parsed jp e → t ≠ u →
    d.id ≠ e.id

/-- Every object that has been returned is in the cache. -/
def Kept (s : Sharing) : Prop :=
  ∀ r ∈ s.returned, ∀ d, r.result = .ok d → ∃ k, s.cache.get? k = some d

/-- An insertion finds nothing under its start address. -/
def FreshInsert (s : Sharing) : Action → Prop
  | .insert t => ∀ ip d, s.callers t = .parsed ip d → s.cache.get? d.val.startIp = none
  | _ => True

theorem callers_setCaller {t u : Nat} {c : Caller} :
    (s.setCaller t c).callers u = if u = t then c else s.callers u := rfl

theorem callers_endCall {t u : Nat} {ip : UInt64} {r : Res UnwindInfoError (Arc FunctionDetails)} :
    (s.endCall t ip r).callers u = if u = t then .idle else s.callers u := rfl

/-- A caller that holds an object after another's call ended held it before. -/
theorem parsed_of_endCall {t u : Nat} {ip jp : UInt64} {d : Arc FunctionDetails}
    {r : Res UnwindInfoError (Arc FunctionDetails)}
    (h : (s.endCall t ip r).callers u = .parsed jp d) : u ≠ t ∧ s.callers u = .parsed jp d := by
  rw [callers_endCall] at h
  split at h
  · cases h
  · next hne => exact ⟨hne, h⟩

theorem parsed_of_setMissed {t u : Nat} {ip jp : UInt64} {d : Arc FunctionDetails}
    (h : (s.setCaller t (.missed ip)).callers u = .parsed jp d) : s.callers u = .parsed jp d := by
  rw [callers_setCaller] at h
  split at h
  · cases h
  · exact h

theorem Owned.start : Owned start := by
  refine ⟨?_, ?_, ?_, ?_, ?_, ?_⟩
  · intro k d h
    cases h
  · intro k d h
    cases h
  · intro r hr
    cases hr
  · intro t ip d h
    cases h
  · intro t ip d h
    cases h
  · intro t u ip jp d e h
    cases h

/-- A call that ends with something known, or with no object, keeps ownership. -/
theorem Owned.endCall (h : Owned s) {t : Nat} {ip : UInt64}
    {r : Res UnwindInfoError (Arc FunctionDetails)}
    (hr : ∀ d, r = .ok d → d.id < s.nextId ∧
      ∀ u jp e, u ≠ t → s.callers u = .parsed jp e → d.id ≠ e.id) : Owned (s.endCall t ip r) where
  key := h.key
  cached k d hk := by
    obtain ⟨r', hr', he⟩ := h.cached k d hk
    exact ⟨r', List.mem_cons_of_mem _ hr', he⟩
  old r' hr' d hd := by
    rcases List.mem_cons.mp hr' with rfl | hin
    · exact (hr d hd).1
    · exact h.old r' hin d hd
  pending u jp d hu := h.pending u jp d (parsed_of_endCall hu).2
  unseen u jp d hu r' hr' e he := by
    obtain ⟨hne, hu'⟩ := parsed_of_endCall hu
    rcases List.mem_cons.mp hr' with rfl | hin
    · exact (hr e he).2 u jp d hne hu'
    · exact h.unseen u jp d hu' r' hin e he
  apart u v ip' jp d e hu hv hne :=
    h.apart u v ip' jp d e (parsed_of_endCall hu).2 (parsed_of_endCall hv).2 hne

/-- After a parse, a caller holds the new object or what it held before. -/
theorem parsed_of_setParsed {t u : Nat} {ip jp : UInt64} {d e : Arc FunctionDetails}
    (h : (s.setCaller t (.parsed ip d)).callers u = .parsed jp e) :
    (u = t ∧ e = d) ∨ (u ≠ t ∧ s.callers u = .parsed jp e) := by
  rw [callers_setCaller] at h
  split at h
  · next he =>
    cases h
    exact .inl ⟨he, rfl⟩
  · next hne => exact .inr ⟨hne, h⟩

/-- A parsed object is the only one with its number. -/
theorem Owned.allocate (h : Owned s) (t : Nat) (ip : UInt64) (d : FunctionDetails) :
    Owned { s.setCaller t (.parsed ip ⟨s.nextId, d⟩) with nextId := s.nextId + 1 } where
  key := h.key
  cached := h.cached
  old r hr e he := Nat.lt_succ_of_lt (h.old r hr e he)
  pending u jp e hu := by
    rcases parsed_of_setParsed hu with ⟨-, rfl⟩ | ⟨-, hu'⟩
    · exact Nat.lt_succ_self _
    · exact Nat.lt_succ_of_lt (h.pending u jp e hu')
  unseen u jp e hu r hr e' he' := by
    rcases parsed_of_setParsed hu with ⟨-, rfl⟩ | ⟨-, hu'⟩
    · exact Nat.ne_of_lt (h.old r hr e' he')
    · exact h.unseen u jp e hu' r hr e' he'
  apart u v ip' jp e e' hu hv hne := by
    rcases parsed_of_setParsed hu with ⟨rfl, rfl⟩ | ⟨-, hu'⟩
    · rcases parsed_of_setParsed hv with ⟨rfl, -⟩ | ⟨-, hv'⟩
      · exact absurd rfl hne
      · exact Nat.ne_of_gt (h.pending v jp e' hv')
    · rcases parsed_of_setParsed hv with ⟨rfl, rfl⟩ | ⟨-, hv'⟩
      · exact Nat.ne_of_lt (h.pending u ip' e hu')
      · exact h.apart u v ip' jp e e' hu' hv' hne

theorem Owned.step (h : Owned s) (hs : Steps m s a s') : Owned s' := by
  cases hs with
  | stutter => exact h
  | hit t ip d hc hd =>
    obtain ⟨k, hk, -, -⟩ := cachedArc_mem hd
    obtain ⟨r, hr, hok⟩ := h.cached k d hk
    apply h.endCall
    intro d' he
    obtain rfl := Res.ok.inj he
    exact ⟨h.old r hr d hok, fun u jp e _ hu => h.unseen u jp e hu r hr d hok⟩
  | miss t ip hc hd =>
    exact ⟨h.key, h.cached, h.old, fun u jp d hu => h.pending u jp d (parsed_of_setMissed hu),
      fun u jp d hu => h.unseen u jp d (parsed_of_setMissed hu),
      fun u v ip' jp d e hu hv => h.apart u v ip' jp d e (parsed_of_setMissed hu)
        (parsed_of_setMissed hv)⟩
  | parsed t ip d hc hd => exact h.allocate t ip d
  | failed t ip r hc hr hf =>
    apply h.endCall
    intro d he
    exact absurd he (hf d)
  | inserted t ip d hc =>
    have hend : Owned (s.endCall t ip (.ok d)) := by
      apply h.endCall
      intro d' he
      obtain rfl := Res.ok.inj he
      exact ⟨h.pending t ip d hc, fun u jp e hne hu => h.apart t u ip jp d e hc hu (Ne.symm hne)⟩
    refine ⟨?_, ?_, hend.old, hend.pending, hend.unseen, hend.apart⟩
    · intro k e hk
      rw [OrderedMap.get?_insert] at hk
      split at hk
      · next he => rw [← Option.some.inj hk, he]
      · exact h.key k e hk
    · intro k e hk
      rw [OrderedMap.get?_insert] at hk
      split at hk
      · exact ⟨_, List.mem_cons_self, congrArg Res.ok (Option.some.inj hk)⟩
      · exact hend.cached k e hk

theorem Kept.endCall (hk : Kept s) {t : Nat} {ip : UInt64}
    {r : Res UnwindInfoError (Arc FunctionDetails)}
    (hr : ∀ d, r = .ok d → ∃ k, s.cache.get? k = some d) : Kept (s.endCall t ip r) := by
  intro r' hr' d hd
  rcases List.mem_cons.mp hr' with rfl | hin
  · exact hr d hd
  · exact hk r' hin d hd

/-- Checking and parsing drop nothing. -/
theorem Kept.check (hk : Kept s) (m : ModuleData) (t : Nat) (ip : UInt64) :
    Kept (Sharing.step m s (.check t ip)) := by
  have hspec := step_spec m s (.check t ip)
  generalize Sharing.step m s (.check t ip) = s' at hspec
  cases hspec with
  | stutter => exact hk
  | hit t ip d hc hd =>
    apply hk.endCall
    intro d' he
    obtain rfl := Res.ok.inj he
    obtain ⟨k, hg, -⟩ := cachedArc_mem hd
    exact ⟨k, hg⟩
  | miss t ip hc hd => exact hk

theorem Kept.parse (hk : Kept s) (m : ModuleData) (t : Nat) :
    Kept (Sharing.step m s (.parse t)) := by
  have hspec := step_spec m s (.parse t)
  generalize Sharing.step m s (.parse t) = s' at hspec
  cases hspec with
  | stutter => exact hk
  | parsed t ip d hc hd => exact hk
  | failed t ip r hc hr hf =>
    apply hk.endCall
    intro d he
    exact absurd he (hf d)

/-- An insertion keeps all returned objects exactly if it replaces none: what it
would replace has been returned, and is a different object. -/
theorem kept_insert_iff (ho : Owned s) (hk : Kept s) {t : Nat} {ip : UInt64}
    {d : Arc FunctionDetails} (hc : s.callers t = .parsed ip d) :
    s.cache.get? d.val.startIp = none ↔
      Kept { s.endCall t ip (.ok d) with cache := s.cache.insert d.val.startIp d } := by
  constructor
  · intro hnone r hr e he
    rcases List.mem_cons.mp hr with rfl | hin
    · obtain rfl := Res.ok.inj he
      exact ⟨d.val.startIp, OrderedMap.get?_insert_self _ _ _⟩
    · obtain ⟨k, hg⟩ := hk r hin e he
      have hne : k ≠ d.val.startIp := by
        intro hkey
        rw [hkey, hnone] at hg
        cases hg
      exact ⟨k, by rw [OrderedMap.get?_insert_ne _ _ hne]; exact hg⟩
  · intro hkept
    cases hg : s.cache.get? d.val.startIp with
    | none => rfl
    | some old =>
      obtain ⟨r, hr, hok⟩ := ho.cached _ old hg
      obtain ⟨k, hk'⟩ := hkept r (List.mem_cons_of_mem _ hr) old hok
      rw [OrderedMap.get?_insert] at hk'
      split at hk'
      · have hid := ho.unseen t ip d hc r hr old hok
        exact absurd (congrArg Arc.id (Option.some.inj hk')).symm hid
      · next hne => exact absurd ((ho.key k old hk').symm.trans (ho.key _ old hg)) hne

theorem kept_step_iff (ho : Owned s) (hk : Kept s) (m : ModuleData) (a : Action) :
    FreshInsert s a ↔ Kept (step m s a) := by
  cases a with
  | check t ip => exact ⟨fun _ => hk.check m t ip, fun _ => trivial⟩
  | parse t => exact ⟨fun _ => hk.parse m t, fun _ => trivial⟩
  | insert t =>
    cases hc : s.callers t with
    | idle =>
      simp only [step, FreshInsert, hc]
      exact ⟨fun _ => hk, fun _ _ _ h => by cases h⟩
    | missed ip =>
      simp only [step, FreshInsert, hc]
      exact ⟨fun _ => hk, fun _ _ _ h => by cases h⟩
    | parsed ip d =>
      simp only [step, FreshInsert, hc]
      rw [← kept_insert_iff ho hk hc]
      constructor
      · intro h
        exact h ip d rfl
      · intro h jp e he
        cases he
        exact h

/-- Over any interleaving, every object handed out stays in the cache from then
on exactly if every insertion finds its start address free. -/
theorem returned_kept_iff (m : ModuleData) (acts : List Action) :
    Always (step m) Kept start acts ↔ EachStep (step m) FreshInsert start acts := by
  refine always_iff_eachStep (I := Owned) (fun s a _ h => h.step (step_spec m s a)) ?_ Owned.start ?_
  · intro s a _ ho hk
    exact kept_step_iff ho hk m a
  · intro r hr
    cases hr

/-- Two callers miss on one function, and both parse and insert it. -/
def bothMiss : List Action :=
  [.check 0 0x1108, .check 1 0x1108, .parse 0, .parse 1, .insert 0, .insert 1]

theorem bothMiss_drops_returned : ¬ Always (step twoFunctions) Kept start bothMiss := by
  intro h
  have hlast := always_iff_shorter.mp h bothMiss List.prefix_rfl
  have hcache : (runFrom (step twoFunctions) start bothMiss).cache.entries.map (·.2.id) = [1] := by
    decide +kernel
  have hret : (runFrom (step twoFunctions) start bothMiss).returned.map
      (fun r => Arc.id <$> r.result) = [.ok 1, .ok 0] := by
    decide +kernel
  obtain ⟨r, hr, hid⟩ : ∃ r ∈ (runFrom (step twoFunctions) start bothMiss).returned,
      Arc.id <$> r.result = .ok 0 := by
    rw [← List.mem_map, hret]
    simp
  cases hres : r.result with
  | err e => simp [hres, Functor.map, Res.bind] at hid
  | panic => simp [hres, Functor.map, Res.bind] at hid
  | ok d =>
    obtain ⟨k, hk⟩ := hlast r hr d hres
    have hmem : d.id ∈ [1] := by
      rw [← hcache]
      exact List.mem_map_of_mem (OrderedMap.get?_eq_some.mp hk)
    have hzero : d.id = 0 := by simpa [hres, Functor.map, Res.bind] using hid
    rw [hzero] at hmem
    simp at hmem

end Unwinder.Sharing
