import Unwinder.Proofs.CfiTable

namespace Unwinder.Native
open Lib Interaction CallFrame Ffi

section Attempts

variable {known : Oracle} {α : Type} {x : Code α} {a : α}

theorem returns_attempt (h : Returns known x (.ok a)) : Returns known (attempt x) (.ok (.ok a)) := by
  change consult known (x.run >>= _) = _
  rw [consult_bind, show consult known x.run = some (.ok a) from h]
  rfl

end Attempts

section Caller

variable {t : Target} {getReg : DwarfCursor t.numPreservedRegs → UInt64 → Code UInt64} {rounds : Nat}
  {E : Type} {known : Oracle} {code : E → List UInt8} {c : DwarfCursor t.numPreservedRegs}
  {view : View (Fin t.numPreservedRegs) UInt64 E} {row : Row (Fin t.numPreservedRegs) UInt64 E}
  {rs : RegState t.numPreservedRegs} {ra cfa ip : UInt64}

/-- The location that an expression names. -/
def placeLoc (t : Target) : Place (Fin t.numPreservedRegs) UInt64 → Loc
  | .address a => .mem a
  | .register r => .reg (t.dwarfToUnwRegnum (t.dwarfToUnwRegnum (UInt64.ofNat r)))

/-- The cursor stands in a frame that looks like this: what can be seen is what
libunwind reads. -/
structure Shows (t : Target) (getReg : DwarfCursor t.numPreservedRegs → UInt64 → Code UInt64)
    (rounds : Nat) (known : Oracle) (code : E → List UInt8) (c : DwarfCursor t.numPreservedRegs)
    (view : View (Fin t.numPreservedRegs) UInt64 E) : Prop where
  reg : ∀ r v, view.reg r = some v →
    Returns known (getReg c (t.dwarfToUnwRegnum (UInt64.ofNat r))) (.ok v)
  loc : ∀ r v, view.reg r = some v → Returns known (dwarfGet (c.loc r)) (.ok v)
  /-- The frame is the innermost one: its registers are those of the accessors. -/
  innermost : ∀ r v, view.reg r = some v →
    Returns known (dwarfGet (placeLoc t (.register r))) (.ok v)
  word : ∀ a w, view.word a = some w → a ≠ 0 ∧ Returns known (accessMem a) (.ok w)
  expr : ∀ start e place addr, view.expr start e = some place → BlockAt known code addr e →
    Returns known (evalLocationExpr t getReg rounds c start addr) (.ok (placeLoc t place))

theorem dwarfGet_mem {a w : UInt64} (hne : a ≠ 0) (h : Returns known (accessMem a) (.ok w)) :
    Returns known (dwarfGet (.mem a)) (.ok w) := by
  have hnull : Loc.mem a ≠ .null := fun he => hne (Loc.mem.inj he)
  unfold dwarfGet
  rw [if_neg hnull]
  exact h

theorem Shows.sp (hs : Shows t getReg rounds known code c view) {v : UInt64} {r : Fin t.numPreservedRegs}
    (h : view.reg r = some v) : c.loc r ≠ .null := by
  intro hnull
  have hread := hs.loc r v h
  rw [hnull] at hread
  cases hread

/-- The frame address is computed as the row says. -/
theorem evalCfa_correct (hs : Shows t getReg rounds known code c view)
    (hm : RowModels known code ra rs row) {rule : CfaRule (Fin t.numPreservedRegs) UInt64 E}
    (hrule : row.cfa = some rule) (hcfa : rule.value view 0 = some cfa) :
    Returns known (evalCfa t getReg rounds c rs) (.ok cfa) := by
  have hmodels := hm.cfa
  rw [hrule] at hmodels
  unfold evalCfa
  cases rule with
  | register r o =>
    obtain ⟨hreg, hoff⟩ := hmodels
    obtain ⟨v, hv, rfl⟩ := Option.map_eq_some_iff.mp hcfa
    have hnot : ¬ (rs.cfaReg.val = UInt64.ofNat t.sp ∧ c.loc t.sp = .null) := by
      rintro ⟨hval, hnull⟩
      have hsp : r = t.sp := by
        rw [hreg] at hval
        have hfit := t.columns_fit
        have hnat := congrArg UInt64.toNat hval
        rw [UInt64.toNat_ofNat', UInt64.toNat_ofNat', Nat.mod_eq_of_lt (by omega),
          Nat.mod_eq_of_lt (by omega)] at hnat
        exact Fin.ext hnat
      exact hs.sp (hsp ▸ hv) hnull
    rw [if_neg hnot, hreg, hoff, if_pos rfl]
    exact Returns.bind (hs.reg r v hv) returns_pure
  | expression e =>
    obtain ⟨hplace, hblock⟩ := hmodels
    obtain ⟨place, hp, haddr⟩ := Option.bind_eq_some_iff.mp hcfa
    cases place with
    | register r => cases haddr
    | address a =>
      cases haddr
      rw [if_neg (by rw [hplace]; decide)]
      exact Returns.bind (hs.expr _ _ _ _ hp hblock) returns_pure

/-- Reading a location gives the value that the rule recovers. -/
structure LocShows (known : Oracle) (view : View (Fin t.numPreservedRegs) UInt64 E) (cfa : UInt64)
    (r : Fin t.numPreservedRegs) (rule : Rule (Fin t.numPreservedRegs) UInt64 E) (loc : Loc) :
    Prop where
  value : ∀ v, rule.caller view cfa r = some v → Returns known (dwarfGet loc) (.ok v)
  undefined : rule = .undefined → loc = .null

/-- What has to hold of a row, given a frame, for all registers to be recovered: all
expressions have a place, and a register that is saved in another one comes before
it or the other one is kept. -/
structure Recoverable {n : Nat} (view : View (Fin n) UInt64 E) (cfa : UInt64)
    (row : Row (Fin n) UInt64 E) : Prop where
  expression : ∀ r e, row.rule r = .expression e → (view.expr cfa e).isSome
  valExpression : ∀ r e, row.rule r = .valExpression e → (view.expr cfa e).isSome
  register : ∀ r q, row.rule r = .register q → q < r → row.rule q = .sameValue

/-- The row leads from a frame to its caller. -/
structure LeadsTo {n : Nat} (view : View (Fin n) UInt64 E) (row : Row (Fin n) UInt64 E)
    (col : Fin n) (cfa ip : UInt64) : Prop where
  frame : ∃ rule, row.cfa = some rule ∧ rule.value view 0 = some cfa
  recoverable : Recoverable view cfa row
  returns : row.returnAddress 0 view cfa col = some ip

theorem dwarfGet_val {v : UInt64} : Returns known (dwarfGet (.val v)) (.ok v) := by
  have hnull : Loc.val v ≠ .null := by simp [Loc.null]
  unfold dwarfGet
  rw [if_neg hnull]
  exact returns_pure

theorem dwarfGet_place (hs : Shows t getReg rounds known code c view)
    {place : Place (Fin t.numPreservedRegs) UInt64} {v : UInt64} (hv : place.value view = some v) :
    Returns known (dwarfGet (placeLoc t place)) (.ok v) := by
  cases place with
  | address a =>
    obtain ⟨hne, hread⟩ := hs.word a v hv
    exact dwarfGet_mem hne hread
  | register r => exact hs.innermost r v hv

variable {locs : Fin t.numPreservedRegs → Loc} {i : Fin t.numPreservedRegs}

/-- One round of the loop over the registers. -/
theorem newLoc_correct (hs : Shows t getReg rounds known code c view) (hval : t.valLoc = .val)
    (hr : Recoverable view cfa row) (hm : RuleModels known code (rs.reg i) (row.rule i))
    (hsame : locs i = c.loc i) (hother : ∀ q, row.rule i = .register q → locs q = c.loc q) :
    ∃ loc, Returns known (newLoc t getReg rounds c rs cfa locs i) (.ok loc) ∧
      LocShows known view cfa i (row.rule i) loc ∧ (row.rule i = .sameValue → loc = c.loc i) := by
  unfold newLoc
  cases hrule : row.rule i with
  | undefined =>
    rw [hrule] at hm
    simp only [show (rs.reg i).place = .undef from hm]
    exact ⟨.null, returns_pure, ⟨fun v hv => (by cases hv), fun _ => rfl⟩, nofun⟩
  | sameValue =>
    rw [hrule] at hm
    simp only [show (rs.reg i).place = .same from hm]
    exact ⟨locs i, returns_pure, ⟨fun v hv => hsame ▸ hs.loc i v hv, nofun⟩, fun _ => hsame⟩
  | offset o =>
    rw [hrule] at hm
    simp only [show rs.reg i = ⟨.cfarel, o⟩ from hm]
    refine ⟨.mem (cfa + o), returns_pure, ⟨fun v hv => ?_, nofun⟩, nofun⟩
    obtain ⟨hne, hread⟩ := hs.word _ v hv
    exact dwarfGet_mem hne hread
  | register q =>
    rw [hrule] at hm
    have hq : (UInt64.ofNat q).toNat = q := by
      have := t.columns_fit
      rw [UInt64.toNat_ofNat', Nat.mod_eq_of_lt (by omega)]
    simp only [show rs.reg i = ⟨.reg, UInt64.ofNat q⟩ from hm, hq, q.isLt, dif_pos]
    refine ⟨locs q, returns_pure, ⟨fun v hv => ?_, nofun⟩, nofun⟩
    rw [hother q hrule]
    exact hs.loc q v hv
  | expression e =>
    rw [hrule] at hm
    obtain ⟨hplace, hblock⟩ := hm
    obtain ⟨place, hp⟩ := Option.isSome_iff_exists.mp (hr.expression i e hrule)
    simp only [hplace]
    refine ⟨placeLoc t place, hs.expr _ _ _ _ hp hblock, ⟨fun v hv => ?_, nofun⟩, nofun⟩
    simp only [Rule.caller, hp] at hv
    exact dwarfGet_place hs hv
  | valExpression e =>
    rw [hrule] at hm
    obtain ⟨hplace, hblock⟩ := hm
    obtain ⟨place, hp⟩ := Option.isSome_iff_exists.mp (hr.valExpression i e hrule)
    simp only [hplace]
    refine ⟨_, Returns.bind (hs.expr _ _ _ _ hp hblock) returns_pure, ⟨fun v hv => ?_, nofun⟩, nofun⟩
    simp only [Rule.caller, hp] at hv
    cases place with
    | register r => cases hv
    | address a =>
      cases hv
      rw [hval]
      exact dwarfGet_val
  | cfa =>
    rw [hrule] at hm
    simp only [show (rs.reg i).place = .cfa from hm]
    refine ⟨_, returns_pure, ⟨fun v hv => ?_, nofun⟩, nofun⟩
    cases hv
    rw [hval]
    exact dwarfGet_val

/-- What the loop has done when some registers are still to come. -/
structure LocsDone (known : Oracle) (c : DwarfCursor t.numPreservedRegs)
    (view : View (Fin t.numPreservedRegs) UInt64 E) (cfa : UInt64)
    (row : Row (Fin t.numPreservedRegs) UInt64 E) (left : List (Fin t.numPreservedRegs))
    (locs : Fin t.numPreservedRegs → Loc) : Prop where
  pending : ∀ r ∈ left, locs r = c.loc r
  done : ∀ r ∉ left, LocShows known view cfa r (row.rule r) (locs r)
  same : ∀ r ∉ left, row.rule r = .sameValue → locs r = c.loc r

/-- The loop over the registers, in ascending order. -/
theorem newLocs_correct (hs : Shows t getReg rounds known code c view) (hval : t.valLoc = .val)
    (hr : Recoverable view cfa row) (hm : RowModels known code ra rs row)
    {left : List (Fin t.numPreservedRegs)} (hsorted : left.Pairwise (· < ·))
    (hlower : ∀ q ∉ left, ∀ r ∈ left, q < r) (hd : LocsDone known c view cfa row left locs) :
    ∃ locs', Returns known (newLocs t getReg rounds c rs cfa left locs) (.ok locs') ∧
      ∀ r, LocShows known view cfa r (row.rule r) (locs' r) := by
  induction left generalizing locs with
  | nil => exact ⟨locs, returns_pure, fun r => hd.done r (by simp)⟩
  | cons i rest ih =>
    rw [List.pairwise_cons] at hsorted
    have hother : ∀ q, row.rule i = .register q → locs q = c.loc q := by
      intro q hq
      by_cases hmem : q ∈ i :: rest
      · exact hd.pending q hmem
      · exact hd.same q hmem (hr.register i q hq (hlower q hmem i (by simp)))
    obtain ⟨loc, hloc, hshows, hkept⟩ :=
      newLoc_correct hs hval hr (hm.rule i) (hd.pending i (by simp)) hother
    have hnew : LocsDone known c view cfa row rest (Function.update locs i loc) := by
      refine ⟨fun r hmem => ?_, fun r hmem => ?_, fun r hmem hrule => ?_⟩
      · have hne : r ≠ i := (hsorted.1 r hmem).ne'
        rw [Function.update_of_ne hne]
        exact hd.pending r (List.mem_cons_of_mem _ hmem)
      · by_cases hri : r = i
        · subst hri
          rw [Function.update_self]
          exact hshows
        · rw [Function.update_of_ne hri]
          exact hd.done r (by simp [hri, hmem])
      · by_cases hri : r = i
        · subst hri
          rw [Function.update_self]
          exact hkept hrule
        · rw [Function.update_of_ne hri]
          exact hd.same r (by simp [hri, hmem]) hrule
    have hlow : ∀ q ∉ rest, ∀ r ∈ rest, q < r := by
      intro q hq r hmem
      by_cases hqi : q = i
      · exact hqi ▸ hsorted.1 r hmem
      · exact hlower q (by simp [hqi, hq]) r (List.mem_cons_of_mem _ hmem)
    obtain ⟨locs', hlocs, hall⟩ := ih hsorted.2 hlow hnew
    exact ⟨locs', Returns.bind hloc hlocs, hall⟩

theorem callerLocs_correct (hs : Shows t getReg rounds known code c view) (hval : t.valLoc = .val)
    (hm : RowModels known code ra rs row) {rule : CfaRule (Fin t.numPreservedRegs) UInt64 E}
    (hrule : row.cfa = some rule) (hcfa : rule.value view 0 = some cfa)
    (hr : Recoverable view cfa row) :
    ∃ locs, Returns known (callerLocs t getReg rounds c rs) (.ok (cfa, locs)) ∧
      ∀ r, LocShows known view cfa r (row.rule r) (locs r) := by
  have hstart : LocsDone known c view cfa row (List.finRange t.numPreservedRegs) c.loc :=
    ⟨fun _ _ => rfl, fun r hmem => absurd (List.mem_finRange r) hmem,
      fun r hmem => absurd (List.mem_finRange r) hmem⟩
  obtain ⟨locs, hlocs, hall⟩ := newLocs_correct hs hval hr hm (List.pairwise_lt_finRange _)
    (fun q hmem => absurd (List.mem_finRange q) hmem) hstart
  exact ⟨locs, Returns.bind (evalCfa_correct hs hm hrule hcfa) (Returns.bind hlocs returns_pure), hall⟩

theorem returnIp_correct {col : Fin t.numPreservedRegs} {loc : Loc}
    (hl : LocShows known view cfa col (row.rule col) loc)
    (hip : row.returnAddress 0 view cfa col = some ip) : Returns known (returnIp loc) (.ok ip) := by
  unfold returnIp
  unfold Row.returnAddress at hip
  split at hip
  · next hundef =>
    cases hip
    rw [if_pos (hl.undefined hundef)]
    exact returns_pure
  · have hget := hl.value ip hip
    by_cases hnull : loc = .null
    · rw [hnull] at hget
      cases hget
    · rw [if_neg hnull]
      exact hget

/-- A step with a row of the table goes to the caller's frame: the frame address is
the row's, and from every location the row's value of its register can be read. -/
theorem applyRegState_recovers (hs : Shows t getReg rounds known code c view)
    (hval : t.valLoc = .val) {col : Fin t.numPreservedRegs}
    (hm : RowModels known code (UInt64.ofNat col) rs row) (hl : LeadsTo view row col cfa ip)
    (hmoves : ¬ (ip = c.ip ∧ cfa = c.cfa)) :
    ∃ locs, Returns known (applyRegState t getReg rounds c rs)
        (.ok (if ip ≠ 0 then 1 else 0, { c with loc := locs, cfa := cfa, ip := ip })) ∧
      ∀ r, LocShows known view cfa r (row.rule r) (locs r) := by
  obtain ⟨rule, hrule, hcfa⟩ := hl.frame
  obtain ⟨locs, hlocs, hall⟩ := callerLocs_correct hs hval hm hrule hcfa hl.recoverable
  have hcol : rs.retAddrColumn.toNat = col := by
    have := t.columns_fit
    rw [hm.column, UInt64.toNat_ofNat', Nat.mod_eq_of_lt (by omega)]
  have hlt : rs.retAddrColumn.toNat < t.numPreservedRegs := hcol ▸ col.isLt
  have hfin : (⟨rs.retAddrColumn.toNat, hlt⟩ : Fin t.numPreservedRegs) = col := Fin.ext hcol
  refine ⟨locs, ?_, hall⟩
  unfold applyRegState
  rw [dif_pos hlt]
  refine Returns.bind (returns_attempt hlocs) ?_
  dsimp only
  rw [hfin]
  refine Returns.bind (returns_attempt (returnIp_correct (hall col) hl.returns)) ?_
  dsimp only
  rw [if_neg hmoves]
  exact returns_pure

end Caller

section Step

variable {t : Target} {getReg : DwarfCursor t.numPreservedRegs → UInt64 → Code UInt64} {rounds : Nat}
  {E : Type} {known : Oracle} {code : E → List UInt8} {c : DwarfCursor t.numPreservedRegs}
  {pi : UnwProcInfo} {dci : DwarfCieInfo} {rs : RegState t.numPreservedRegs}

/-- The accessors answer with the description of a function. -/
structure Answered (known : Oracle) (ip : UInt64) (pi : UnwProcInfo) (dci : DwarfCieInfo) : Prop where
  dynamic : ∃ ret, known (.getDynInfoListAddr 0) = some ret ∧ ret < 0
  found : ∃ ret, known (.findProcInfo ip clearedProcInfo true) = some (ret, pi) ∧ 0 ≤ ret
  format : pi.format = UNW_INFO_FORMAT_REMOTE_TABLE
  info : pi.unwindInfo = some dci

/-- The cursor once its frame has been described. -/
def described (t : Target) (c : DwarfCursor t.numPreservedRegs) (pi : UnwProcInfo)
    (dci : DwarfCieInfo) : DwarfCursor t.numPreservedRegs :=
  { c with pi := pi, sigcontext := t.signalFrame dci, usePrevInstr := !t.signalFrame dci }

theorem fetchProcInfo_correct
    (ha : Answered known (if c.usePrevInstr then c.ip - 1 else c.ip) pi dci) :
    ∃ ret, 0 ≤ ret ∧ Returns known (fetchProcInfo t c c.ip)
      (.ok (ret, { c with pi := pi, sigcontext := t.signalFrame dci })) := by
  obtain ⟨dyn, hdyn, hneg⟩ := ha.dynamic
  obtain ⟨ret, hfound, hpos⟩ := ha.found
  have hdynamic : Returns known unwiFindDynamicProcInfo (.ok (-UNW_ENOINFO)) := by
    refine Returns.bind (returns_ask hdyn) ?_
    rw [if_pos hneg]
    exact returns_pure
  refine ⟨ret, hpos, Returns.bind hdynamic (Returns.bind (returns_ask hfound) ?_)⟩
  dsimp only
  rw [if_neg (Int.not_lt.mpr hpos), if_neg (fun h => h.2.2 ha.format)]
  unfold tdepFetchFrame
  simp only [ha.info]
  exact returns_pure

theorem findRegState_correct
    (ha : Answered known (if c.usePrevInstr then c.ip - 1 else c.ip) pi dci)
    (hrs : Returns known (createStateRecordFor t rounds pi dci c.usePrevInstr c.ip) (.ok rs)) :
    Returns known (findRegState t rounds c) (.ok (.ok rs, described t c pi dci)) := by
  obtain ⟨ret, hpos, hfetch⟩ := @fetchProcInfo_correct t known c pi dci ha
  have hput : putUnwindInfo pi = pi := by
    unfold putUnwindInfo
    rw [if_neg (by rw [ha.format]; decide)]
  refine Returns.bind hfetch ?_
  dsimp only
  rw [if_neg (Int.not_lt.mpr hpos), ha.info]
  refine Returns.bind (returns_attempt hrs) ?_
  rw [hput]
  exact returns_pure

/-- The programs of a function, where its descriptor says, give the row for an
address. -/
structure HasRow (t : Target) (known : Oracle) (code : E → List UInt8) (rounds : Nat)
    (pi : UnwProcInfo) (dci : DwarfCieInfo) (cie fde : List (Insn t.numPreservedRegs E))
    (loc : UInt64) (row : Row (Fin t.numPreservedRegs) UInt64 E) : Prop where
  flags : pi.flags &&& UNW_PI_FLAG_DEBUG_FRAME = 0
  programs : Describes t known code dci cie fde
  cieRounds : cie.length ≤ rounds
  fdeRounds : fde.length ≤ rounds
  inside : pi.startIp ≤ loc
  row : ∃ table,
    cfiTable t (factors dci pi) code dci.cieInstrStart dci.fdeInstrStart cie fde = some table ∧
    table.Pairwise (fun a b => a.1 ≤ b.1) ∧ rowAt table loc = some row

/-- A whole step: the function is described, its programs are run up to the address,
and the row they give leads to the caller's frame. -/
theorem dwarfStep_recovers {cie fde : List (Insn t.numPreservedRegs E)}
    {row : Row (Fin t.numPreservedRegs) UInt64 E} {view : View (Fin t.numPreservedRegs) UInt64 E}
    {col : Fin t.numPreservedRegs} {cfa ip : UInt64} (hval : t.valLoc = .val)
    (ha : Answered known (if c.usePrevInstr then c.ip - 1 else c.ip) pi dci)
    (hrow : HasRow t known code rounds pi dci cie fde
      (c.ip - if c.usePrevInstr then 1 else 0) row)
    (hcol : dci.retAddrColumn = UInt64.ofNat col)
    (hs : Shows t getReg rounds known code (described t c pi dci) view)
    (hl : LeadsTo view row col cfa ip) (hmoves : ¬ (ip = c.ip ∧ cfa = c.cfa)) :
    ∃ locs, Returns known (dwarfStep t getReg rounds c)
        (.ok (if ip ≠ 0 then 1 else 0,
          { described t c pi dci with loc := locs, cfa := cfa, ip := ip })) ∧
      ∀ r, LocShows known view cfa r (row.rule r) (locs r) := by
  obtain ⟨table, htable, hsorted, hat⟩ := hrow.row
  obtain ⟨rs, row', hrs, hrow', hm⟩ := createStateRecordFor_row hrow.programs ha.format hrow.flags
    hrow.cieRounds hrow.fdeRounds htable hsorted hrow.inside
  rw [hat] at hrow'
  cases hrow'
  rw [hcol] at hm
  obtain ⟨locs, happly, hall⟩ := applyRegState_recovers hs hval hm hl hmoves
  exact ⟨locs, Returns.bind (findRegState_correct ha hrs) happly, hall⟩

end Step

end Unwinder.Native
