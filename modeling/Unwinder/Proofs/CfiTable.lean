import Unwinder.Proofs.CfiProgram

namespace Unwinder.Native
open Lib Interaction CallFrame Dwarf Ffi

section Loop

variable {t : Target} {dci : DwarfCieInfo} {pi : UnwProcInfo} {E : Type} {known : Oracle}
  {code : E → List UInt8} {ra endIp endAddr : UInt64} {rounds : Nat}
  {initial : Fin t.numPreservedRegs → Rule (Fin t.numPreservedRegs) UInt64 E}
  {s : CfiState t.numPreservedRegs} {a a' : State (Fin t.numPreservedRegs) UInt64 E}

theorem Insn.bytes_ne_nil {n : Nat} (code : E → List UInt8) (i : Insn n E) : i.bytes code ≠ [] := by
  cases i <;> exact List.cons_ne_nil _ _

theorem returns_cfiLoop_done (h : ¬ (s.ip ≤ endIp ∧ s.addr < endAddr)) :
    Returns known (cfiLoop t dci pi endIp endAddr rounds s) (.ok s) := by
  cases rounds <;>
  · unfold cfiLoop
    rw [if_neg h]
    exact returns_pure

/-- The instructions up to a location, by induction over the program: where one
instruction ends the next one begins. -/
theorem program_runs {is : List (Insn t.numPreservedRegs E)}
    (hs : ∀ i ∈ is, i.Supported t dci) (h : HasBytes known s.addr (programBytes code is))
    (hend : s.addr.toNat + (programBytes code is).length = endAddr.toNat)
    (hrounds : is.length ≤ rounds) (hm : StateModels known code ra initial s a)
    (hx : runTo initial endIp (programMeaning code (factors dci pi) t.raSignState s.addr is) a =
      some a') :
    ∃ s', Returns known (cfiLoop t dci pi endIp endAddr rounds s) (.ok s') ∧
      StateModels known code ra initial s' a' := by
  induction is generalizing s a rounds with
  | nil =>
    cases hx
    refine ⟨s, returns_cfiLoop_done ?_, hm⟩
    rintro ⟨-, hlt⟩
    rw [UInt64.lt_iff_toNat_lt] at hlt
    simp [programBytes] at hend
    omega
  | cons i is ih =>
    by_cases hloc : a.loc ≤ endIp
    · obtain ⟨rounds, rfl⟩ : ∃ k, rounds = k + 1 := ⟨rounds - 1, by
        rw [List.length_cons] at hrounds
        omega⟩
      obtain ⟨a₁, ha₁, hx⟩ := Option.bind_eq_some_iff.mp ((if_pos hloc).symm.trans hx)
      rw [programBytes, List.flatMap_cons, hasBytes_append] at h
      rw [programBytes, List.flatMap_cons, List.length_append] at hend
      have hlt := endAddr.toNat_lt
      obtain ⟨s₁, hret, haddr, hm₁⟩ := insn_executes (hs i (by simp)) h.1 (by omega) hm ha₁
      have hpos := List.length_pos_iff.mpr (i.bytes_ne_nil code)
      have hnext : s₁.addr.toNat = s.addr.toNat + (i.bytes code).length := by
        rw [haddr, behind_toNat (by omega)]
      obtain ⟨s', hgo, hm'⟩ := ih (s := s₁) (fun j hj => hs j (List.mem_cons_of_mem _ hj))
        (haddr ▸ h.2) (by rw [hnext]; unfold programBytes; omega)
        (Nat.le_of_succ_le_succ hrounds) hm₁ (by rw [haddr]; exact hx)
      refine ⟨s', ?_, hm'⟩
      unfold cfiLoop
      rw [if_pos ⟨hm.ip ▸ hloc, UInt64.lt_iff_toNat_lt.mpr (by omega)⟩]
      exact Returns.bind hret hgo
    · cases (runTo_past hloc).symm.trans hx
      exact ⟨s, returns_cfiLoop_done (fun he => hloc (hm.ip ▸ he.1)), hm⟩

end Loop

section Table

variable (t : Target) {dci : DwarfCieInfo} {pi : UnwProcInfo} {E : Type} {known : Oracle}
  {code : E → List UInt8} {rounds : Nat} {usePrevInstr : Bool} {ip : UInt64}
  {cie fde : List (Insn t.numPreservedRegs E)}

/-- The row that every table starts from: all registers are kept, and the stack
pointer is the frame address. -/
def startRow : Row (Fin t.numPreservedRegs) UInt64 E where
  cfa := none
  rule := Function.update (fun _ => .sameValue) t.sp .cfa

/-- The table of a function: the program of the CIE gives the first row and what
registers are restored to, that of the FDE all rows. -/
def cfiTable (k : Insn.Factors) (code : E → List UInt8)
    (cieAddr fdeAddr : UInt64) (cie fde : List (Insn t.numPreservedRegs E)) :
    Option (List (UInt64 × Row (Fin t.numPreservedRegs) UInt64 E)) :=
  (run (fun _ => .undefined) (programMeaning code k t.raSignState cieAddr cie)
    ⟨0, startRow t, []⟩).bind (fun s =>
      rows s.row.rule (programMeaning code k t.raSignState fdeAddr fde) ⟨k.startIp, s.row, []⟩)

/-- The programs stand where the descriptor says, and libunwind supports them. -/
structure Describes (known : Oracle) (code : E → List UInt8) (dci : DwarfCieInfo)
    (cie fde : List (Insn t.numPreservedRegs E)) : Prop where
  cieBytes : HasBytes known dci.cieInstrStart (programBytes code cie)
  cieEnd : dci.cieInstrStart.toNat + (programBytes code cie).length = dci.cieInstrEnd.toNat
  fdeBytes : HasBytes known dci.fdeInstrStart (programBytes code fde)
  fdeEnd : dci.fdeInstrStart.toNat + (programBytes code fde).length = dci.fdeInstrEnd.toNat
  cieSupported : ∀ i ∈ cie, i.Supported t dci
  fdeSupported : ∀ i ∈ fde, i.Supported t dci

theorem startState_models (addr : UInt64) :
    StateModels known code dci.retAddrColumn (fun _ => .undefined)
      { ip := 0, addr := addr, argsSize := 0, rsInitial := .cleared _,
        rsCurrent := .start t dci.retAddrColumn, rsStack := [] }
      (⟨0, startRow t, []⟩ : State (Fin t.numPreservedRegs) UInt64 E) := by
  refine ⟨rfl, ⟨rfl, trivial, ?_⟩, .nil, fun _ => rfl⟩
  intro r
  by_cases hr : r = t.sp
  · subst hr
    simp [RegState.start, startRow, RuleModels]
  · simp [RegState.start, startRow, RuleModels, Function.update_of_ne hr]

variable {t}

theorem runCfiProgram_eq {endIp endAddr : UInt64} {s : CfiState t.numPreservedRegs}
    (h : pi.flags &&& UNW_PI_FLAG_DEBUG_FRAME = 0) :
    runCfiProgram t dci pi endIp endAddr rounds s = cfiLoop t dci pi endIp endAddr rounds s :=
  if_neg (fun hne => hne h)

/-- Interpreting the programs of a function up to an address gives the row that
its table has for the address. -/
theorem createStateRecordFor_row (hd : Describes t known code dci cie fde)
    (hformat : pi.format = UNW_INFO_FORMAT_REMOTE_TABLE)
    (hflags : pi.flags &&& UNW_PI_FLAG_DEBUG_FRAME = 0)
    (hcie : cie.length ≤ rounds) (hfde : fde.length ≤ rounds)
    {table : List (UInt64 × Row (Fin t.numPreservedRegs) UInt64 E)}
    (htable : cfiTable t (factors dci pi) code dci.cieInstrStart dci.fdeInstrStart cie fde =
      some table)
    (hsorted : table.Pairwise (fun a b => a.1 ≤ b.1))
    (hle : pi.startIp ≤ ip - if usePrevInstr then 1 else 0) :
    ∃ rs row, Returns known (createStateRecordFor t rounds pi dci usePrevInstr ip) (.ok rs) ∧
      rowAt table (ip - if usePrevInstr then 1 else 0) = some row ∧
      RowModels known code dci.retAddrColumn rs row := by
  obtain ⟨a, ha, htable⟩ := Option.bind_eq_some_iff.mp htable
  have htop : ∀ w : UInt64, w ≤ ~~~0 := by
    intro w
    rw [UInt64.le_iff_toNat_le, show (~~~0 : UInt64).toNat = 2 ^ 64 - 1 from rfl]
    have := w.toNat_lt
    omega
  rw [← runTo_top htop] at ha
  obtain ⟨s, hs, hm⟩ := program_runs hd.cieSupported hd.cieBytes hd.cieEnd hcie
    (startState_models t dci.cieInstrStart) ha
  have hstart : StateModels known code dci.retAddrColumn a.row.rule
      { s with rsInitial := s.rsCurrent, ip := pi.startIp, addr := dci.fdeInstrStart, rsStack := [] }
      ⟨pi.startIp, a.row, []⟩ := ⟨rfl, hm.row, .nil, hm.row.rule⟩
  obtain ⟨a', ha', hrow⟩ := runTo_row htable hsorted hle
  obtain ⟨s', hs', hm'⟩ := program_runs hd.fdeSupported hd.fdeBytes hd.fdeEnd hfde hstart ha'
  refine ⟨s'.rsCurrent, a'.row, ?_, hrow, hm'.row⟩
  unfold createStateRecordFor setupFde parseFde
  simp only [if_pos (Or.inr hformat), runCfiProgram_eq hflags]
  exact Returns.bind (Returns.bind hs returns_pure) (Returns.bind hs' returns_pure)

end Table

end Unwinder.Native
