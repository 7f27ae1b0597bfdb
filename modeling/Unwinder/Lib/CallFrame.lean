import Mathlib.Data.List.Basic
import Mathlib.Logic.Function.Basic
import Mathlib.Order.Lattice

namespace Unwinder.Lib.CallFrame

/-- How the caller's value of a register is recovered: from a word at an offset
from the canonical frame address, from another register, from a word at a computed
address, or as a computed value. -/
inductive Rule (R W E : Type) where
  | undefined
  | sameValue
  | offset (o : W)
  | register (r : R)
  | expression (e : E)
  | valExpression (e : E)
  | cfa

inductive CfaRule (R W E : Type) where
  | register (r : R) (offset : W)
  | expression (e : E)

/-- One row of a call-frame table: how the frame address and the caller's registers
are recovered at a location. -/
structure Row (R W E : Type) where
  cfa : Option (CfaRule R W E)
  rule : R → Rule R W E

inductive Instr (R W E : Type) where
  | advanceLoc (delta : W)
  | setLoc (loc : W)
  | defCfa (rule : CfaRule R W E)
  | defCfaRegister (r : R)
  | defCfaOffset (o : W)
  | setRule (r : R) (rule : Rule R W E)
  | restore (r : R)
  | rememberState
  | restoreState
  | nop

/-- Where a program stands: the location of its row, the row so far, and the rows
it has put aside. -/
structure State (R W E : Type) where
  loc : W
  row : Row R W E
  stack : List (Row R W E)

variable {R W E : Type}

/-- Instructions that end a row. -/
def Instr.Moves : Instr R W E → Prop
  | advanceLoc _ | setLoc _ => True
  | _ => False

instance : (i : Instr R W E) → Decidable i.Moves
  | .advanceLoc _ | .setLoc _ => inferInstanceAs (Decidable True)
  | .defCfa _ | .defCfaRegister _ | .defCfaOffset _ | .setRule _ _ | .restore _
  | .rememberState | .restoreState | .nop => inferInstanceAs (Decidable False)

/-- The change of a frame-address rule that is a register and an offset. -/
def Row.adjustCfa (row : Row R W E) (f : R → W → R × W) : Option (Row R W E) :=
  match row.cfa with
  | some (.register r o) => some { row with cfa := some (.register (f r o).1 (f r o).2) }
  | _ => none

section Exec

variable [DecidableEq R] [Add W]

def Row.setRule (row : Row R W E) (r : R) (rule : Rule R W E) : Row R W E :=
  { row with rule := Function.update row.rule r rule }

/-- What an instruction makes of the state; `initial` are the rules that a register
can be restored to. -/
def Instr.exec (initial : R → Rule R W E) (i : Instr R W E) (s : State R W E) :
    Option (State R W E) :=
  match i with
  | advanceLoc delta => some { s with loc := s.loc + delta }
  | setLoc loc => some { s with loc := loc }
  | defCfa rule => some { s with row := { s.row with cfa := some rule } }
  | defCfaRegister r => (s.row.adjustCfa (fun _ o => (r, o))).map (fun row => { s with row := row })
  | defCfaOffset o => (s.row.adjustCfa (fun r _ => (r, o))).map (fun row => { s with row := row })
  | setRule r rule => some { s with row := s.row.setRule r rule }
  | restore r => some { s with row := s.row.setRule r (initial r) }
  | rememberState => some { s with stack := s.row :: s.stack }
  | restoreState =>
    match s.stack with
    | [] => none
    | row :: rest => some { s with row := row, stack := rest }
  | nop => some s

/-- An instruction that does not end the row leaves the location alone, one that
does leaves the row alone. -/
theorem Instr.exec_frame {initial : R → Rule R W E} {i : Instr R W E} {s s' : State R W E}
    (h : i.exec initial s = some s') : (¬ i.Moves → s'.loc = s.loc) ∧ (i.Moves → s'.row = s.row) := by
  cases i with
  | advanceLoc delta | setLoc loc =>
    cases h
    exact ⟨fun hn => absurd trivial hn, fun _ => rfl⟩
  | defCfaRegister r | defCfaOffset o =>
    obtain ⟨row, -, rfl⟩ := Option.map_eq_some_iff.mp h
    exact ⟨fun _ => rfl, fun hm => absurd hm id⟩
  | restoreState =>
    simp only [exec] at h
    split at h
    · cases h
    · cases h
      exact ⟨fun _ => rfl, fun hm => absurd hm id⟩
  | defCfa rule | setRule r rule | restore r | rememberState | nop =>
    cases h
    exact ⟨fun _ => rfl, fun hm => absurd hm id⟩

/-- All instructions in turn. -/
def run (initial : R → Rule R W E) : List (Instr R W E) → State R W E → Option (State R W E)
  | [], s => some s
  | i :: is, s => (i.exec initial s).bind (run initial is)

/-- The whole table of a program: each row with the location it starts at. -/
def rows (initial : R → Rule R W E) : List (Instr R W E) → State R W E →
    Option (List (W × Row R W E))
  | [], s => some [(s.loc, s.row)]
  | i :: is, s =>
    (i.exec initial s).bind (fun s' => (rows initial is s').map (fun rest =>
      if i.Moves then (s.loc, s.row) :: rest else rest))

theorem rows_head {initial : R → Rule R W E} {is : List (Instr R W E)} {s : State R W E}
    {table : List (W × Row R W E)} (h : rows initial is s = some table) :
    ∃ row rest, table = (s.loc, row) :: rest := by
  induction is generalizing s table with
  | nil =>
    cases h
    exact ⟨s.row, [], rfl⟩
  | cons i is ih =>
    obtain ⟨s', hs', h⟩ := Option.bind_eq_some_iff.mp h
    obtain ⟨rest, hrest, rfl⟩ := Option.map_eq_some_iff.mp h
    split
    · exact ⟨s.row, rest, rfl⟩
    · next hm =>
      rw [← (Instr.exec_frame hs').1 hm]
      exact ih hrest

variable [LinearOrder W]

/-- The row that a table has for a location: the last one that starts at or below
it. -/
def rowAt (table : List (W × Row R W E)) (loc : W) : Option (Row R W E) :=
  (table.filter (fun entry => entry.1 ≤ loc)).getLast?.map Prod.snd

/-- Runs a program until its location has passed the given one. -/
def runTo (initial : R → Rule R W E) (loc : W) : List (Instr R W E) → State R W E →
    Option (State R W E)
  | [], s => some s
  | i :: is, s => if s.loc ≤ loc then (i.exec initial s).bind (runTo initial loc is) else some s

theorem runTo_past {initial : R → Rule R W E} {loc : W} {is : List (Instr R W E)}
    {s : State R W E} (h : ¬ s.loc ≤ loc) : runTo initial loc is s = some s := by
  cases is with
  | nil => rfl
  | cons i is => exact if_neg h

/-- No location lies behind the greatest one. -/
theorem runTo_top {initial : R → Rule R W E} {loc : W} (h : ∀ w, w ≤ loc)
    (is : List (Instr R W E)) (s : State R W E) : runTo initial loc is s = run initial is s := by
  induction is generalizing s with
  | nil => rfl
  | cons i is ih =>
    rw [runTo, run, if_pos (h s.loc)]
    congr
    funext s'
    exact ih s'

/-- Where the locations of a table do not go back, running up to a location ends
with the row that the table has for it. -/
theorem runTo_row {initial : R → Rule R W E} {loc : W} {is : List (Instr R W E)}
    {s : State R W E} {table : List (W × Row R W E)} (h : rows initial is s = some table)
    (hsorted : table.Pairwise (fun a b => a.1 ≤ b.1)) (hle : s.loc ≤ loc) :
    ∃ s', runTo initial loc is s = some s' ∧ rowAt table loc = some s'.row := by
  induction is generalizing s table with
  | nil =>
    cases h
    exact ⟨s, rfl, by simp [rowAt, hle]⟩
  | cons i is ih =>
    obtain ⟨s₁, hs₁, h⟩ := Option.bind_eq_some_iff.mp h
    obtain ⟨rest, hrest, rfl⟩ := Option.map_eq_some_iff.mp h
    have hrun : runTo initial loc (i :: is) s = runTo initial loc is s₁ := by
      rw [runTo, if_pos hle, hs₁]
      rfl
    obtain ⟨hloc, hrow⟩ := Instr.exec_frame hs₁
    rw [hrun]
    by_cases hm : i.Moves
    · rw [if_pos hm] at hsorted ⊢
      obtain ⟨row, tail, rfl⟩ := rows_head hrest
      rw [List.pairwise_cons] at hsorted
      by_cases hnext : s₁.loc ≤ loc
      · obtain ⟨s', hs', hat⟩ := ih hrest hsorted.2 hnext
        refine ⟨s', hs', ?_⟩
        rw [← hat]
        unfold rowAt
        rw [List.filter_cons_of_pos (by simpa using hle), List.filter_cons_of_pos (by simpa using hnext),
          List.getLast?_cons_cons]
      · -- the new row starts behind the location, and so do all that follow
        refine ⟨s₁, runTo_past hnext, ?_⟩
        have hnone : List.filter (fun entry : W × Row R W E => decide (entry.1 ≤ loc))
            ((s₁.loc, row) :: tail) = [] := by
          rw [List.filter_eq_nil_iff]
          intro entry hentry hat
          rcases List.mem_cons.mp hentry with rfl | htail
          · exact hnext (by simpa using hat)
          · exact hnext (le_trans ((List.pairwise_cons.mp hsorted.2).1 entry htail)
              (by simpa using hat))
        unfold rowAt
        rw [List.filter_cons_of_pos (by simpa using hle), hnone, hrow hm]
        rfl
    · rw [if_neg hm] at hsorted ⊢
      exact ih hrest hsorted (hloc hm ▸ hle)

end Exec

section Caller

/-- Where an expression says that a value is. -/
inductive Place (R W : Type) where
  | address (a : W)
  | register (r : R)

/-- What can be seen of a frame: its registers, the memory, and the expressions,
which start from a word. -/
structure View (R W E : Type) where
  reg : R → Option W
  word : W → Option W
  expr : W → E → Option (Place R W)

def Place.value (view : View R W E) : Place R W → Option W
  | address a => view.word a
  | register r => view.reg r

def Place.asAddress : Place R W → Option W
  | address a => some a
  | register _ => none

variable [Add W]

/-- The canonical frame address. An expression for it starts from a word that means
nothing. -/
def CfaRule.value (view : View R W E) (start : W) : CfaRule R W E → Option W
  | register r o => (view.reg r).map (· + o)
  | expression e => (view.expr start e).bind Place.asAddress

/-- The value that a register has in the caller's frame. -/
def Rule.caller (view : View R W E) (frame : W) (r : R) : Rule R W E → Option W
  | undefined => none
  | sameValue => view.reg r
  | offset o => view.word (frame + o)
  | register q => view.reg q
  | expression e => (view.expr frame e).bind (Place.value view)
  | valExpression e => (view.expr frame e).bind Place.asAddress
  | cfa => some frame

/-- The address that the frame returns to. An undefined one is the end of the
stack, which has an address of its own. -/
def Row.returnAddress (stackEnd : W) (view : View R W E) (frame : W) (col : R) (row : Row R W E) :
    Option W :=
  match row.rule col with
  | .undefined => some stackEnd
  | rule => rule.caller view frame col

end Caller

end Unwinder.Lib.CallFrame
