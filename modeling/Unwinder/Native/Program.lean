import Unwinder.Dwarf.Encode
import Unwinder.Lib.CallFrame
import Unwinder.Native.Cfi

namespace Unwinder.Native
open Lib CallFrame Dwarf

/-- A call-frame instruction with its operands; `E` are the expressions. -/
inductive Insn (n : Nat) (E : Type) where
  | advanceLoc (delta : Fin 64)
  | advanceLoc1 (delta : UInt8)
  | advanceLoc2 (delta : UInt16)
  | advanceLoc4 (delta : UInt32)
  | setLoc (enc : Encoding) (raw : UInt64)
  | offset (r : Fin n) (small : r.val < 64) (o : UInt64)
  | offsetExtended (r : Fin n) (o : UInt64)
  | offsetExtendedSf (r : Fin n) (o : Int64)
  | negativeOffsetExtended (r : Fin n) (o : UInt64)
  | restore (r : Fin n) (small : r.val < 64)
  | restoreExtended (r : Fin n)
  | undefined (r : Fin n)
  | sameValue (r : Fin n)
  | register (r other : Fin n)
  | rememberState
  | restoreState
  | defCfa (r : Fin n) (o : UInt64)
  | defCfaSf (r : Fin n) (o : Int64)
  | defCfaRegister (r : Fin n)
  | defCfaOffset (o : UInt64)
  | defCfaOffsetSf (o : Int64)
  | defCfaExpression (e : E)
  | expression (r : Fin n) (e : E)
  | valExpression (r : Fin n) (e : E)
  | argsSize (size : UInt64)
  | negateRaState
  | nop

namespace Insn

variable {n : Nat} {E : Type} (code : E → List UInt8)

def uleb (v : UInt64) : List UInt8 := ulebEncode v.toNat

def sleb (v : Int64) : List UInt8 := slebEncode v.toInt

def column (r : Fin n) : List UInt8 := ulebEncode r

/-- An expression behind its length. -/
def block (e : E) : List UInt8 := ulebEncode (code e).length ++ code e

/-- One of the three opcodes that hold an operand in their low bits. -/
def primary (op : CfaOp) (operand : Nat) : UInt8 := op.code ||| UInt8.ofNat operand

def bytes : Insn n E → List UInt8
  | advanceLoc delta => [primary .advanceLoc delta]
  | advanceLoc1 delta => CfaOp.advanceLoc1.code :: [delta]
  | advanceLoc2 delta => CfaOp.advanceLoc2.code :: leBytes 2 delta.toNat
  | advanceLoc4 delta => CfaOp.advanceLoc4.code :: leBytes 4 delta.toNat
  | setLoc enc raw => CfaOp.setLoc.code :: enc.format.encode raw
  | offset r _ o => primary .offset r :: uleb o
  | offsetExtended r o => CfaOp.offsetExtended.code :: (column r ++ uleb o)
  | offsetExtendedSf r o => CfaOp.offsetExtendedSf.code :: (column r ++ sleb o)
  | negativeOffsetExtended r o => CfaOp.gnuNegativeOffsetExtended.code :: (column r ++ uleb o)
  | restore r _ => [primary .restore r]
  | restoreExtended r => CfaOp.restoreExtended.code :: column r
  | undefined r => CfaOp.undefined.code :: column r
  | sameValue r => CfaOp.sameValue.code :: column r
  | register r other => CfaOp.register.code :: (column r ++ column other)
  | rememberState => [CfaOp.rememberState.code]
  | restoreState => [CfaOp.restoreState.code]
  | defCfa r o => CfaOp.defCfa.code :: (column r ++ uleb o)
  | defCfaSf r o => CfaOp.defCfaSf.code :: (column r ++ sleb o)
  | defCfaRegister r => CfaOp.defCfaRegister.code :: column r
  | defCfaOffset o => CfaOp.defCfaOffset.code :: uleb o
  | defCfaOffsetSf o => CfaOp.defCfaOffsetSf.code :: sleb o
  | defCfaExpression e => CfaOp.defCfaExpression.code :: block code e
  | expression r e => CfaOp.expression.code :: (column r ++ block code e)
  | valExpression r e => CfaOp.valExpression.code :: (column r ++ block code e)
  | argsSize size => CfaOp.gnuArgsSize.code :: uleb size
  | negateRaState => [CfaOp.gnuWindowSave.code]
  | nop => [CfaOp.nop.code]

/-- What the factored operands are multiplied with, and the addresses a pointer can
be relative to. -/
structure Factors where
  codeAlign : UInt64
  dataAlign : UInt64
  gp : UInt64
  startIp : UInt64

/-- The instruction at an address as an instruction on call-frame tables. The
column of signed return addresses keeps its rule, if there is one. -/
def meaning (k : Factors) (raSignState : Option (Fin n)) (addr : UInt64) :
    Insn n E → Instr (Fin n) UInt64 E
  | advanceLoc delta => .advanceLoc (UInt64.ofNat delta * k.codeAlign)
  | advanceLoc1 delta => .advanceLoc (delta.toUInt64 * k.codeAlign)
  | advanceLoc2 delta => .advanceLoc (delta.toUInt64 * k.codeAlign)
  | advanceLoc4 delta => .advanceLoc (delta.toUInt64 * k.codeAlign)
  | setLoc enc raw => .setLoc (enc.pointer ⟨0, k.gp, k.startIp⟩ (addr + 1) raw)
  | offset r _ o | offsetExtended r o => .setRule r (.offset (o * k.dataAlign))
  | offsetExtendedSf r o => .setRule r (.offset (o.toUInt64 * k.dataAlign))
  | negativeOffsetExtended r o => .setRule r (.offset (0 - o * k.dataAlign))
  | restore r _ | restoreExtended r => .restore r
  | undefined r => .setRule r .undefined
  | sameValue r => .setRule r .sameValue
  | register r other => .setRule r (.register other)
  | rememberState => .rememberState
  | restoreState => .restoreState
  | defCfa r o => .defCfa (.register r o)
  | defCfaSf r o => .defCfa (.register r (o.toUInt64 * k.dataAlign))
  | defCfaRegister r => .defCfaRegister r
  | defCfaOffset o => .defCfaOffset o
  | defCfaOffsetSf o => .defCfaOffset (o.toUInt64 * k.dataAlign)
  | defCfaExpression e => .defCfa (.expression e)
  | expression r e => .setRule r (.expression e)
  | valExpression r e => .setRule r (.valExpression e)
  | negateRaState =>
    match raSignState with
    | some r => .setRule r .sameValue
    | none => .nop
  | argsSize _ | nop => .nop

/-- The operands are those that the encodings can hold, and the instruction is one
that libunwind supports on the target. -/
def Supported (t : Target) (dci : DwarfCieInfo) : Insn t.numPreservedRegs E → Prop
  | setLoc enc raw => dci.fdeEncoding = enc.byte ∧ enc.application ≠ .textrel ∧
      enc.format ≠ .sleb128 ∧ enc.format.Fits raw
  | negateRaState => t.raSignState ≠ none
  | _ => True

end Insn

section Program

variable {n : Nat} {E : Type} (code : E → List UInt8)

def programBytes (is : List (Insn n E)) : List UInt8 := is.flatMap (Insn.bytes code)

/-- The instructions from an address on. -/
def programMeaning (k : Insn.Factors) (raSignState : Option (Fin n)) :
    UInt64 → List (Insn n E) → List (Instr (Fin n) UInt64 E)
  | _, [] => []
  | addr, i :: is => i.meaning k raSignState addr ::
      programMeaning k raSignState (addr + UInt64.ofNat (i.bytes code).length) is

end Program

end Unwinder.Native
