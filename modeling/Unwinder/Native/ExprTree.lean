import Unwinder.Dwarf.Encode
import Unwinder.Native.Expr

namespace Unwinder.Native
open Lib Dwarf

/-- The ways to write a constant. -/
inductive Literal where
  | lit (n : Fin 32)
  | const1u (v : UInt8) | const1s (v : Int8)
  | const2u (v : UInt16) | const2s (v : Int16)
  | const4u (v : UInt32) | const4s (v : Int32)
  | const8u (v : UInt64) | const8s (v : Int64)
  | constu (v : UInt64) | consts (v : Int64)
  | addr (v : UInt64)

namespace Literal

def bytes : Literal → List UInt8
  | lit n => [(ExprOp.lit n).code]
  | const1u v => ExprOp.const1u.code :: [v]
  | const1s v => ExprOp.const1s.code :: [v.toUInt8]
  | const2u v => ExprOp.const2u.code :: leBytes 2 v.toNat
  | const2s v => ExprOp.const2s.code :: leBytes 2 v.toUInt16.toNat
  | const4u v => ExprOp.const4u.code :: leBytes 4 v.toNat
  | const4s v => ExprOp.const4s.code :: leBytes 4 v.toUInt32.toNat
  | const8u v => ExprOp.const8u.code :: leBytes 8 v.toNat
  | const8s v => ExprOp.const8s.code :: leBytes 8 v.toUInt64.toNat
  | constu v => ExprOp.constu.code :: ulebEncode v.toNat
  | consts v => ExprOp.consts.code :: slebEncode v.toInt
  | addr v => ExprOp.addr.code :: leBytes 8 v.toNat

def value : Literal → UInt64
  | lit n => UInt64.ofNat n
  | const1u v => v.toUInt64
  | const1s v => v.toInt64.toUInt64
  | const2u v => v.toUInt64
  | const2s v => v.toInt64.toUInt64
  | const4u v => v.toUInt64
  | const4s v => v.toInt64.toUInt64
  | const8u v | constu v | addr v => v
  | const8s v | consts v => v.toUInt64

end Literal

/-- A word as a signed number. -/
def signed (x : UInt64) : Int := x.toInt64.toInt

/-- What an operator makes of a signed number. -/
def UnaryOp.meaning : UnaryOp → Int → Int
  | abs, x => |x|
  | neg, x => -x
  | not, x => -x - 1

/-- What an operator makes of two words, the lower one on the stack first. Remainders,
shifts to the left and logical shifts are those of unsigned numbers. There is no
quotient that is too large, and nothing is shifted by a word or more. -/
def BinaryOp.meaning : BinaryOp → UInt64 → UInt64 → Option Int
  | and, x, y => some ↑(x.toNat &&& y.toNat)
  | or, x, y => some ↑(x.toNat ||| y.toNat)
  | xor, x, y => some ↑(x.toNat ^^^ y.toNat)
  | plus, x, y => some (signed x + signed y)
  | minus, x, y => some (signed x - signed y)
  | mul, x, y => some (signed x * signed y)
  | div, x, y =>
    if signed y ≠ 0 ∧ (signed x).tdiv (signed y) < 2 ^ 63 then
      some ((signed x).tdiv (signed y))
    else none
  | mod, x, y => if y.toNat ≠ 0 then some ↑(x.toNat % y.toNat) else none
  | shl, x, y => if y.toNat < 64 then some ↑(x.toNat * 2 ^ y.toNat) else none
  | shr, x, y => if y.toNat < 64 then some ↑(x.toNat / 2 ^ y.toNat) else none
  | shra, x, y => if y.toNat < 64 then some (signed x / 2 ^ y.toNat) else none
  | le, x, y => some (if signed x ≤ signed y then 1 else 0)
  | ge, x, y => some (if signed y ≤ signed x then 1 else 0)
  | eq, x, y => some (if signed x = signed y then 1 else 0)
  | lt, x, y => some (if signed x < signed y then 1 else 0)
  | gt, x, y => some (if signed y < signed x then 1 else 0)
  | ne, x, y => some (if signed x ≠ signed y then 1 else 0)

/-- The sizes of memory that are read as a number. Those from five to seven bytes
are left out: the evaluator masks off the wrong end of what it reads. -/
inductive DerefSize where
  | one | two | three | four | eight
deriving DecidableEq

namespace DerefSize

def bytes : DerefSize → Nat
  | one => 1
  | two => 2
  | three => 3
  | four => 4
  | eight => 8

/-- The bytes that must be there: a fourth one is read with three. -/
def reach : DerefSize → Nat
  | three => 4
  | size => size.bytes

end DerefSize

/-- A DWARF expression as a tree. Its variables are the value it starts with and
what is bound around it, the innermost first. -/
inductive Expr where
  | var (i : Nat)
  | literal (l : Literal)
  | breg (r : Fin 32) (off : Int64)
  | bregx (r : UInt64) (off : Int64)
  | deref (e : Expr)
  | derefSize (size : DerefSize) (e : Expr)
  | unary (op : UnaryOp) (e : Expr)
  | plusUconst (e : Expr) (v : UInt64)
  | binary (op : BinaryOp) (e f : Expr)
  | cond (c e f : Expr)
  | bind (e f : Expr)

/-- What an expression can look at: the registers by their DWARF numbers, and the
memory. -/
structure Machine where
  reg : UInt64 → Option UInt64
  byte : UInt64 → Option UInt8

/-- The number in the given count of bytes. -/
def Machine.load (m : Machine) : Nat → UInt64 → Option Nat
  | 0, _ => some 0
  | k + 1, addr => do
    let b ← m.byte addr
    let rest ← m.load k (addr + 1)
    return b.toNat + 256 * rest

namespace Expr

/-- The value of an expression. There is none where something cannot be read, or an
operator has no result. -/
def eval (m : Machine) : List UInt64 → Expr → Option UInt64
  | env, var i => env[i]?
  | _, literal l => some l.value
  | _, breg r off => (m.reg (UInt64.ofNat r)).map (· + off.toUInt64)
  | _, bregx r off => (m.reg r).map (· + off.toUInt64)
  | env, deref e => do
    let addr ← eval m env e
    (m.load 8 addr).map UInt64.ofNat
  | env, derefSize size e => do
    let addr ← eval m env e
    (m.load size.reach addr).map (fun n => UInt64.ofNat (n % 256 ^ size.bytes))
  | env, unary op e => (eval m env e).map (fun x => UInt64.ofInt (op.meaning (signed x)))
  | env, plusUconst e v => (eval m env e).map (· + v)
  | env, binary op e f => do
    let x ← eval m env e
    let y ← eval m env f
    (op.meaning x y).map UInt64.ofInt
  | env, cond c e f => do
    let x ← eval m env c
    if x ≠ 0 then eval m env e else eval m env f
  | env, bind e f => do
    let x ← eval m env e
    eval m (x :: env) f

/-- A jump over some bytes. -/
def jump (op : ExprOp) (dist : Nat) : List UInt8 := op.code :: leBytes 2 dist

/-- The code of an expression on a stack of some height; `slots` are the places of
the variables, counted from the bottom. -/
def bytes : List Nat → Nat → Expr → List UInt8
  | slots, h, var i => [ExprOp.pick.code, UInt8.ofNat (h - 1 - slots.getD i 0)]
  | _, _, literal l => l.bytes
  | _, _, breg r off => (ExprOp.breg r).code :: slebEncode off.toInt
  | _, _, bregx r off => ExprOp.bregx.code :: (ulebEncode r.toNat ++ slebEncode off.toInt)
  | slots, h, deref e => bytes slots h e ++ [ExprOp.deref.code]
  | slots, h, derefSize size e =>
    bytes slots h e ++ [ExprOp.derefSize.code, UInt8.ofNat size.bytes]
  | slots, h, unary op e => bytes slots h e ++ [(ExprOp.unary op).code]
  | slots, h, plusUconst e v =>
    bytes slots h e ++ ExprOp.plusUconst.code :: ulebEncode v.toNat
  | slots, h, binary op e f =>
    bytes slots h e ++ bytes slots (h + 1) f ++ [(ExprOp.binary op).code]
  | slots, h, cond c e f =>
    bytes slots h c ++ jump .bra ((bytes slots h f).length + 3) ++ bytes slots h f ++
      jump .skip (bytes slots h e).length ++ bytes slots h e
  | slots, h, bind e f =>
    -- the bound value is below the result, and goes in the end
    bytes slots h e ++ bytes (h :: slots) (h + 1) f ++ [ExprOp.swap.code, ExprOp.drop.code]

/-- The places that an expression needs above the stack it starts on. -/
def height : Expr → Nat
  | var _ | literal _ | breg _ _ | bregx _ _ => 1
  | deref e | derefSize _ e | unary _ e | plusUconst e _ => e.height
  | binary _ e f | bind e f => max e.height (f.height + 1)
  | cond c e f => max c.height (max e.height f.height)

/-- The rounds that running the code can take. -/
def size : Expr → Nat
  | var _ | literal _ | breg _ _ | bregx _ _ => 1
  | deref e | derefSize _ e | unary _ e | plusUconst e _ => e.size + 1
  | binary _ e f => e.size + f.size + 1
  | cond c e f => c.size + max (e.size + 1) (f.size + 2)
  | bind e f => e.size + f.size + 2

/-- The jumps of the code fit into sixteen bits. -/
def JumpsFit : List Nat → Nat → Expr → Prop
  | _, _, var _ | _, _, literal _ | _, _, breg _ _ | _, _, bregx _ _ => True
  | slots, h, deref e | slots, h, derefSize _ e | slots, h, unary _ e | slots, h, plusUconst e _ =>
    JumpsFit slots h e
  | slots, h, binary _ e f => JumpsFit slots h e ∧ JumpsFit slots (h + 1) f
  | slots, h, cond c e f => JumpsFit slots h c ∧ JumpsFit slots h e ∧ JumpsFit slots h f ∧
      (bytes slots h e).length < 2 ^ 15 ∧ (bytes slots h f).length + 3 < 2 ^ 15
  | slots, h, bind e f => JumpsFit slots h e ∧ JumpsFit (h :: slots) (h + 1) f

end Expr

/-- A location: an address that is computed, or a register. -/
inductive LocExpr where
  | value (e : Expr)
  | reg (r : Fin 32)
  | regx (r : UInt64)

namespace LocExpr

/-- The code, for a stack that holds the starting value only. -/
def bytes : LocExpr → List UInt8
  | value e => e.bytes [0] 1
  | reg r => [(ExprOp.reg r).code]
  | regx r => ExprOp.regx.code :: ulebEncode r.toNat

/-- The code can be run on the stack that there is, and its jumps fit into their
operands. -/
def Fits : LocExpr → Prop
  | value e => e.height < MAX_EXPR_STACK_SIZE ∧ e.JumpsFit [0] 1
  | reg _ | regx _ => True

def size : LocExpr → Nat
  | value e => e.size
  | reg _ | regx _ => 1

/-- The value, and whether it is a register number. -/
def eval (m : Machine) (toRegnum : UInt64 → UInt64) (start : UInt64) : LocExpr → Option (UInt64 × Bool)
  | value e => (e.eval m [start]).map (fun v => (v, false))
  | reg r => some (toRegnum (UInt64.ofNat r), true)
  | regx r => some (toRegnum r, true)

end LocExpr

end Unwinder.Native
