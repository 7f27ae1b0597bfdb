import Unwinder.Native.Memory

namespace Unwinder.Native
open Lib Ffi

inductive UnaryOp where
  | abs | neg | not
deriving DecidableEq

inductive BinaryOp where
  | and | div | minus | mod | mul | or | plus | shl | shr | shra | xor
  | le | ge | eq | lt | gt | ne
deriving DecidableEq

/-- `dwarf_expr_op_t`. The last row are the operators that are known by their
operands only. -/
inductive ExprOp where
  | lit (n : Fin 32) | reg (n : Fin 32) | breg (n : Fin 32)
  | regx | bregx
  | addr | const1u | const1s | const2u | const2s | const4u | const4s | const8u | const8s
  | constu | consts
  | deref | derefSize | dup | drop | pick | overOp | swap | rot
  | unary (op : UnaryOp) | binary (op : BinaryOp) | plusUconst
  | skip | bra | nop
  | call2 | call4 | callRef | fbreg | piece | pushObjectAddress | xderef | xderefSize
deriving DecidableEq

namespace ExprOp

def code : ExprOp → UInt8
  | lit n => UInt8.ofNat (0x30 + n)
  | reg n => UInt8.ofNat (0x50 + n)
  | breg n => UInt8.ofNat (0x70 + n)
  | addr => 0x03
  | deref => 0x06
  | const1u => 0x08
  | const1s => 0x09
  | const2u => 0x0a
  | const2s => 0x0b
  | const4u => 0x0c
  | const4s => 0x0d
  | const8u => 0x0e
  | const8s => 0x0f
  | constu => 0x10
  | consts => 0x11
  | dup => 0x12
  | drop => 0x13
  | overOp => 0x14
  | pick => 0x15
  | swap => 0x16
  | rot => 0x17
  | xderef => 0x18
  | unary .abs => 0x19
  | binary .and => 0x1a
  | binary .div => 0x1b
  | binary .minus => 0x1c
  | binary .mod => 0x1d
  | binary .mul => 0x1e
  | unary .neg => 0x1f
  | unary .not => 0x20
  | binary .or => 0x21
  | binary .plus => 0x22
  | plusUconst => 0x23
  | binary .shl => 0x24
  | binary .shr => 0x25
  | binary .shra => 0x26
  | binary .xor => 0x27
  | skip => 0x2f
  | bra => 0x28
  | binary .eq => 0x29
  | binary .ge => 0x2a
  | binary .gt => 0x2b
  | binary .le => 0x2c
  | binary .lt => 0x2d
  | binary .ne => 0x2e
  | regx => 0x90
  | fbreg => 0x91
  | bregx => 0x92
  | piece => 0x93
  | derefSize => 0x94
  | xderefSize => 0x95
  | nop => 0x96
  | pushObjectAddress => 0x97
  | call2 => 0x98
  | call4 => 0x99
  | callRef => 0x9a

/-- The operators that have a code of their own. -/
def single : List ExprOp :=
  [addr, deref, const1u, const1s, const2u, const2s, const4u, const4s, const8u, const8s, constu,
    consts, dup, drop, overOp, pick, swap, rot, xderef, unary .abs, binary .and, binary .div,
    binary .minus, binary .mod, binary .mul, unary .neg, unary .not, binary .or, binary .plus,
    plusUconst, binary .shl, binary .shr, binary .shra, binary .xor, skip, bra, binary .eq,
    binary .ge, binary .gt, binary .le, binary .lt, binary .ne, regx, fbreg, bregx, piece,
    derefSize, xderefSize, nop, pushObjectAddress, call2, call4, callRef]

def ofCode (code : UInt8) : Option ExprOp :=
  if h : 0x30 ≤ code.toNat ∧ code.toNat < 0x50 then some (lit ⟨code.toNat - 0x30, by omega⟩)
  else if h : 0x50 ≤ code.toNat ∧ code.toNat < 0x70 then some (reg ⟨code.toNat - 0x50, by omega⟩)
  else if h : 0x70 ≤ code.toNat ∧ code.toNat < 0x90 then some (breg ⟨code.toNat - 0x70, by omega⟩)
  else single.find? (fun op => op.code = code)

end ExprOp

/-- The kinds of operands; an address has the size of a 64-bit value here. -/
inductive Operand where
  | val8 | val16 | val32 | val64 | uleb128 | sleb128 | offset | addr
deriving DecidableEq

/-- The `operands` table. -/
def ExprOp.operands : ExprOp → List Operand
  | addr => [.addr]
  | const1u | const1s | pick | derefSize | xderefSize => [.val8]
  | const2u | const2s | skip | bra | call2 => [.val16]
  | const4u | const4s | call4 => [.val32]
  | const8u | const8s => [.val64]
  | constu | plusUconst | regx | piece => [.uleb128]
  | consts | breg _ | fbreg => [.sleb128]
  | bregx => [.uleb128, .sleb128]
  | callRef => [.offset]
  | _ => []

def readOperand (kind : Operand) (addr : UInt64) : Code (UInt64 × UInt64) :=
  match kind with
  | .val8 => do
    let (u8, addr) ← dwarfReadu8 addr
    return (u8.toUInt64, addr)
  | .val16 => do
    let (u16, addr) ← dwarfReadu16 addr
    return (u16.toUInt64, addr)
  | .val32 => do
    let (u32, addr) ← dwarfReadu32 addr
    return (u32.toUInt64, addr)
  | .val64 | .addr => dwarfReadu64 addr
  | .uleb128 => dwarfReadUleb128 addr
  | .sleb128 => dwarfReadSleb128 addr
  | .offset => throw (.status (-UNW_EINVAL))

/-- The operands of an operator, zero where it has none. -/
def readOperands (kinds : List Operand) (addr : UInt64) : Code (UInt64 × UInt64 × UInt64) :=
  match kinds with
  | [] => return (0, 0, addr)
  | [first] => do
    let (operand1, addr) ← readOperand first addr
    return (operand1, 0, addr)
  | first :: second :: _ => do
    let (operand1, addr) ← readOperand first addr
    let (operand2, addr) ← readOperand second addr
    return (operand1, operand2, addr)

namespace UnaryOp

def apply : UnaryOp → UInt64 → UInt64
  | abs, tmp1 => if tmp1 &&& ((1 : UInt64) <<< 63) ≠ 0 then ~~~tmp1 + 1 else tmp1
  | neg, tmp1 => ~~~tmp1 + 1
  | not, tmp1 => ~~~tmp1

end UnaryOp

namespace BinaryOp

def truth (b : Bool) : UInt64 := if b then 1 else 0

/-- The operation on the popped values, the upper one first; there is no result
where C defines none. -/
def apply : BinaryOp → UInt64 → UInt64 → Option UInt64
  | and, tmp1, tmp2 => some (tmp1 &&& tmp2)
  | div, tmp1, tmp2 =>
    if tmp1 = 0 then some tmp1
    else if tmp2.toInt64 = Int64.minValue ∧ tmp1.toInt64 = -1 then none
    else some (tmp2.toInt64 / tmp1.toInt64).toUInt64
  | minus, tmp1, tmp2 => some (tmp2 - tmp1)
  | mod, tmp1, tmp2 => if tmp1 = 0 then some tmp1 else some (tmp2 % tmp1)
  | mul, tmp1, tmp2 => if tmp1 = 0 then some tmp1 else some (tmp2 * tmp1)
  | or, tmp1, tmp2 => some (tmp1 ||| tmp2)
  | plus, tmp1, tmp2 => some (tmp1 + tmp2)
  | shl, tmp1, tmp2 => if tmp1 < 64 then some (tmp2 <<< tmp1) else none
  | shr, tmp1, tmp2 => if tmp1 < 64 then some (tmp2 >>> tmp1) else none
  | shra, tmp1, tmp2 =>
    if tmp1 < 64 then some (tmp2.toInt64 >>> tmp1.toInt64).toUInt64 else none
  | xor, tmp1, tmp2 => some (tmp1 ^^^ tmp2)
  | le, tmp1, tmp2 => some (truth (tmp2.toInt64 ≤ tmp1.toInt64))
  | ge, tmp1, tmp2 => some (truth (tmp1.toInt64 ≤ tmp2.toInt64))
  | eq, tmp1, tmp2 => some (truth (tmp2.toInt64 = tmp1.toInt64))
  | lt, tmp1, tmp2 => some (truth (tmp2.toInt64 < tmp1.toInt64))
  | gt, tmp1, tmp2 => some (truth (tmp1.toInt64 < tmp2.toInt64))
  | ne, tmp1, tmp2 => some (truth (tmp2.toInt64 ≠ tmp1.toInt64))

end BinaryOp

def MAX_EXPR_STACK_SIZE : Nat := 64

/-- A stack with its top first. -/
abbrev ExprStack := List UInt64

def push (stack : ExprStack) (x : UInt64) : Code ExprStack :=
  if MAX_EXPR_STACK_SIZE ≤ stack.length then throw (.status (-UNW_EINVAL)) else return x :: stack

def pop (stack : ExprStack) : Code (UInt64 × ExprStack) :=
  match stack with
  | [] => throw (.status (-UNW_EINVAL))
  | x :: stack => return (x, stack)

def pick (stack : ExprStack) (n : Nat) : Code UInt64 :=
  match stack[n]? with
  | none => throw (.status (-UNW_EINVAL))
  | some x => return x

/-- The memory behind `DW_OP_deref_size`. Sizes from five to seven mask off the
low bytes, not the high ones. -/
def derefSize (operand1 addr : UInt64) : Code UInt64 :=
  if operand1 = 1 then do
    let (u8, _) ← dwarfReadu8 addr
    return u8.toUInt64
  else if operand1 = 2 then do
    let (u16, _) ← dwarfReadu16 addr
    return u16.toUInt64
  else if operand1 = 3 ∨ operand1 = 4 then do
    let (u32, _) ← dwarfReadu32 addr
    return if operand1 = 3 then u32.toUInt64 &&& 0xffffff else u32.toUInt64
  else if 5 ≤ operand1 ∧ operand1 ≤ 8 then do
    let (u64, _) ← dwarfReadu64 addr
    return if operand1 ≠ 8 then u64 &&& ((~~~0 : UInt64) <<< (8 * operand1)) else u64
  else throw (.status (-UNW_EINVAL))

/-- Sign-extends an operand of which only the low bits were read. -/
def extendSign (bits operand1 : UInt64) : UInt64 :=
  if operand1 &&& ((1 : UInt64) <<< (bits - 1)) ≠ 0 then operand1 ||| ((0 - 1 : UInt64) <<< bits)
  else operand1

/-- What an operator leaves: the position and stack to go on with, or the register
that the whole expression names. -/
inductive ExprResult where
  | more (addr : UInt64) (stack : ExprStack)
  | register (num : UInt64)

section Eval

variable (toRegnum : UInt64 → UInt64) (getReg : UInt64 → Code UInt64)

/-- One case of the switch in `dwarf_eval_expr`, the read position behind the
operands. -/
def exprInstr (op : ExprOp) (operand1 operand2 addr : UInt64) (stack : ExprStack) :
    Code ExprResult :=
  match op with
  | .lit n => do
    let stack ← push stack (UInt64.ofNat n)
    return .more addr stack
  | .breg n => do
    let tmp1 ← getReg (toRegnum (UInt64.ofNat n))
    let stack ← push stack (tmp1 + operand1)
    return .more addr stack
  | .bregx => do
    let tmp1 ← getReg (toRegnum operand1)
    let stack ← push stack (tmp1 + operand2)
    return .more addr stack
  | .reg n => return .register (toRegnum (UInt64.ofNat n))
  | .regx => return .register (toRegnum operand1)
  | .addr | .const1u | .const2u | .const4u | .const8u | .constu | .const8s | .consts => do
    let stack ← push stack operand1
    return .more addr stack
  | .const1s => do
    let stack ← push stack (extendSign 8 operand1)
    return .more addr stack
  | .const2s => do
    let stack ← push stack (extendSign 16 operand1)
    return .more addr stack
  | .const4s => do
    let stack ← push stack (extendSign 32 operand1)
    return .more addr stack
  | .deref => do
    let (tmp1, stack) ← pop stack
    let (tmp2, _) ← dwarfReadw tmp1
    let stack ← push stack tmp2
    return .more addr stack
  | .derefSize => do
    let (tmp1, stack) ← pop stack
    let tmp2 ← derefSize operand1 tmp1
    let stack ← push stack tmp2
    return .more addr stack
  | .dup => do
    let x ← pick stack 0
    let stack ← push stack x
    return .more addr stack
  | .drop => do
    let (_, stack) ← pop stack
    return .more addr stack
  | .pick => do
    let x ← pick stack operand1.toNat
    let stack ← push stack x
    return .more addr stack
  | .overOp => do
    let x ← pick stack 1
    let stack ← push stack x
    return .more addr stack
  | .swap => do
    let (tmp1, stack) ← pop stack
    let (tmp2, stack) ← pop stack
    let stack ← push stack tmp1
    let stack ← push stack tmp2
    return .more addr stack
  | .rot => do
    let (tmp1, stack) ← pop stack
    let (tmp2, stack) ← pop stack
    let (tmp3, stack) ← pop stack
    let stack ← push stack tmp1
    let stack ← push stack tmp3
    let stack ← push stack tmp2
    return .more addr stack
  | .unary op => do
    let (tmp1, stack) ← pop stack
    let stack ← push stack (op.apply tmp1)
    return .more addr stack
  | .binary op => do
    let (tmp1, stack) ← pop stack
    let (tmp2, stack) ← pop stack
    match op.apply tmp1 tmp2 with
    | none => throw .undefined
    | some x =>
      let stack ← push stack x
      return .more addr stack
  | .plusUconst => do
    let (tmp1, stack) ← pop stack
    let stack ← push stack (tmp1 + operand1)
    return .more addr stack
  | .skip => return .more (addr + operand1.toUInt16.toInt16.toInt64.toUInt64) stack
  | .bra => do
    let (tmp1, stack) ← pop stack
    if tmp1 ≠ 0 then return .more (addr + operand1.toUInt16.toInt16.toInt64.toUInt64) stack
    else return .more addr stack
  | .nop => return .more addr stack
  | .call2 | .call4 | .callRef | .fbreg | .piece | .pushObjectAddress | .xderef | .xderefSize =>
    throw (.status (-UNW_EINVAL))

/-- One round of `dwarf_eval_expr`. A code that is no operator has no operands. -/
def exprRound (addr : UInt64) (stack : ExprStack) : Code ExprResult := do
  let (opcode, addr) ← dwarfReadu8 addr
  match ExprOp.ofCode opcode with
  | some op =>
    let (operand1, operand2, addr) ← readOperands op.operands addr
    exprInstr toRegnum getReg op operand1 operand2 addr stack
  | none => throw (.status (-UNW_EINVAL))

/-- The rounds of `dwarf_eval_expr`: the value, and whether it is a register
number. -/
def exprLoop (endAddr : UInt64) : Nat → UInt64 → ExprStack → Code (UInt64 × Bool)
  | 0, addr, stack => do
    if addr < endAddr then throw .unfinished
    else
      let (val, _) ← pop stack
      return (val, false)
  | rounds + 1, addr, stack => do
    if addr < endAddr then
      match ← exprRound toRegnum getReg addr stack with
      | .more addr stack => exprLoop endAddr rounds addr stack
      | .register num => return (num, true)
    else
      let (val, _) ← pop stack
      return (val, false)

def dwarfEvalExpr (rounds : Nat) (stackVal addr len : UInt64) : Code (UInt64 × Bool) := do
  let stack ← push [] stackVal
  exprLoop toRegnum getReg (addr + len) rounds addr stack

end Eval

end Unwinder.Native
