import Lantern.Tree

/-!
# Constant folding

Operators on literals are computed where the value is certain: arithmetic wraps at 64 bits, a
division that would trap and a power with a negative exponent are left alone, and a choice by a
literal truth value is made.
-/

namespace Lantern

/-- Multiplies `acc` by the power of `base` whose exponent has the binary digits of `exp`, reading
    at most the given number of digits. -/
def powerLoop : Nat → Int64 → Int64 → Nat → Int64
  | 0, acc, _, _ => acc
  | digits + 1, acc, base, exp =>
    if exp == 0 then acc
    else powerLoop digits (if exp % 2 == 1 then acc * base else acc) (base * base) (exp / 2)

/-- `base` to the power `exp` modulo 2^64, by squaring. -/
def power (base exp : Int64) : Int64 := powerLoop 64 1 base exp.toInt.toNat

/-- Whether dividing `l` by `r` traps. -/
def divisionTraps (l r : Int64) : Bool := r == 0 || (r == -1 && l == Int64.minValue)

/-- A literal result of folding. -/
inductive Folded where
  | number (value : Int64)
  | bool (value : Bool)
  deriving Repr, DecidableEq

namespace BinaryOp

/-- The value of an operator on two literals, where it is certain. -/
def fold? (op : BinaryOp) (l r : Int64) : Option Folded :=
  match op with
  | add => some (.number (l + r))
  | sub => some (.number (l - r))
  | mul => some (.number (l * r))
  | pow => if r < 0 then none else some (.number (power l r))
  | div => if divisionTraps l r then none else some (.number (l / r))
  | rem => if divisionTraps l r then none else some (.number (l % r))
  | eq => some (.bool (l == r))
  | ne => some (.bool (l != r))
  | lt => some (.bool (l < r))
  | gt => some (.bool (r < l))
  | le => some (.bool (l ≤ r))
  | ge => some (.bool (r ≤ l))
  | and | or => none

end BinaryOp

namespace Expr

/-- The literal for a folded value, standing where the folded expression stood. -/
def ofFolded (span : Span) : Folded → Expr
  | .number v => number ⟨span, none, none⟩ v
  | .bool v => bool ⟨span, none, none⟩ v

/-- Folds an operator whose operands are folded. -/
def foldBinary (i : Info) (op : BinaryOp) (left right : Expr) : Expr :=
  match left, right with
  | number _ l, number _ r =>
    match op.fold? l r with
    | some v => ofFolded i.span v
    | none => binary i op left right
  | _, _ => binary i op left right

/-- Folds an operator whose operand is folded. -/
def foldUnary (i : Info) (op : UnaryOp) (operand : Expr) : Expr :=
  match op, operand with
  | .neg, number _ v => ofFolded i.span (.number (-v))
  | .not, bool _ v => ofFolded i.span (.bool !v)
  | _, _ => unary i op operand

/-- Folds the operators at the top of an expression, from the leaves up. -/
def fold : Expr → Expr
  | binary i op left right => foldBinary i op left.fold right.fold
  | unary i op operand => foldUnary i op operand.fold
  | ternary i cond onTrue onFalse =>
    match cond.fold with
    | bool _ v => if v then onTrue.fold else onFalse.fold
    | folded => ternary i folded onTrue.fold onFalse.fold
  | e => e

end Expr

end Lantern
