import IonLang.Node

/-!
# Operator precedence

A flat sequence of operands and operators becomes a tree in which tighter operators lie deeper and
operators of one level group to the left. Operands stay as they are, so this works for operands of
any type.
-/

namespace IonLang

inductive OperatorTree (α : Type) where
  | leaf (operand : α)
  | branch (op : BinaryOp) (lhs rhs : OperatorTree α)
  deriving Repr

namespace OperatorTree

variable {α : Type}

/-- Left operands that still wait for their right operand, the innermost first. -/
abbrev Waiting (α : Type) := List (OperatorTree α × BinaryOp)

/-- Completes the waiting operators that bind at least as tightly as `level`, with `tree` as the
right operand of the innermost one. -/
def close (level : Nat) (tree : OperatorTree α) : Waiting α → OperatorTree α × Waiting α
  | [] => (tree, [])
  | (lhs, op) :: waiting =>
    if level ≤ op.level then close level (branch op lhs tree) waiting
    else (tree, (lhs, op) :: waiting)

def extend (waiting : Waiting α) (tree : OperatorTree α) : List (BinaryOp × α) → OperatorTree α
  | [] => (close 0 tree waiting).1
  | (op, operand) :: rest =>
    let (lhs, waiting) := close op.level tree waiting
    extend ((lhs, op) :: waiting) (leaf operand) rest

def ofChain (first : α) (rest : List (BinaryOp × α)) : OperatorTree α :=
  extend [] (leaf first) rest

end OperatorTree

end IonLang
