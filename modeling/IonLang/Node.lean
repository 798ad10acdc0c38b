/-!
# Syntax trees

A node of the syntax tree. The number of a node is unique within one parse and names the labels of
control structures. `Node.render` writes a tree as an s-expression, which leaves the numbers out.
-/

namespace IonLang

structure VarId where
  index : Nat
  deriving DecidableEq, Repr

structure FuncId where
  index : Nat
  deriving DecidableEq, Repr

def VarId.label (var : VarId) : String := "var_" ++ toString var.index

def FuncId.label (func : FuncId) : String := "function_" ++ toString func.index

inductive UnaryOp where
  | neg | not
  deriving DecidableEq, Repr

def UnaryOp.name : UnaryOp → String
  | neg => "neg"
  | not => "not"

inductive BinaryOp where
  | add | sub | mul | eq | ne | lt | gt | le | ge
  deriving DecidableEq, Repr

namespace BinaryOp

/-- How tightly an operator binds: comparisons least, products most. -/
def level : BinaryOp → Nat
  | eq | ne | lt | gt | le | ge => 1
  | add | sub => 2
  | mul => 3

def spelling : BinaryOp → String
  | add => "+"
  | sub => "-"
  | mul => "*"
  | eq => "=="
  | ne => "!="
  | lt => "<"
  | gt => ">"
  | le => "<="
  | ge => ">="

end BinaryOp

inductive AssignOp where
  | set | add | sub | mul
  deriving DecidableEq, Repr

def AssignOp.spelling : AssignOp → String
  | set => "="
  | add => "+="
  | sub => "-="
  | mul => "*="

inductive Direction where
  | up | down
  deriving DecidableEq, Repr

def Direction.spelling : Direction → String
  | up => "++"
  | down => "--"

/-- Whether a step takes effect before or after the value is read. -/
inductive Timing where
  | before | after
  deriving DecidableEq, Repr

/-- A node of the syntax tree; the first field is its number. -/
inductive Node where
  | block (id : Nat) (body : List Node)
  | ifElse (id : Nat) (cond thenPart : Node) (elsePart : Option Node)
  | whileLoop (id : Nat) (cond body : Node)
  | doWhile (id : Nat) (body cond : Node)
  /-- Pairs of case value and case body, then the default block. -/
  | switch (id : Nat) (subject : Node) (cases : List (Node × Node)) (fallback : Option Node)
  | assign (id : Nat) (var : VarId) (op : AssignOp) (value : Node)
  | access (id : Nat) (var : VarId)
  | integer (id : Nat) (text : String)
  | float (id : Nat) (text : String)
  | unary (id : Nat) (op : UnaryOp) (operand : Node)
  | binary (id : Nat) (op : BinaryOp) (lhs rhs : Node)
  | step (id : Nat) (direction : Direction) (var : VarId) (timing : Timing)
  | call (id : Nat) (func : FuncId)
  | putChar (id : Nat) (value : Node)
  deriving Repr, Inhabited

namespace Node

def id : Node → Nat
  | block id _ | ifElse id .. | whileLoop id .. | doWhile id .. | switch id .. | assign id ..
  | access id _ | integer id _ | float id _ | unary id .. | binary id .. | step id ..
  | call id _ | putChar id _ => id

/-- The text of a step: the operator stands on the side on which it was written. -/
def renderStep (direction : Direction) (var : VarId) : Timing → String
  | .before => "(" ++ direction.spelling ++ " " ++ var.label ++ ")"
  | .after => "(" ++ var.label ++ " " ++ direction.spelling ++ ")"

mutual

/-- A tree as an s-expression. -/
def render : Node → String
  | block _ body => "(block" ++ renderAll body ++ ")"
  | ifElse _ cond thenPart elsePart =>
    "(if " ++ cond.render ++ " " ++ thenPart.render ++ renderElse elsePart ++ ")"
  | whileLoop _ cond body => "(while " ++ cond.render ++ " " ++ body.render ++ ")"
  | doWhile _ body cond => "(do " ++ body.render ++ " " ++ cond.render ++ ")"
  | switch _ subject cases fallback =>
    "(switch " ++ subject.render ++ renderCases cases ++ renderDefault fallback ++ ")"
  | assign _ var op value => "(" ++ op.spelling ++ " " ++ var.label ++ " " ++ value.render ++ ")"
  | access _ var => var.label
  | integer _ text => text
  | float _ text => text
  | unary _ op operand => "(" ++ op.name ++ " " ++ operand.render ++ ")"
  | binary _ op lhs rhs => "(" ++ op.spelling ++ " " ++ lhs.render ++ " " ++ rhs.render ++ ")"
  | step _ direction var timing => renderStep direction var timing
  | call _ func => "(call " ++ func.label ++ ")"
  | putChar _ value => "(putc " ++ value.render ++ ")"

def renderAll : List Node → String
  | [] => ""
  | node :: rest => " " ++ node.render ++ renderAll rest

def renderCases : List (Node × Node) → String
  | [] => ""
  | (value, body) :: rest =>
    " (case " ++ value.render ++ " " ++ body.render ++ ")" ++ renderCases rest

def renderElse : Option Node → String
  | none => ""
  | some node => " " ++ node.render

def renderDefault : Option Node → String
  | none => ""
  | some node => " (default " ++ node.render ++ ")"

end

mutual

/-- The nodes of a tree with the root first; the children of a switch are the subject, the value
and body of each case, and the default block. -/
def preorder : Node → List Node
  | n@(block _ body) => n :: preorderAll body
  | n@(ifElse _ cond thenPart elsePart) =>
    n :: (cond.preorder ++ thenPart.preorder ++ preorderOption elsePart)
  | n@(whileLoop _ cond body) => n :: (cond.preorder ++ body.preorder)
  | n@(doWhile _ body cond) => n :: (body.preorder ++ cond.preorder)
  | n@(switch _ subject cases fallback) =>
    n :: (subject.preorder ++ preorderCases cases ++ preorderOption fallback)
  | n@(assign _ _ _ value) => n :: value.preorder
  | n@(unary _ _ operand) => n :: operand.preorder
  | n@(binary _ _ lhs rhs) => n :: (lhs.preorder ++ rhs.preorder)
  | n@(putChar _ value) => n :: value.preorder
  | n => [n]

def preorderAll : List Node → List Node
  | [] => []
  | node :: rest => node.preorder ++ preorderAll rest

def preorderCases : List (Node × Node) → List Node
  | [] => []
  | (value, body) :: rest => value.preorder ++ body.preorder ++ preorderCases rest

def preorderOption : Option Node → List Node
  | none => []
  | some node => node.preorder

end

end Node

end IonLang
