import IonLang.Program
import IonLang.Text.Decimal

/-!
# Evaluation of syntax trees

The meaning of a program, given directly on its trees. A state holds the variables, the value that
was computed last and the bytes that were printed. Evaluation has fuel for nested calls and for the
rounds of loops, and an evaluation that runs out of it is pending, with the state in which it stands.
A literal that is no machine word gets an evaluation stuck.
-/

namespace IonLang

namespace Evaluation

structure State where
  store : VarId → UInt64 := fun _ => 0
  /-- The value that was computed last. -/
  acc : UInt64 := 0
  output : Array UInt8 := #[]

inductive Outcome where
  | finished (state : State)
  /-- The literal with the given text is no word. -/
  | stuck (text : String) (state : State)
  | pending (state : State)

def Outcome.andThen : Outcome → (State → Outcome) → Outcome
  | finished state, next => next state
  | stuck text state, _ => stuck text state
  | pending state, _ => pending state

def State.assign (state : State) (var : VarId) (value : UInt64) : State :=
  { state with
    store := fun other => if other = var then value else state.store other
    acc := value }

def literal (text : String) (state : State) : Outcome :=
  match Text.wordOf? text with
  | some word => .finished { state with acc := word }
  | none => .stuck text state

/-- Repeats a body as long as a test before it leaves a value other than zero. -/
def repeatWhile (test body : State → Outcome) : Nat → State → Outcome
  | 0, state => .pending state
  | rounds + 1, state =>
    (test state).andThen fun state =>
      if state.acc = 0 then .finished state
      else (body state).andThen (repeatWhile test body rounds)

/-- Repeats a body until a test behind it leaves zero. -/
def repeatUntil (body test : State → Outcome) : Nat → State → Outcome
  | 0, state => .pending state
  | rounds + 1, state =>
    (body state).andThen fun state =>
      (test state).andThen fun state =>
        if state.acc = 0 then .finished state else repeatUntil body test rounds state

end Evaluation

def flagWord (holds : Bool) : UInt64 := if holds then 1 else 0

def UnaryOp.apply : UnaryOp → UInt64 → UInt64
  | neg, a => 0 - a
  | not, a => flagWord (a == 0)

/-- Arithmetic is modulo 2^64, and comparisons are unsigned. -/
def BinaryOp.apply : BinaryOp → UInt64 → UInt64 → UInt64
  | add, a, b => a + b
  | sub, a, b => a - b
  | mul, a, b => a * b
  | eq, a, b => flagWord (a == b)
  | ne, a, b => flagWord (a != b)
  | lt, a, b => flagWord (a < b)
  | gt, a, b => flagWord (a > b)
  | le, a, b => flagWord (a ≤ b)
  | ge, a, b => flagWord (a ≥ b)

def AssignOp.apply : AssignOp → UInt64 → UInt64 → UInt64
  | set, _, value => value
  | add, old, value => old + value
  | sub, old, value => old - value
  | mul, old, value => old * value

def Direction.apply : Direction → UInt64 → UInt64
  | up, a => a + 1
  | down, a => a - 1

/-- Counts a variable, and leaves its new value if it is counted first and its old value if not. -/
def Evaluation.State.count (state : State) (direction : Direction) (var : VarId) : Timing → State
  | .before => state.assign var (direction.apply (state.store var))
  | .after =>
    { state.assign var (direction.apply (state.store var)) with acc := state.store var }

namespace Node

open Evaluation

mutual

/-- Evaluates a tree; calls are left to `call`, and a loop may take `rounds` rounds. -/
def eval (call : FuncId → State → Outcome) (rounds : Nat) : Node → State → Outcome
  | block _ body, state => evalAll call rounds body state
  | ifElse _ cond thenPart elsePart, state =>
    (cond.eval call rounds state).andThen fun state =>
      if state.acc = 0 then evalOption call rounds elsePart state
      else thenPart.eval call rounds state
  | whileLoop _ cond body, state =>
    repeatWhile (cond.eval call rounds) (body.eval call rounds) rounds state
  | doWhile _ body cond, state =>
    repeatUntil (body.eval call rounds) (cond.eval call rounds) rounds state
  | switch _ subject cases fallback, state =>
    evalCases call rounds (subject.eval call rounds) (evalOption call rounds fallback) cases state
  | assign _ var op value, state =>
    (value.eval call rounds state).andThen fun state =>
      .finished (state.assign var (op.apply (state.store var) state.acc))
  | access _ var, state => .finished { state with acc := state.store var }
  | integer _ text, state => literal text state
  -- No program with a floating point literal has code.
  | float _ _, state => .finished state
  | unary _ op operand, state =>
    (operand.eval call rounds state).andThen fun state =>
      .finished { state with acc := op.apply state.acc }
  | binary _ op lhs rhs, state =>
    (lhs.eval call rounds state).andThen fun left =>
      (rhs.eval call rounds left).andThen fun right =>
        .finished { right with acc := op.apply left.acc right.acc }
  | step _ direction var timing, state => .finished (state.count direction var timing)
  | .call _ func, state => call func state
  | putChar _ value, state =>
    (value.eval call rounds state).andThen fun state =>
      .finished { state with output := state.output.push state.acc.toUInt8, acc := 1 }

def evalAll (call : FuncId → State → Outcome) (rounds : Nat) : List Node → State → Outcome
  | [], state => .finished state
  | node :: rest, state => (node.eval call rounds state).andThen (evalAll call rounds rest)

def evalOption (call : FuncId → State → Outcome) (rounds : Nat) : Option Node → State → Outcome
  | none, state => .finished state
  | some node, state => node.eval call rounds state

/-- Looks for the first case whose value is that of the subject, which is evaluated anew for every
case. From that case on all bodies run, and the default block comes last in any event. -/
def evalCases (call : FuncId → State → Outcome) (rounds : Nat) (subject fallback : State → Outcome) :
    List (Node × Node) → State → Outcome
  | [], state => fallback state
  | (value, body) :: rest, state =>
    (value.eval call rounds state).andThen fun tested =>
      (subject tested).andThen fun state =>
        if tested.acc = state.acc then
          (body.eval call rounds state).andThen (evalBodies call rounds fallback rest)
        else evalCases call rounds subject fallback rest state

def evalBodies (call : FuncId → State → Outcome) (rounds : Nat) (fallback : State → Outcome) :
    List (Node × Node) → State → Outcome
  | [], state => fallback state
  | (_, body) :: rest, state =>
    (body.eval call rounds state).andThen (evalBodies call rounds fallback rest)

end

end Node

namespace Program

open Evaluation

/-- Evaluates the body of a function with fuel for nested calls and for rounds of loops. -/
def evalCall (program : Program) : Nat → FuncId → State → Outcome
  | 0, _, state => .pending state
  | fuel + 1, func, state =>
    match program.functions[func.index]? with
    | some known => Node.evalOption (program.evalCall fuel) fuel known.body state
    | none => .finished state

end Program

end IonLang
