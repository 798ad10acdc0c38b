import IonLang.Assembly.Snippet
import IonLang.Diagnostic

/-!
# Code of a syntax tree

Every expression leaves its value in `rax`. Intermediate values go onto the stack, and the labels
of a control structure carry the number of its node. Floating point literals have no code.
-/

namespace IonLang

/-! ### Labels of control structures -/

namespace CodeLabel

def ifElse (id : Nat) : String := "if_" ++ toString id ++ "_else"

def ifEnd (id : Nat) : String := "if_" ++ toString id ++ "_end"

def whileCondition (id : Nat) : String := "while_" ++ toString id ++ "_condition"

def whileEnd (id : Nat) : String := "while_" ++ toString id ++ "_end"

def doStart (id : Nat) : String := "dowhile_" ++ toString id ++ "_start"

def doCondition (id : Nat) : String := "dowhile_" ++ toString id ++ "_condition"

def doEnd (id : Nat) : String := "dowhile_" ++ toString id ++ "_end"

/-- The test of case `k`. -/
def switchCase (id k : Nat) : String := "switch_" ++ toString id ++ "_case_" ++ toString k

/-- The body of case `k`. -/
def switchCode (id k : Nat) : String := switchCase id k ++ "_code"

def switchDefault (id : Nat) : String := "switch_" ++ toString id ++ "_default"

def switchEnd (id : Nat) : String := "switch_" ++ toString id ++ "_end"

/-- The label behind case `k`: that of the next case, or of the default block if `isLast`. -/
def afterCase (label : Nat → Nat → String) (id k : Nat) (isLast : Bool) : String :=
  if isLast then switchDefault id else label id (k + 1)

end CodeLabel

namespace Node

mutual

def code : Node → Except Diagnostic (List Line)
  | block _ body => codeAll body
  | integer _ text => .ok [Snippet.mov Snippet.rax (.imm text)]
  | float _ text => .error (.unsupported ("floating point literal `" ++ text ++ "`"))
  | access _ var => .ok [Snippet.load var]
  | unary _ op operand => do
    let operand ← operand.code
    .ok (operand ++ Snippet.unary op)
  | binary _ op lhs rhs => do
    let lhs ← lhs.code
    let rhs ← rhs.code
    .ok (lhs ++ [.inst (.push .rax)] ++ rhs ++
      [Snippet.mov Snippet.rbx Snippet.rax, .inst (.pop .rax)] ++ Snippet.binary op)
  | assign _ var op value => do
    let value ← value.code
    .ok (value ++ Snippet.assign var op)
  | step _ direction var timing => .ok (Snippet.step direction var timing)
  | call _ func => .ok [.inst (.call func.label)]
  | putChar _ value => do
    let value ← value.code
    .ok (value ++ Snippet.putChar)
  | ifElse id cond thenPart elsePart => do
    let elsePart ← codeOption elsePart
    let cond ← cond.code
    let thenPart ← thenPart.code
    .ok (cond ++ [Snippet.testZero, .inst (.jcc .e (CodeLabel.ifElse id))] ++ thenPart ++
      [.inst (.jmp (CodeLabel.ifEnd id)), .plainLabel (CodeLabel.ifElse id)] ++ elsePart ++
      [.plainLabel (CodeLabel.ifEnd id)])
  | whileLoop id cond body => do
    let cond ← cond.code
    let body ← body.code
    .ok ([.plainLabel (CodeLabel.whileCondition id)] ++ cond ++
      [Snippet.testZero, .inst (.jcc .e (CodeLabel.whileEnd id))] ++ body ++
      [.inst (.jmp (CodeLabel.whileCondition id)), .plainLabel (CodeLabel.whileEnd id)])
  | doWhile id body cond => do
    let body ← body.code
    let cond ← cond.code
    .ok ([.plainLabel (CodeLabel.doStart id)] ++ body ++
      [.plainLabel (CodeLabel.doCondition id)] ++ cond ++
      [Snippet.testZero, .inst (.jcc .ne (CodeLabel.doStart id)),
        .plainLabel (CodeLabel.doEnd id)])
  | switch id subject cases fallback => do
    let subject ← subject.code
    let cases ← codeCases id subject 0 cases
    let fallback ← codeOption fallback
    .ok (cases ++ [.plainLabel (CodeLabel.switchDefault id)] ++ fallback ++
      [.plainLabel (CodeLabel.switchEnd id)])

def codeAll : List Node → Except Diagnostic (List Line)
  | [] => .ok []
  | node :: rest => do
    let first ← node.code
    let rest ← codeAll rest
    .ok (first ++ rest)

def codeOption : Option Node → Except Diagnostic (List Line)
  | none => .ok []
  | some node => node.code

/-- The code of the cases from number `k` on. Each test evaluates the subject again. A case that
matches runs its body and all bodies behind it, and then the default block. -/
def codeCases (id : Nat) (subject : List Line) (k : Nat) :
    List (Node × Node) → Except Diagnostic (List Line)
  | [] => .ok []
  | (value, body) :: rest => do
    let value ← value.code
    let body ← body.code
    let others ← codeCases id subject (k + 1) rest
    .ok ([.plainLabel (CodeLabel.switchCase id k)] ++ value ++ [.inst (.push .rax)] ++ subject ++
      [.inst (.pop .rbx), .inst (.cmp Snippet.rax Snippet.rbx),
        .inst (.jcc .ne (CodeLabel.afterCase CodeLabel.switchCase id k rest.isEmpty)),
        .plainLabel (CodeLabel.switchCode id k)] ++ body ++
      [.inst (.jmp (CodeLabel.afterCase CodeLabel.switchCode id k rest.isEmpty))] ++ others)

end

end Node

end IonLang
