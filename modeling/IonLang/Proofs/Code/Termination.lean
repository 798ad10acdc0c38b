import IonLang.Proofs.Code.Correctness
import IonLang.Proofs.Grammar.Scope

/-!
# Programs without loops

Without loops, an evaluation can only run out of fuel in its calls. A function calls itself and
functions in front of it, so where no function calls itself every call goes to a smaller number, and
fuel for as many calls as there are functions in front is enough (`evalCall_ends`). Compiled code
follows the evaluation, and exits.
-/

namespace IonLang

namespace Evaluation

def Outcome.Ends (outcome : Outcome) : Prop := ∀ state, outcome ≠ .pending state

theorem ends_finished (state : State) : (Outcome.finished state).Ends := fun _ => nofun

theorem Outcome.Ends.andThen {outcome : Outcome} {next : State → Outcome} (first : outcome.Ends)
    (second : ∀ state, (next state).Ends) : (outcome.andThen next).Ends := by
  cases outcome with
  | finished state => exact second state
  | stuck text state => exact fun _ => nofun
  | pending state => exact absurd rfl (first state)

theorem ends_literal (text : String) (state : State) : (literal text state).Ends := by
  unfold literal
  split
  · exact ends_finished _
  · exact fun _ => nofun

end Evaluation

namespace Node

open Evaluation

def isLoop : Node → Bool
  | whileLoop .. | doWhile .. => true
  | _ => false

theorem mem_preorderOption {node : Option Node} {body n : Node} (isBody : body ∈ node)
    (inside : n ∈ body.preorder) : n ∈ preorderOption node := by
  cases isBody
  exact inside

variable {call : FuncId → State → Outcome} {rounds : Nat}

/-- A node that is no loop and whose call, if it is one, ends. -/
def Passes (call : FuncId → State → Outcome) (node : Node) : Prop :=
  node.isLoop = false ∧ ∀ func, node.callee? = some func → ∀ state, (call func state).Ends

theorem evalAll_ends {body : List Node}
    (parts : ∀ n ∈ body, ∀ state, (n.eval call rounds state).Ends) (state : State) :
    (evalAll call rounds body state).Ends := by
  induction body generalizing state with
  | nil => exact ends_finished state
  | cons node rest ih =>
    rw [evalAll]
    exact (parts node List.mem_cons_self state).andThen
      (ih fun n member => parts n (List.mem_cons_of_mem _ member))

theorem evalOption_ends {node : Option Node}
    (part : ∀ n ∈ node, ∀ state, (n.eval call rounds state).Ends) (state : State) :
    (evalOption call rounds node state).Ends := by
  cases node with
  | none => exact ends_finished state
  | some node => exact part node rfl state

section Switch

variable {subject fallback : State → Outcome} {cases : List (Node × Node)}

theorem evalBodies_ends (bodies : ∀ entry ∈ cases, ∀ state, (entry.2.eval call rounds state).Ends)
    (otherwise : ∀ state, (fallback state).Ends) (state : State) :
    (evalBodies call rounds fallback cases state).Ends := by
  induction cases generalizing state with
  | nil => exact otherwise state
  | cons entry rest ih =>
    rw [evalBodies]
    exact (bodies entry List.mem_cons_self state).andThen
      (ih fun other member => bodies other (List.mem_cons_of_mem _ member))

theorem evalCases_ends (tested : ∀ state, (subject state).Ends)
    (parts : ∀ entry ∈ cases, (∀ state, (entry.1.eval call rounds state).Ends) ∧
      ∀ state, (entry.2.eval call rounds state).Ends)
    (otherwise : ∀ state, (fallback state).Ends) (state : State) :
    (evalCases call rounds subject fallback cases state).Ends := by
  induction cases generalizing state with
  | nil => exact otherwise state
  | cons entry rest ih =>
    obtain ⟨value, body⟩ := entry
    have others := fun entry member => parts entry (List.mem_cons_of_mem _ member)
    obtain ⟨valueEnds, bodyEnds⟩ := parts _ List.mem_cons_self
    rw [evalCases]
    refine (valueEnds state).andThen fun reached => (tested reached).andThen fun state => ?_
    by_cases same : reached.acc = state.acc
    · rw [if_pos same]
      exact (bodyEnds state).andThen
        (evalBodies_ends (fun entry member => (others entry member).2) otherwise)
    · rw [if_neg same]
      exact ih others state

end Switch

/-- A tree without loops runs out of fuel only where a call does. -/
theorem eval_ends (node : Node) (passes : ∀ n ∈ node.preorder, n.Passes call) (state : State) :
    (node.eval call rounds state).Ends := by
  induction node using inductionOn generalizing state with
  | block id body inner =>
    rw [eval]
    exact evalAll_ends (fun n member => inner n member (forall_child passes member)) state
  | ifElse id cond thenPart elsePart condEnds thenEnds elseEnds =>
    have tested := condEnds (forall_child passes (by simp [children]))
    have chosen := thenEnds (forall_child passes (by simp [children]))
    rw [eval]
    refine (tested state).andThen fun state => ?_
    by_cases zero : state.acc = 0
    · rw [if_pos zero]
      exact evalOption_ends (fun n member => elseEnds n member
        (forall_child passes (by simp [children, Option.mem_def.mp member]))) state
    · rw [if_neg zero]
      exact chosen state
  | whileLoop id cond body => exact absurd (passes _ (mem_preorder_self _)).1 (by simp [isLoop])
  | doWhile id body cond => exact absurd (passes _ (mem_preorder_self _)).1 (by simp [isLoop])
  | switch id subject cases fallback subjectEnds caseEnds fallbackEnds =>
    rw [eval]
    refine evalCases_ends (subjectEnds (forall_child passes (by simp [children])))
      (fun entry member => ?_) (evalOption_ends fun n member => fallbackEnds n member
        (forall_child passes (by simp [children, Option.mem_def.mp member]))) state
    exact ⟨(caseEnds entry member).1 (forall_child passes (fst_mem_children member)),
      (caseEnds entry member).2 (forall_child passes (snd_mem_children member))⟩
  | assign id var op value valueEnds =>
    rw [eval]
    exact (valueEnds (forall_child passes (by simp [children])) state).andThen fun _ =>
      ends_finished _
  | access id var => exact ends_finished _
  | integer id text => exact ends_literal text state
  | float id text => exact ends_finished _
  | unary id op operand operandEnds =>
    rw [eval]
    exact (operandEnds (forall_child passes (by simp [children])) state).andThen fun _ =>
      ends_finished _
  | binary id op lhs rhs lhsEnds rhsEnds =>
    rw [eval]
    exact (lhsEnds (forall_child passes (by simp [children])) state).andThen fun left =>
      (rhsEnds (forall_child passes (by simp [children])) left).andThen fun _ => ends_finished _
  | step id direction var timing => exact ends_finished _
  | call id func => exact (passes _ (mem_preorder_self _)).2 func rfl state
  | putChar id value valueEnds =>
    rw [eval]
    exact (valueEnds (forall_child passes (by simp [children])) state).andThen fun _ =>
      ends_finished _

end Node

namespace Program

open Machine Evaluation

/-- No body has a loop, and no body calls its own function. -/
def LoopFree (program : Program) : Prop :=
  ∀ func ∈ program.functions, ∀ n ∈ Node.preorderOption func.body,
    n.isLoop = false ∧ n.callee? ≠ some func.id

instance (program : Program) : Decidable program.LoopFree :=
  inferInstanceAs (Decidable (∀ func ∈ program.functions, ∀ n ∈ Node.preorderOption func.body,
    n.isLoop = false ∧ n.callee? ≠ some func.id))

theorem callsBack_ofTokens {tokens : List Token} {program : Program} {errors : List Diagnostic}
    (parsed : ofTokens tokens = (some program, errors)) : program.symbols.CallsBack := by
  obtain ⟨s, read, _, rfl⟩ := definitions_of_ofTokens parsed
  exact Grammar.callsBack_invariant.definitions ⟨⟨rfl, rfl⟩, fun _ member => by cases member⟩ read

variable {program : Program}

/-- A call that is made in a program without loops goes to a function in front. -/
theorem LoopFree.index_lt (loopFree : program.LoopFree) (back : program.symbols.CallsBack)
    {func : Function} (member : func ∈ program.functions) {body : Node} (isBody : body ∈ func.body)
    {n : Node} (inside : n ∈ body.preorder) {callee : FuncId} (called : n.callee? = some callee) :
    callee.index < func.id.index := by
  have different : callee ≠ func.id := by
    rintro rfl
    exact (loopFree func member n (Node.mem_preorderOption isBody inside)).2 called
  have before : callee.index ≤ func.id.index := by
    cases n with
    | call id target =>
      cases called
      exact back.backward func member body isBody id callee inside
    | _ => cases called
  have apart : callee.index ≠ func.id.index := fun same =>
    different (congrArg FuncId.mk same)
  omega

/-- Fuel for more calls than there are functions in front of a function is enough for it. -/
theorem evalCall_ends (loopFree : program.LoopFree) (back : program.symbols.CallsBack) (fuel : Nat)
    (func : FuncId) (enough : func.index < fuel) (state : State) :
    (program.evalCall fuel func state).Ends := by
  induction fuel generalizing func state with
  | zero => omega
  | succ fuel ih =>
    unfold evalCall
    split
    · next known found =>
      have member : known ∈ program.functions := List.mem_of_getElem? found
      have number : known.id.index = func.index := Symbols.number_eq back.numbered.functions found
      refine Node.evalOption_ends (fun body isBody => Node.eval_ends body fun n inside => ?_) state
      have plain := (loopFree known member n (Node.mem_preorderOption isBody inside)).1
      refine ⟨plain, fun callee called => ih callee ?_⟩
      have := loopFree.index_lt back member isBody inside called
      omega
    · exact ends_finished state

/-- Compiled code without loops exits with status 0 after some number of instructions. -/
theorem run_compiled_exits (file source : String) (code : Assembly) (program : Program)
    (compiled : compile file source = .ok code)
    (parsed : (ofSource file source).1 = some program)
    (small : ∀ text ∈ Token.integers (Token.scan file source).tokens,
      Text.decimalFrom 0 text.toList < UInt64.size)
    (loopFree : program.LoopFree) :
    ∃ n, ∀ limit, n ≤ limit → ∃ m, run code limit = .ok m ∧ m.exit = some 0 := by
  obtain ⟨found, main, m, read, _, loaded, follows⟩ := run_compiled_follows compiled
  have same : found = program := by
    rw [read] at parsed
    exact Option.some.inj parsed
  subst same
  have back : found.symbols.CallsBack := callsBack_ofTokens (Prod.ext parsed rfl)
  have ends := evalCall_ends loopFree back (main.id.index + 1) main.id (Nat.lt_succ_self _) {}
  have outcome := follows (main.id.index + 1)
  cases evaluated : found.evalCall (main.id.index + 1) main.id {} with
  | finished state =>
    rw [evaluated] at outcome
    obtain ⟨n, m', reaches, exited, _⟩ := outcome
    exact ⟨n, fun limit enough => ⟨m', run_exited loaded reaches exited enough, exited⟩⟩
  | stuck text state =>
    rw [evaluated] at outcome
    obtain ⟨⟨integer, large⟩, _⟩ := outcome
    exact absurd (small text integer) (Nat.not_lt.mpr large)
  | pending state => exact absurd evaluated (ends state)

/-- A switch whose subject is a call, which is made for both cases. -/
theorem run_compiled_exits_switch :
    let source := "void f() 2; void main() switch (f()) " ++ Text.braced "case 3: case 2: putc(65);"
    ∃ code program, compile "f" source = .ok code ∧ (ofSource "f" source).1 = some program ∧
      (∀ text ∈ Token.integers (Token.scan "f" source).tokens,
        Text.decimalFrom 0 text.toList < UInt64.size) ∧ program.LoopFree ∧
      ∃ n, ∀ limit, n ≤ limit → ∃ m, run code limit = .ok m ∧ m.exit = some 0 := by
  intro source
  have facts : (compile "f" source).isOk = true ∧
      ((ofSource "f" source).1.map fun program => decide program.LoopFree) = some true ∧
      Token.integers (Token.scan "f" source).tokens = ["2", "3", "2", "65"] := by decide +kernel
  obtain ⟨isOk, free, integers⟩ := facts
  have small : ∀ text ∈ Token.integers (Token.scan "f" source).tokens,
      Text.decimalFrom 0 text.toList < UInt64.size := by
    rw [integers]
    decide
  obtain ⟨code, compiled⟩ := exists_code isOk
  obtain ⟨program, parsed, loopFree⟩ := Option.map_eq_some_iff.mp free
  exact ⟨code, program, compiled, parsed, small, of_decide_eq_true loopFree,
    run_compiled_exits "f" source code program compiled parsed small (of_decide_eq_true loopFree)⟩

end Program

end IonLang
