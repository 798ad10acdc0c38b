import IonLang.Program.Assemble
import IonLang.Proofs.SyntaxTree

/-!
# The lines of a tree

`Node.lines` is the code of a tree as a function that cannot fail, so that proofs can follow its
equations. `Node.codeIsLines` says that it is what `Node.code` returns.
-/

namespace IonLang.Node

mutual

/-- The code of a tree, with nothing for a floating point literal. -/
def lines : Node → List Line
  | block _ body => linesAll body
  | integer _ text => [Snippet.mov Snippet.rax (.imm text)]
  | float _ _ => []
  | access _ var => [Snippet.load var]
  | unary _ op operand => operand.lines ++ Snippet.unary op
  | binary _ op lhs rhs =>
    lhs.lines ++ [.inst (.push .rax)] ++ rhs.lines ++
      [Snippet.mov Snippet.rbx Snippet.rax, .inst (.pop .rax)] ++ Snippet.binary op
  | assign _ var op value => value.lines ++ Snippet.assign var op
  | step _ direction var timing => Snippet.step direction var timing
  | call _ func => [.inst (.call func.label)]
  | putChar _ value => value.lines ++ Snippet.putChar
  | ifElse id cond thenPart elsePart =>
    cond.lines ++ [Snippet.testZero, .inst (.jcc .e (CodeLabel.ifElse id))] ++ thenPart.lines ++
      [.inst (.jmp (CodeLabel.ifEnd id)), .plainLabel (CodeLabel.ifElse id)] ++
      linesOption elsePart ++ [.plainLabel (CodeLabel.ifEnd id)]
  | whileLoop id cond body =>
    [.plainLabel (CodeLabel.whileCondition id)] ++ cond.lines ++
      [Snippet.testZero, .inst (.jcc .e (CodeLabel.whileEnd id))] ++ body.lines ++
      [.inst (.jmp (CodeLabel.whileCondition id)), .plainLabel (CodeLabel.whileEnd id)]
  | doWhile id body cond =>
    [.plainLabel (CodeLabel.doStart id)] ++ body.lines ++
      [.plainLabel (CodeLabel.doCondition id)] ++ cond.lines ++
      [Snippet.testZero, .inst (.jcc .ne (CodeLabel.doStart id)), .plainLabel (CodeLabel.doEnd id)]
  | switch id subject cases fallback =>
    linesCases id subject.lines 0 cases ++ [.plainLabel (CodeLabel.switchDefault id)] ++
      linesOption fallback ++ [.plainLabel (CodeLabel.switchEnd id)]

def linesAll : List Node → List Line
  | [] => []
  | node :: rest => node.lines ++ linesAll rest

def linesOption : Option Node → List Line
  | none => []
  | some node => node.lines

def linesCases (id : Nat) (subject : List Line) (k : Nat) : List (Node × Node) → List Line
  | [] => []
  | (value, body) :: rest =>
    [.plainLabel (CodeLabel.switchCase id k)] ++ value.lines ++ [.inst (.push .rax)] ++ subject ++
      [.inst (.pop .rbx), .inst (.cmp Snippet.rax Snippet.rbx),
        .inst (.jcc .ne (CodeLabel.afterCase CodeLabel.switchCase id k rest.isEmpty)),
        .plainLabel (CodeLabel.switchCode id k)] ++ body.lines ++
      [.inst (.jmp (CodeLabel.afterCase CodeLabel.switchCode id k rest.isEmpty))] ++
      linesCases id subject (k + 1) rest

end

/-! ### Agreement with the code -/

/-- Takes the first of two computations that succeed one after the other apart. -/
theorem bind_ok {ε α β : Type} {x : Except ε α} {f : α → Except ε β} {result : β}
    (h : (x >>= f) = .ok result) : ∃ value, x = .ok value ∧ f value = .ok result := by
  cases x with
  | error e => cases h
  | ok value => exact ⟨value, rfl, h⟩

def CodeIsLines (node : Node) : Prop := ∀ code, node.code = .ok code → code = node.lines

theorem linesAll_of_code {body : List Node} (inner : ∀ n ∈ body, n.CodeIsLines) :
    ∀ code, codeAll body = .ok code → code = linesAll body := by
  induction body with
  | nil =>
    intro code h
    rw [codeAll] at h
    cases h
    rfl
  | cons node rest ih =>
    intro code h
    rw [codeAll] at h
    obtain ⟨first, firstCode, h⟩ := bind_ok h
    obtain ⟨others, restCode, h⟩ := bind_ok h
    cases h
    rw [linesAll, inner node List.mem_cons_self first firstCode,
      ih (fun n member => inner n (List.mem_cons_of_mem _ member)) others restCode]

theorem linesOption_of_code {node : Option Node} (inner : ∀ n ∈ node, n.CodeIsLines) :
    ∀ code, codeOption node = .ok code → code = linesOption node := by
  cases node with
  | none =>
    intro code h
    cases h
    rfl
  | some node => exact inner node rfl

theorem linesCases_of_code {id : Nat} {subject : List Line} {cases : List (Node × Node)}
    (inner : ∀ entry ∈ cases, entry.1.CodeIsLines ∧ entry.2.CodeIsLines) :
    ∀ k code, codeCases id subject k cases = .ok code → code = linesCases id subject k cases := by
  induction cases with
  | nil =>
    intro k code h
    rw [codeCases] at h
    cases h
    rw [linesCases]
  | cons entry rest ih =>
    intro k code h
    obtain ⟨value, body⟩ := entry
    rw [codeCases] at h
    obtain ⟨valueLines, valueCode, h⟩ := bind_ok h
    obtain ⟨bodyLines, bodyCode, h⟩ := bind_ok h
    obtain ⟨others, restCode, h⟩ := bind_ok h
    cases h
    obtain ⟨valueIs, bodyIs⟩ := inner _ List.mem_cons_self
    rw [linesCases, valueIs _ valueCode, bodyIs _ bodyCode,
      ih (fun entry member => inner entry (List.mem_cons_of_mem _ member)) _ _ restCode]

theorem codeIsLines (node : Node) : node.CodeIsLines := by
  induction node using inductionOn with
  | block id body inner =>
    intro code h
    rw [Node.code] at h
    rw [lines, linesAll_of_code inner code h]
  | ifElse id cond thenPart elsePart condIs thenIs elseIs =>
    intro code h
    rw [Node.code] at h
    obtain ⟨elseLines, elseCode, h⟩ := bind_ok h
    obtain ⟨condLines, condCode, h⟩ := bind_ok h
    obtain ⟨thenLines, thenCode, h⟩ := bind_ok h
    cases h
    rw [lines, condIs _ condCode, thenIs _ thenCode, linesOption_of_code elseIs _ elseCode]
  | whileLoop id cond body condIs bodyIs =>
    intro code h
    rw [Node.code] at h
    obtain ⟨condLines, condCode, h⟩ := bind_ok h
    obtain ⟨bodyLines, bodyCode, h⟩ := bind_ok h
    cases h
    rw [lines, condIs _ condCode, bodyIs _ bodyCode]
  | doWhile id body cond bodyIs condIs =>
    intro code h
    rw [Node.code] at h
    obtain ⟨bodyLines, bodyCode, h⟩ := bind_ok h
    obtain ⟨condLines, condCode, h⟩ := bind_ok h
    cases h
    rw [lines, condIs _ condCode, bodyIs _ bodyCode]
  | switch id subject cases fallback subjectIs casesAre fallbackIs =>
    intro code h
    rw [Node.code] at h
    obtain ⟨subjectLines, subjectCode, h⟩ := bind_ok h
    obtain ⟨caseLines, casesCode, h⟩ := bind_ok h
    obtain ⟨fallbackLines, fallbackCode, h⟩ := bind_ok h
    cases h
    rw [lines, linesCases_of_code casesAre _ _ casesCode, subjectIs _ subjectCode,
      linesOption_of_code fallbackIs _ fallbackCode]
  | float id text =>
    intro code h
    rw [Node.code] at h
    cases h
  | access | integer | step | call =>
    intro code h
    rw [Node.code] at h
    cases h
    rw [lines]
  | assign id _ _ part partIs | unary id _ part partIs | putChar id part partIs =>
    intro code h
    rw [Node.code] at h
    obtain ⟨partLines, partCode, h⟩ := bind_ok h
    cases h
    rw [lines, partIs _ partCode]
  | binary id op lhs rhs lhsIs rhsIs =>
    intro code h
    rw [Node.code] at h
    obtain ⟨lhsLines, lhsCode, h⟩ := bind_ok h
    obtain ⟨rhsLines, rhsCode, h⟩ := bind_ok h
    cases h
    rw [lines, lhsIs _ lhsCode, rhsIs _ rhsCode]

end IonLang.Node

namespace IonLang.Program

def functionLines (func : Function) : List Line :=
  [.label func.id.label (some func.name)] ++ Node.linesOption func.body ++ [.inst .ret]

theorem functionLines_of_code {func : Function} {code : List Line}
    (h : functionCode func = .ok code) : code = functionLines func := by
  obtain ⟨body, bodyCode, h⟩ := Node.bind_ok h
  cases h
  rw [functionLines, Node.linesOption_of_code (fun n _ => n.codeIsLines) _ bodyCode]

theorem functionsLines_of_code {functions : List Function} {code : List Line}
    (h : functionsCode functions = .ok code) : code = functions.flatMap functionLines := by
  induction functions generalizing code with
  | nil => cases h; rfl
  | cons func rest ih =>
    obtain ⟨first, firstCode, h⟩ := Node.bind_ok h
    obtain ⟨others, restCode, h⟩ := Node.bind_ok h
    cases h
    rw [List.flatMap_cons, functionLines_of_code firstCode, ih restCode]

/-- What a program that can be assembled is assembled to. -/
theorem assemble_eq_ok {program : Program} {code : Assembly} (h : program.assemble = .ok code) :
    ∃ entry, program.findFunction? entryName = some entry ∧
      code.lines = [.directive "BITS 64", .directive "segment .bss"] ++ program.storage ++
        [.directive "segment .text"] ++ program.functions.flatMap functionLines ++
        startCode entry.id := by
  unfold assemble at h
  split at h
  · cases h
  · next entry found =>
    obtain ⟨functions, functionsCode, h⟩ := Node.bind_ok h
    cases h
    exact ⟨entry, found, by rw [functionsLines_of_code functionsCode]⟩

end IonLang.Program
