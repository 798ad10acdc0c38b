import IonLang.Proofs.Code.Lines
import IonLang.Proofs.Code.Snippet
import IonLang.Proofs.Grammar.WellFormed

/-!
# Code follows the evaluation of its tree

`Simulates` ties a run of the machine to the outcome of an evaluation: where the evaluation finishes,
the machine arrives behind the code in a state that agrees; where a literal gets the evaluation
stuck, the machine faults at that literal; and where the evaluation is pending, the machine has run
for at least as many steps as there was fuel. `evalCall_simulates` shows it for every function of a
program that has been loaded.
-/

namespace IonLang

open Machine Evaluation

/-- The machine follows an evaluation to its outcome. A literal that gets stuck is `bad`. -/
def Simulates (bad : String → Prop) (image : Machine) (bound pc : Nat) (stack : List Nat)
    (m : Machine) : Outcome → Prop
  | .finished state => ∃ n m', Reaches n m m' ∧ At image state pc stack m'
  | .stuck text _ => bad text ∧ ∃ n m' m'', Reaches n m m' ∧ m'.exit = none ∧
    Machine.step m' = .error (.badImmediate text) m''
  | .pending state => ∃ n m' pc' stack', bound ≤ n ∧ Reaches n m m' ∧ At image state pc' stack' m'

variable {bad : String → Prop} {image m m₁ : Machine} {bound pc : Nat} {stack : List Nat}
  {outcome : Outcome} {state : State}

theorem andThen_finished (outcome : Outcome) : outcome.andThen .finished = outcome := by
  cases outcome <;> rfl

namespace Simulates

theorem finish {n : Nat} (reaches : Reaches n m m₁) (there : At image state pc stack m₁) :
    Simulates bad image bound pc stack m (.finished state) :=
  ⟨n, m₁, reaches, there⟩

theorem after {n : Nat} (reaches : Reaches n m m₁)
    (rest : Simulates bad image bound pc stack m₁ outcome) :
    Simulates bad image (n + bound) pc stack m outcome := by
  cases outcome with
  | finished state =>
    obtain ⟨k, m', more, there⟩ := rest
    exact ⟨n + k, m', reaches.trans more, there⟩
  | stuck text state =>
    obtain ⟨isBad, k, m', m'', more, running, failed⟩ := rest
    exact ⟨isBad, n + k, m', m'', reaches.trans more, running, failed⟩
  | pending state =>
    obtain ⟨k, m', pc', stack', enough, more, there⟩ := rest
    exact ⟨n + k, m', pc', stack', by omega, reaches.trans more, there⟩

theorem weaken (simulates : Simulates bad image bound pc stack m outcome) {less : Nat}
    (smaller : less ≤ bound) : Simulates bad image less pc stack m outcome := by
  cases outcome with
  | finished state => exact simulates
  | stuck text state => exact simulates
  | pending state =>
    obtain ⟨n, m', pc', stack', enough, reaches, there⟩ := simulates
    exact ⟨n, m', pc', stack', by omega, reaches, there⟩

theorem andThen {next : State → Outcome} {pc' : Nat} {stack' : List Nat}
    (first : Simulates bad image bound pc stack m outcome)
    (second : ∀ state m', At image state pc stack m' →
      Simulates bad image bound pc' stack' m' (next state)) :
    Simulates bad image bound pc' stack' m (outcome.andThen next) := by
  cases outcome with
  | finished state =>
    obtain ⟨n, m', reaches, there⟩ := first
    exact (after reaches (second state m' there)).weaken (by omega)
  | stuck text state => exact first
  | pending state => exact first

end Simulates

/-- Wherever the lines are placed, running them follows the meaning. -/
def Implements (bad : String → Prop) (image : Machine) (bound : Nat) (lines : List Line)
    (meaning : State → Outcome) : Prop :=
  ∀ pc stack state m, image.Placed pc lines → At image state pc stack m →
    Simulates bad image bound (pc + codeSize lines) stack m (meaning state)

namespace Implements

theorem nil : Implements bad image bound [] .finished :=
  fun _ _ _ m _ here => .finish (.refl m) here

theorem append {front back : List Line} {meaning next : State → Outcome}
    (first : Implements bad image bound front meaning)
    (second : Implements bad image bound back next) :
    Implements bad image bound (front ++ back) fun state => (meaning state).andThen next := by
  intro pc stack state m placed here
  obtain ⟨placedFront, placedBack⟩ := placed_append.mp placed
  refine (first pc stack state m placedFront here).andThen fun state' m' there => ?_
  have simulates := second _ stack state' m' placedBack there
  rwa [codeSize_append, ← Nat.add_assoc]

/-- A snippet that cannot fail. -/
theorem snippet {lines : List Line} {change : State → State}
    (run : ∀ {pc stack state m}, image.Placed pc lines → At image state pc stack m →
      ∃ n m', Reaches n m m' ∧ At image (change state) (pc + codeSize lines) stack m') :
    Implements bad image bound lines fun state => .finished (change state) := by
  intro pc stack state m placed here
  obtain ⟨n, m', reaches, there⟩ := run placed here
  exact .finish reaches there

theorem literal {text : String} (isBad : Text.wordOf? text = none → bad text) :
    Implements bad image bound [Snippet.mov Snippet.rax (.imm text)] (Evaluation.literal text) := by
  intro pc stack state m placed here
  unfold Evaluation.literal
  split
  · next word denotes =>
    obtain ⟨m', reaches, there⟩ := here.literal placed denotes
    exact .finish reaches there
  · next fails =>
    have fault : execute m.pc (.mov Snippet.rax (.imm text)) m.advance =
        .error (.badImmediate text) m.advance := execute_mov_error (read_imm_error fails)
    have fetched : m.code[m.pc]? = some (.mov Snippet.rax (.imm text)) := by
      rw [here.code, here.pc]
      exact placed.1
    exact ⟨isBad fails, 0, m, _, .refl m, here.exit, step_of_execute_error fetched fault⟩

end Implements

/-! ### Branches and loops -/

section Control

variable {cond body other : List Line} {test run alternative : State → Outcome}

theorem implements_branch {elseLabel endLabel : String}
    (testCode : Implements bad image bound cond test) (thenCode : Implements bad image bound body run)
    (elseCode : Implements bad image bound other alternative) :
    Implements bad image bound
      (cond ++ [Snippet.testZero, .inst (.jcc .e elseLabel)] ++ body ++
        [.inst (.jmp endLabel), .plainLabel elseLabel] ++ other ++ [.plainLabel endLabel])
      fun state => (test state).andThen fun state =>
        if state.acc = 0 then alternative state else run state := by
  intro pc stack state m placed here
  simp only [placed_append, placed_plainLabel, placed_inst, codeSize_append, codeSize_inst,
    codeSize_plainLabel, codeSize_testZero, codeSize_nil, Nat.zero_add, ← Nat.add_assoc] at placed ⊢
  obtain ⟨⟨⟨⟨⟨condHere, testHere⟩, thenHere⟩, jumpHere, elseAt, _⟩, elseHere⟩, endAt, _⟩ := placed
  refine (testCode pc stack state m condHere here).andThen fun tested m₁ there => ?_
  obtain ⟨m₂, branched, there⟩ := there.jumpIfZero testHere elseAt
  refine (Simulates.after branched ?_).weaken (Nat.le_add_left _ 2)
  by_cases zero : tested.acc = 0
  · rw [if_pos zero] at there ⊢
    exact elseCode _ stack tested m₂ elseHere there
  · rw [if_neg zero] at there ⊢
    rw [← andThen_finished (run tested)]
    refine (thenCode _ stack tested m₂ thenHere there).andThen fun after m₃ there => ?_
    obtain ⟨m₄, skipped, there⟩ := there.jump jumpHere endAt
    exact .finish skipped there

/-- Code for a loop that tests in front of each round. -/
theorem implements_repeatWhile {startLabel endLabel : String}
    (testCode : Implements bad image bound cond test)
    (bodyCode : Implements bad image bound body run) :
    Implements bad image bound
      ([.plainLabel startLabel] ++ cond ++ [Snippet.testZero, .inst (.jcc .e endLabel)] ++ body ++
        [.inst (.jmp startLabel), .plainLabel endLabel])
      (repeatWhile test run bound) := by
  intro pc stack state m placed here
  simp only [placed_append, placed_plainLabel, placed_inst, codeSize_append, codeSize_inst,
    codeSize_plainLabel, codeSize_testZero, codeSize_nil, Nat.zero_add, Nat.add_zero,
    ← Nat.add_assoc] at placed ⊢
  obtain ⟨⟨⟨⟨⟨startAt, _⟩, condHere⟩, testHere⟩, bodyHere⟩, jumpHere, endAt, _⟩ := placed
  -- A round takes at least the step that jumps back.
  have loop : ∀ rounds ≤ bound, ∀ state m, At image state pc stack m →
      Simulates bad image rounds (pc + codeSize cond + 2 + codeSize body + 1)
        stack m (repeatWhile test run rounds state) := by
    intro rounds
    induction rounds with
    | zero => exact fun _ state m here => ⟨0, m, pc, stack, Nat.le_refl 0, .refl m, here⟩
    | succ rounds ih =>
      intro within state m here
      refine ((testCode _ stack state m condHere here).weaken within).andThen fun tested m₁ there => ?_
      obtain ⟨m₂, branched, there⟩ := there.jumpIfZero testHere endAt
      refine (Simulates.after branched ?_).weaken (Nat.le_add_left _ 2)
      by_cases zero : tested.acc = 0
      · rw [if_pos zero] at there ⊢
        exact .finish (.refl m₂) there
      · rw [if_neg zero] at there ⊢
        have runs := (bodyCode _ stack tested m₂ bodyHere there).weaken within
        refine runs.andThen fun after m₃ there => ?_
        obtain ⟨m₄, back, there⟩ := there.jump jumpHere startAt
        exact (Simulates.after back (ih (by omega) after m₄ there)).weaken (by omega)
  exact loop bound (Nat.le_refl _) state m here

/-- Code for a loop that tests behind each round. -/
theorem implements_repeatUntil {startLabel testLabel endLabel : String}
    (bodyCode : Implements bad image bound body run)
    (testCode : Implements bad image bound cond test) :
    Implements bad image bound
      ([.plainLabel startLabel] ++ body ++ [.plainLabel testLabel] ++ cond ++
        [Snippet.testZero, .inst (.jcc .ne startLabel), .plainLabel endLabel])
      (repeatUntil run test bound) := by
  intro pc stack state m placed here
  simp only [placed_append, placed_plainLabel, codeSize_append, codeSize_inst,
    codeSize_plainLabel, codeSize_testZero, codeSize_nil, Nat.zero_add, Nat.add_zero,
    ← Nat.add_assoc] at placed ⊢
  obtain ⟨⟨⟨⟨⟨startAt, _⟩, bodyHere⟩, _⟩, condHere⟩, cmpHere, branchHere, _⟩ := placed
  have loop : ∀ rounds ≤ bound, ∀ state m, At image state pc stack m →
      Simulates bad image rounds (pc + codeSize body + codeSize cond + 2)
        stack m (repeatUntil run test rounds state) := by
    intro rounds
    induction rounds with
    | zero => exact fun _ state m here => ⟨0, m, pc, stack, Nat.le_refl 0, .refl m, here⟩
    | succ rounds ih =>
      intro within state m here
      refine ((bodyCode _ stack state m bodyHere here).weaken within).andThen fun after m₁ there => ?_
      refine ((testCode _ stack after m₁ condHere there).weaken within).andThen fun tested m₂ there => ?_
      obtain ⟨m₃, branched, there⟩ := there.jumpUnlessZero ⟨cmpHere, branchHere, trivial⟩ startAt
      by_cases zero : tested.acc = 0
      · rw [if_pos zero] at there ⊢
        exact .finish branched there
      · rw [if_neg zero] at there ⊢
        exact (Simulates.after branched (ih (by omega) tested m₃ there)).weaken (by omega)
  exact loop bound (Nat.le_refl _) state m here

theorem implements_binary {lhs rhs : List Line} {left right : State → Outcome} {op : BinaryOp}
    (leftCode : Implements bad image bound lhs left)
    (rightCode : Implements bad image bound rhs right) :
    Implements bad image bound
      (lhs ++ [.inst (.push .rax)] ++ rhs ++
        [Snippet.mov Snippet.rbx Snippet.rax, .inst (.pop .rax)] ++ Snippet.binary op)
      fun state => (left state).andThen fun first => (right first).andThen fun second =>
        .finished { second with acc := op.apply first.acc second.acc } := by
  intro pc stack state m placed here
  rw [List.append_assoc] at placed ⊢
  obtain ⟨placed, combineHere⟩ := placed_append.mp placed
  have size : pc + codeSize (lhs ++ [.inst (.push .rax)] ++ rhs) =
      pc + codeSize lhs + 1 + codeSize rhs := by
    simp only [codeSize_append, codeSize_inst, codeSize_nil]
    omega
  rw [codeSize_append, ← Nat.add_assoc, size]
  rw [size] at combineHere
  simp only [placed_append, placed_inst, codeSize_append, codeSize_inst, codeSize_nil, Nat.zero_add,
    ← Nat.add_assoc] at placed
  obtain ⟨⟨lhsHere, pushHere, _⟩, rhsHere⟩ := placed
  refine (leftCode pc stack state m lhsHere here).andThen fun first m₁ there => ?_
  obtain ⟨m₂, pushed, there⟩ := there.push pushHere
  refine (Simulates.after pushed ?_).weaken (Nat.le_add_left _ 1)
  refine (rightCode _ _ first m₂ rhsHere there).andThen fun second m₃ there => ?_
  obtain ⟨n, m₄, combined, there⟩ := there.binary combineHere
  exact .finish combined there

end Control

/-! ### Switches -/

section Switch

variable {call : FuncId → State → Outcome} {id pcEnd : Nat} {subject : List Line}
  {value fallback : State → Outcome}

/-- The test behind a case is the next one, or the default block behind the last case. -/
theorem place_of_nextTest {k : Nat} {cases : List (Node × Node)}
    (placed : image.Placed pc (Node.linesCases id subject (k + 1) cases))
    (defaultAt : image.labels.get? (CodeLabel.switchDefault id) =
      some (pc + codeSize (Node.linesCases id subject (k + 1) cases))) :
    image.labels.get? (CodeLabel.afterCase CodeLabel.switchCase id k cases.isEmpty) = some pc := by
  cases cases with
  | nil =>
    rw [Node.linesCases] at defaultAt
    exact defaultAt
  | cons entry rest =>
    obtain ⟨test, body⟩ := entry
    simp only [Node.linesCases, List.append_assoc, List.singleton_append] at placed
    exact placed.1

/-- Bodies run one after the other, from the place of the first of them. -/
theorem simulates_evalBodies {cases : List (Node × Node)}
    (bodies : ∀ entry ∈ cases, Implements bad image bound entry.2.lines (entry.2.eval call bound))
    (fallbackCode : ∀ pc, image.labels.get? (CodeLabel.switchDefault id) = some pc →
      ∀ state m, At image state pc stack m → Simulates bad image bound pcEnd stack m (fallback state)) :
    ∀ k pc, image.Placed pc (Node.linesCases id subject (k + 1) cases) →
      image.labels.get? (CodeLabel.switchDefault id) =
        some (pc + codeSize (Node.linesCases id subject (k + 1) cases)) →
      ∃ place, image.labels.get?
          (CodeLabel.afterCase CodeLabel.switchCode id k cases.isEmpty) = some place ∧
        ∀ state m, At image state place stack m →
          Simulates bad image bound pcEnd stack m (Node.evalBodies call bound fallback cases state) := by
  induction cases with
  | nil =>
    intro k pc _ defaultAt
    refine ⟨_, defaultAt, fun state m here => ?_⟩
    rw [Node.evalBodies]
    exact fallbackCode _ defaultAt state m here
  | cons entry rest ih =>
    intro k pc placed defaultAt
    obtain ⟨test, body⟩ := entry
    simp only [Node.linesCases, placed_append, placed_plainLabel, placed_inst, codeSize_append,
      codeSize_inst, codeSize_plainLabel, codeSize_nil, Nat.zero_add, Nat.add_zero,
      ← Nat.add_assoc] at placed defaultAt
    obtain ⟨⟨⟨⟨_, _, _, _, bodyAt, _⟩, bodyHere⟩, jumpHere, _⟩, restHere⟩ := placed
    obtain ⟨next, nextAt, others⟩ := ih
      (fun entry member => bodies entry (List.mem_cons_of_mem _ member)) (k + 1) _ restHere defaultAt
    refine ⟨_, bodyAt, fun state m here => ?_⟩
    rw [Node.evalBodies]
    refine (bodies _ List.mem_cons_self _ stack state m bodyHere here).andThen fun after m₁ there => ?_
    obtain ⟨m₂, jumped, there⟩ := there.jump jumpHere nextAt
    exact (Simulates.after jumped (others after m₂ there)).weaken (Nat.le_add_left _ 1)

theorem simulates_evalCases {cases : List (Node × Node)}
    (subjectCode : Implements bad image bound subject value)
    (parts : ∀ entry ∈ cases, Implements bad image bound entry.1.lines (entry.1.eval call bound) ∧
      Implements bad image bound entry.2.lines (entry.2.eval call bound))
    (fallbackCode : ∀ pc, image.labels.get? (CodeLabel.switchDefault id) = some pc →
      ∀ state m, At image state pc stack m → Simulates bad image bound pcEnd stack m (fallback state)) :
    ∀ k pc, image.Placed pc (Node.linesCases id subject k cases) →
      image.labels.get? (CodeLabel.switchDefault id) =
        some (pc + codeSize (Node.linesCases id subject k cases)) →
      ∀ state m, At image state pc stack m →
        Simulates bad image bound pcEnd stack m
          (Node.evalCases call bound value fallback cases state) := by
  induction cases with
  | nil =>
    intro k pc _ defaultAt state m here
    rw [Node.evalCases]
    rw [Node.linesCases] at defaultAt
    exact fallbackCode _ defaultAt state m here
  | cons entry rest ih =>
    intro k pc placed defaultAt state m here
    obtain ⟨test, body⟩ := entry
    simp only [Node.linesCases, placed_append, placed_plainLabel, placed_inst, codeSize_append,
      codeSize_inst, codeSize_plainLabel, codeSize_nil, Nat.zero_add, Nat.add_zero,
      ← Nat.add_assoc] at placed defaultAt
    obtain ⟨⟨⟨⟨⟨⟨⟨_, testHere⟩, pushHere, _⟩, subjectHere⟩, popHere, cmpHere, branchHere, _, _⟩, bodyHere⟩,
      jumpHere, _⟩, restHere⟩ := placed
    obtain ⟨testCode, bodyCode⟩ := parts _ List.mem_cons_self
    have others := fun entry member => parts entry (List.mem_cons_of_mem _ member)
    have nextTest := place_of_nextTest restHere defaultAt
    obtain ⟨next, nextAt, runRest⟩ :=
      simulates_evalBodies (fun entry member => (others entry member).2) fallbackCode k _ restHere
        defaultAt
    rw [Node.evalCases]
    refine (testCode _ stack state m testHere here).andThen fun tested m₁ there => ?_
    obtain ⟨m₂, pushed, there⟩ := there.push pushHere
    refine (Simulates.after pushed ?_).weaken (Nat.le_add_left _ 1)
    refine (subjectCode _ _ tested m₂ subjectHere there).andThen fun found m₃ there => ?_
    obtain ⟨m₄, compared, there⟩ :=
      there.caseTest ⟨popHere, cmpHere, branchHere, trivial⟩ nextTest
    refine (Simulates.after compared ?_).weaken (Nat.le_add_left _ 3)
    by_cases same : tested.acc = found.acc
    · rw [if_pos same] at there ⊢
      refine (bodyCode _ stack found m₄ bodyHere there).andThen fun after m₅ there => ?_
      obtain ⟨m₆, jumped, there⟩ := there.jump jumpHere nextAt
      exact (Simulates.after jumped (runRest after m₆ there)).weaken (Nat.le_add_left _ 1)
    · rw [if_neg same] at there ⊢
      exact ih others (k + 1) _ restHere defaultAt found m₄ there

theorem implements_switch {cases : List (Node × Node)} {other : List Line}
    (subjectCode : Implements bad image bound subject value)
    (parts : ∀ entry ∈ cases, Implements bad image bound entry.1.lines (entry.1.eval call bound) ∧
      Implements bad image bound entry.2.lines (entry.2.eval call bound))
    (fallbackCode : Implements bad image bound other fallback) :
    Implements bad image bound
      (Node.linesCases id subject 0 cases ++ [.plainLabel (CodeLabel.switchDefault id)] ++ other ++
        [.plainLabel (CodeLabel.switchEnd id)])
      (Node.evalCases call bound value fallback cases) := by
  intro pc stack state m placed here
  simp only [placed_append, placed_plainLabel, codeSize_append, codeSize_plainLabel, codeSize_nil,
    Nat.add_zero, ← Nat.add_assoc] at placed ⊢
  obtain ⟨⟨⟨casesHere, defaultAt, _⟩, otherHere⟩, _⟩ := placed
  refine simulates_evalCases subjectCode parts ?_ 0 pc casesHere defaultAt state m here
  intro place placeIs state m here
  have same : place = pc + codeSize (Node.linesCases id subject 0 cases) :=
    Option.some.inj (placeIs.symm.trans defaultAt)
  subst same
  exact fallbackCode _ stack state m otherHere here

end Switch

/-! ### Trees and functions -/

/-- The unit of a program has been loaded: its variables have cells, and its functions have code. -/
structure Linked (program : Program) (image : Machine) : Prop where
  buffer : image.symbols.get? charCell = some 0
  room : 1 ≤ image.data.size
  cell : ∀ var ∈ program.vars, HasCell image var.id
  function : ∀ func ∈ program.functions, ∃ place, image.labels.get? func.id.label = some place ∧
    image.Placed place (Node.linesOption func.body ++ [.inst .ret])

/-- A call that starts at the code of a function comes back to the place on the stack. The step
of the call itself counts for the bound. -/
def CallsSimulate (bad : String → Prop) (program : Program) (image : Machine) (bound : Nat)
    (call : FuncId → State → Outcome) : Prop :=
  ∀ func ∈ program.functions, ∀ place, image.labels.get? func.id.label = some place →
    ∀ back stack state m, At image state place (back :: stack) m →
      Simulates bad image (bound - 1) back stack m (call func.id state)

/-- A node whose symbol is declared and whose literal, if it is no word, is known to be bad. -/
def Node.Grounded (bad : String → Prop) (program : Program) (node : Node) : Prop :=
  node.Scoped program.symbols ∧ ∀ id text, node = .integer id text → Text.wordOf? text = none → bad text

section Tree

variable {program : Program} {call : FuncId → State → Outcome}

theorem implements_linesAll {body : List Node}
    (parts : ∀ n ∈ body, Implements bad image bound n.lines (n.eval call bound)) :
    Implements bad image bound (Node.linesAll body) (Node.evalAll call bound body) := by
  induction body with
  | nil => exact .nil
  | cons node rest ih =>
    exact .append (parts node List.mem_cons_self)
      (ih fun n member => parts n (List.mem_cons_of_mem _ member))

theorem implements_linesOption {node : Option Node}
    (part : ∀ n ∈ node, Implements bad image bound n.lines (n.eval call bound)) :
    Implements bad image bound (Node.linesOption node) (Node.evalOption call bound node) := by
  cases node with
  | none => exact .nil
  | some node => exact part node rfl

theorem implements_lines (linked : Linked program image)
    (calls : CallsSimulate bad program image bound call) (node : Node)
    (grounded : ∀ n ∈ node.preorder, n.Grounded bad program) :
    Implements bad image bound node.lines (node.eval call bound) := by
  have cell {var : VarId} (known : ∃ known ∈ program.vars, known.id = var) : HasCell image var := by
    obtain ⟨known, member, rfl⟩ := known
    exact linked.cell known member
  induction node using Node.inductionOn with
  | block id body inner =>
    exact implements_linesAll fun n member => inner n member (Node.forall_child grounded member)
  | ifElse id cond thenPart elsePart condCode thenCode elseCode =>
    refine implements_branch (condCode (Node.forall_child grounded (by simp [Node.children])))
      (thenCode (Node.forall_child grounded (by simp [Node.children]))) (implements_linesOption ?_)
    exact fun n member => elseCode n member
      (Node.forall_child grounded (by simp [Node.children, Option.mem_def.mp member]))
  | whileLoop id cond body condCode bodyCode =>
    exact implements_repeatWhile (condCode (Node.forall_child grounded (by simp [Node.children])))
      (bodyCode (Node.forall_child grounded (by simp [Node.children])))
  | doWhile id body cond bodyCode condCode =>
    exact implements_repeatUntil (bodyCode (Node.forall_child grounded (by simp [Node.children])))
      (condCode (Node.forall_child grounded (by simp [Node.children])))
  | switch id subject cases fallback subjectCode caseCode fallbackCode =>
    refine implements_switch (subjectCode (Node.forall_child grounded (by simp [Node.children]))) ?_
      (implements_linesOption ?_)
    · exact fun entry member =>
        ⟨(caseCode entry member).1 (Node.forall_child grounded (Node.fst_mem_children member)),
          (caseCode entry member).2 (Node.forall_child grounded (Node.snd_mem_children member))⟩
    · exact fun n member => fallbackCode n member
        (Node.forall_child grounded (by simp [Node.children, Option.mem_def.mp member]))
  | assign id var op value valueCode =>
    have known := cell (grounded _ (Node.mem_preorder_self _)).1
    exact .append (valueCode (Node.forall_child grounded (by simp [Node.children])))
      (.snippet fun placed here => here.assign known placed)
  | access id var =>
    have known := cell (grounded _ (Node.mem_preorder_self _)).1
    exact .snippet fun placed here => ⟨1, here.load known placed⟩
  | integer id text =>
    exact .literal ((grounded _ (Node.mem_preorder_self _)).2 id text rfl)
  | float id text => exact .nil
  | unary id op operand operandCode =>
    exact .append (operandCode (Node.forall_child grounded (by simp [Node.children])))
      (.snippet fun placed here => here.unary placed)
  | binary id op lhs rhs lhsCode rhsCode =>
    exact implements_binary (lhsCode (Node.forall_child grounded (by simp [Node.children])))
      (rhsCode (Node.forall_child grounded (by simp [Node.children])))
  | step id direction var timing =>
    have known := cell (grounded _ (Node.mem_preorder_self _)).1
    exact .snippet fun placed here => ⟨2, here.count known placed⟩
  | call id func =>
    obtain ⟨known, member, rfl⟩ := (grounded _ (Node.mem_preorder_self _)).1
    obtain ⟨place, functionAt, _⟩ := linked.function known member
    intro pc stack state m placed here
    obtain ⟨m', called, there⟩ := here.call placed.1 functionAt
    exact (Simulates.after called (calls known member place functionAt _ stack state m' there)).weaken
      (by omega)
  | putChar id value valueCode =>
    exact .append (valueCode (Node.forall_child grounded (by simp [Node.children])))
      (.snippet fun placed here => ⟨6, here.putChar linked.buffer linked.room placed⟩)

end Tree

/-- Every function of a program that has been loaded follows its evaluation. -/
theorem evalCall_simulates {program : Program} (linked : Linked program image)
    (numbered : program.symbols.Numbered)
    (grounded : ∀ n ∈ Node.forest program.bodies, n.Grounded bad program) :
    ∀ fuel, CallsSimulate bad program image fuel (program.evalCall fuel) := by
  intro fuel
  induction fuel with
  | zero =>
    intro func _ place _ back stack state m here
    exact ⟨0, m, place, back :: stack, Nat.le_refl 0, .refl m, here⟩
  | succ fuel ih =>
    intro func member place functionAt back stack state m here
    have found : program.functions[func.id.index]? = some func :=
      Symbols.getElem?_number numbered.functions member
    have meaning : program.evalCall (fuel + 1) func.id state =
        Node.evalOption (program.evalCall fuel) fuel func.body state := by
      rw [Program.evalCall, found]
    obtain ⟨place', functionAt', placed⟩ := linked.function func member
    have same : place' = place := Option.some.inj (functionAt'.symm.trans functionAt)
    subst same
    obtain ⟨bodyHere, retHere, _⟩ := placed_append.mp placed
    have bodyCode : Implements bad image fuel (Node.linesOption func.body)
        (Node.evalOption (program.evalCall fuel) fuel func.body) :=
      implements_linesOption fun body isBody => implements_lines linked ih body fun n inside =>
        grounded n (Node.mem_forest.mpr ⟨body, List.mem_filterMap.mpr ⟨func, member, isBody⟩, inside⟩)
    rw [meaning, ← andThen_finished (Node.evalOption _ _ _ _)]
    refine (bodyCode _ _ state m bodyHere here).andThen fun after m₁ there => ?_
    obtain ⟨m₂, returned, there⟩ := there.ret retHere
    exact .finish returned there

end IonLang
