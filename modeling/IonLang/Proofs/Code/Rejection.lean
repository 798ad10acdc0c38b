import IonLang.Proofs.Grammar.WellFormed
import IonLang.Proofs.Reporting
import IonLang.Proofs.SyntaxTree

/-!
# What code generation refuses

Code is made of every part of a tree, also of a subject that no case compares and of blocks that are
never entered. The only trees without code are those with a floating point literal somewhere, and
the diagnostic quotes one of them. `Refuses` says this of a computation over several trees, in
whatever order it takes them, and `Program.compile_refuses` draws the conclusion for source texts.
-/

namespace IonLang

namespace Node

def HasFloat (node : Node) (text : String) : Prop := ∃ id, .float id text ∈ node.preorder

def refusal (text : String) : Diagnostic := .unsupported ("floating point literal `" ++ text ++ "`")

variable {α β : Type}

/-- A computation over trees has a result exactly if they hold no floating point literal, and
otherwise fails with one of theirs. -/
def Refuses (trees : List Node) : Except Diagnostic α → Prop
  | .ok _ => ∀ tree ∈ trees, ∀ text, ¬tree.HasFloat text
  | .error d => ∃ tree ∈ trees, ∃ text, tree.HasFloat text ∧ d = refusal text

namespace Refuses

variable {trees others : List Node} {result : Except Diagnostic α}

theorem done (value : α) : Refuses [] (.ok value) := by
  intro tree member
  cases member

theorem congr (refuses : Refuses trees result) (same : ∀ tree, tree ∈ trees ↔ tree ∈ others) :
    Refuses others result := by
  cases result with
  | ok value => exact fun tree member => refuses tree ((same tree).mpr member)
  | error d =>
    obtain ⟨tree, member, found⟩ := refuses
    exact ⟨tree, (same tree).mp member, found⟩

theorem bind {rest : α → Except Diagnostic β} (before : Refuses trees result)
    (after : ∀ value, Refuses others (rest value)) : Refuses (trees ++ others) (result >>= rest) := by
  cases result with
  | error d =>
    obtain ⟨tree, member, found⟩ := before
    exact ⟨tree, List.mem_append_left _ member, found⟩
  | ok value =>
    have refuses := after value
    show Refuses (trees ++ others) (rest value)
    cases computed : rest value with
    | error d =>
      rw [computed] at refuses
      obtain ⟨tree, member, found⟩ := refuses
      exact ⟨tree, List.mem_append_right _ member, found⟩
    | ok other =>
      rw [computed] at refuses
      intro tree member
      rcases List.mem_append.mp member with first | second
      · exact before tree first
      · exact refuses tree second

/-- The floating point literals of a node that is none itself are those of its children. -/
theorem parent {node : Node} (plain : ∀ id text, node ≠ .float id text)
    (refuses : Refuses node.children result) : Refuses [node] result := by
  have below (text : String) : node.HasFloat text ↔ ∃ child ∈ node.children, child.HasFloat text := by
    unfold HasFloat
    simp only [preorder_eq node, List.mem_cons, mem_forest]
    constructor
    · rintro ⟨id, same | ⟨child, member, found⟩⟩
      · exact absurd same.symm (plain id text)
      · exact ⟨child, member, id, found⟩
    · rintro ⟨child, member, id, found⟩
      exact ⟨id, .inr ⟨child, member, found⟩⟩
  cases result with
  | ok value =>
    intro tree member text found
    rw [List.mem_singleton.mp member, below] at found
    obtain ⟨child, inside, found⟩ := found
    exact refuses child inside text found
  | error d =>
    obtain ⟨child, inside, text, found, same⟩ := refuses
    exact ⟨node, List.mem_cons_self, text, (below text).mpr ⟨child, inside, found⟩, same⟩

end Refuses

theorem refuses_codeAll {body : List Node} (inner : ∀ n ∈ body, Refuses [n] n.code) :
    Refuses body (codeAll body) := by
  induction body with
  | nil =>
    rw [codeAll]
    exact .done _
  | cons node rest ih =>
    obtain ⟨first, inner⟩ := List.forall_mem_cons.mp inner
    rw [codeAll]
    refine (first.bind fun _ => (ih inner).bind fun _ => .done _).congr ?_
    simp

theorem refuses_codeOption {node : Option Node} (inner : ∀ n ∈ node, Refuses [n] n.code) :
    Refuses node.toList (codeOption node) := by
  cases node with
  | none =>
    rw [codeOption]
    exact .done _
  | some node =>
    rw [codeOption]
    exact inner node rfl

theorem refuses_codeCases {id : Nat} {subject : List Line} {cases : List (Node × Node)}
    (inner : ∀ entry ∈ cases, Refuses [entry.1] entry.1.code ∧ Refuses [entry.2] entry.2.code)
    (k : Nat) :
    Refuses (cases.flatMap fun entry => [entry.1, entry.2]) (codeCases id subject k cases) := by
  induction cases generalizing k with
  | nil =>
    rw [codeCases]
    exact .done _
  | cons entry rest ih =>
    obtain ⟨value, body⟩ := entry
    obtain ⟨⟨valueIs, bodyIs⟩, inner⟩ := List.forall_mem_cons.mp inner
    rw [codeCases]
    refine (valueIs.bind fun _ => bodyIs.bind fun _ => (ih inner _).bind fun _ => .done _).congr ?_
    simp

/-- The children of a node are taken in another order than they stand in, and the subject of a switch
is taken whether there are cases or not. -/
theorem refuses_code (node : Node) : Refuses [node] node.code := by
  induction node using inductionOn with
  | block id body inner =>
    rw [code]
    exact .parent (by simp) (refuses_codeAll inner)
  | ifElse id cond thenPart elsePart condIs thenIs elseIs =>
    rw [code]
    refine .parent (by simp) (.congr ((refuses_codeOption elseIs).bind fun _ =>
      condIs.bind fun _ => thenIs.bind fun _ => .done _) fun tree => ?_)
    simp only [children, List.mem_append, List.mem_cons, List.not_mem_nil, or_false]
    tauto
  | whileLoop id first second firstIs secondIs | doWhile id first second firstIs secondIs
  | binary id op first second firstIs secondIs =>
    rw [code]
    exact .parent (by simp) (firstIs.bind fun _ => secondIs.bind fun _ => .done _)
  | switch id subject cases fallback subjectIs casesAre fallbackIs =>
    rw [code]
    refine .parent (by simp) (.congr (subjectIs.bind fun _ =>
      (refuses_codeCases casesAre 0).bind fun _ =>
        (refuses_codeOption fallbackIs).bind fun _ => .done _) fun tree => ?_)
    simp [children]
  | float id text =>
    rw [code]
    exact ⟨_, List.mem_cons_self, text, ⟨id, mem_preorder_self _⟩, rfl⟩
  | access | integer | step | call =>
    rw [code]
    exact .parent (by simp) (.done _)
  | assign id _ _ part partIs | unary id _ part partIs | putChar id part partIs =>
    rw [code]
    exact .parent (by simp) (partIs.bind fun _ => .done _)

theorem code_error {node : Node} {d : Diagnostic} (failed : node.code = .error d) :
    ∃ text, node.HasFloat text ∧ d = refusal text := by
  have refuses := node.refuses_code
  rw [failed] at refuses
  obtain ⟨tree, member, text, found, same⟩ := refuses
  rw [List.mem_singleton.mp member] at found
  exact ⟨text, found, same⟩

theorem code_fails_iff (node : Node) :
    (∃ d, node.code = .error d) ↔ ∃ text, node.HasFloat text := by
  constructor
  · rintro ⟨d, failed⟩
    obtain ⟨text, found, _⟩ := code_error failed
    exact ⟨text, found⟩
  · rintro ⟨text, found⟩
    have refuses := node.refuses_code
    cases computed : node.code with
    | error d => exact ⟨d, rfl⟩
    | ok lines =>
      rw [computed] at refuses
      exact absurd found (refuses node List.mem_cons_self text)

end Node

namespace Program

def HasEntry (program : Program) : Prop := ∃ func ∈ program.functions, func.name = entryName

instance (program : Program) : Decidable program.HasEntry :=
  inferInstanceAs (Decidable (∃ func ∈ program.functions, func.name = entryName))

def HasFloat (program : Program) (text : String) : Prop :=
  ∃ func ∈ program.functions, ∃ body ∈ func.body, body.HasFloat text

theorem hasFloat_iff (program : Program) (text : String) :
    program.HasFloat text ↔ ∃ tree ∈ program.bodies, tree.HasFloat text := by
  unfold HasFloat bodies
  simp only [List.mem_filterMap]
  constructor
  · rintro ⟨func, member, body, same, found⟩
    exact ⟨body, ⟨func, member, same⟩, found⟩
  · rintro ⟨body, ⟨func, member, same⟩, found⟩
    exact ⟨func, member, body, same, found⟩

theorem refuses_functionCode (func : Function) :
    Node.Refuses func.body.toList (functionCode func) := by
  unfold functionCode
  refine ((Node.refuses_codeOption fun n _ => n.refuses_code).bind fun _ => .done _).congr ?_
  simp

theorem refuses_functionsCode (functions : List Function) :
    Node.Refuses (functions.filterMap Function.body) (functionsCode functions) := by
  induction functions with
  | nil => exact .done _
  | cons func rest ih =>
    rw [functionsCode]
    refine ((refuses_functionCode func).bind fun _ => ih.bind fun _ => .done _).congr fun tree => ?_
    cases body : func.body <;> simp [body]

/-- A program with an entry is assembled unless a floating point literal occurs in it. -/
theorem refuses_assemble {program : Program} (entered : program.HasEntry) :
    Node.Refuses program.bodies program.assemble := by
  unfold assemble
  split
  · next missing =>
    obtain ⟨func, member, named⟩ := entered
    exact absurd named (by simpa using List.find?_eq_none.mp missing func member)
  · next entry _ =>
    refine ((refuses_functionsCode program.functions).bind fun _ => .done _).congr ?_
    simp [bodies]

theorem assemble_of_not_hasEntry {program : Program} (missing : ¬program.HasEntry) :
    program.assemble = .error .missingEntryPoint := by
  unfold assemble
  split
  · rfl
  · next entry found =>
    have named : entry.name = entryName := by simpa using List.find?_some found
    exact absurd ⟨entry, List.mem_of_find?_eq_some found, named⟩ missing

theorem assemble_eq_error {program : Program} {d : Diagnostic} (failed : program.assemble = .error d) :
    ¬program.HasEntry ∧ d = .missingEntryPoint ∨
      program.HasEntry ∧ ∃ text, program.HasFloat text ∧ d = Node.refusal text := by
  by_cases entered : program.HasEntry
  · have refuses := refuses_assemble entered
    rw [failed] at refuses
    obtain ⟨tree, member, text, found, rfl⟩ := refuses
    exact .inr ⟨entered, text, (program.hasFloat_iff text).mpr ⟨tree, member, found⟩, rfl⟩
  · rw [assemble_of_not_hasEntry entered] at failed
    cases failed
    exact .inl ⟨entered, rfl⟩

theorem assemble_ok_iff (program : Program) :
    (∃ code, program.assemble = .ok code) ↔ program.HasEntry ∧ ∀ text, ¬program.HasFloat text := by
  constructor
  · rintro ⟨code, assembled⟩
    by_cases entered : program.HasEntry
    · refine ⟨entered, fun text found => ?_⟩
      have refuses := refuses_assemble entered
      rw [assembled] at refuses
      obtain ⟨tree, member, found⟩ := (program.hasFloat_iff text).mp found
      exact refuses tree member text found
    · rw [assemble_of_not_hasEntry entered] at assembled
      cases assembled
  · rintro ⟨entered, free⟩
    cases assembled : program.assemble with
    | ok code => exact ⟨code, rfl⟩
    | error d =>
      rcases assemble_eq_error assembled with ⟨missing, _⟩ | ⟨_, text, used, _⟩
      · exact absurd entered missing
      · exact absurd used (free text)

theorem compile_of_quiet {file source : String} {program : Program}
    (parsed : ofSource file source = (some program, [])) :
    compile file source = program.assemble.mapError fun d => [d] := by
  unfold compile
  rw [parsed]

theorem exists_errors {file source : String} (refused : (compile file source).isOk = false) :
    ∃ errors, compile file source = .error errors := by
  cases compiled : compile file source with
  | error errors => exact ⟨errors, rfl⟩
  | ok code =>
    rw [compiled] at refused
    cases refused

/-- A text in which nothing was reported has a program. -/
theorem exists_program_of_quiet {file source : String} (quiet : (ofSource file source).2 = []) :
    ∃ program, ofSource file source = (some program, []) := by
  have settled := settled_ofSource file source
  generalize ofSource file source = parsed at quiet settled
  obtain ⟨program, errors⟩ := parsed
  dsimp only at quiet
  subst quiet
  cases program with
  | some program => exact ⟨program, rfl⟩
  | none => exact absurd rfl settled.errors_ne_nil

/-- A tree has code unless a floating point literal occurs in it, which the diagnostic quotes. A source
text is compiled exactly if nothing is reported, some function is the entry and no body holds such a
literal; of the last two only the first that fails is reported. -/
theorem compile_refuses :
    (∀ node : Node, ((∃ d, node.code = .error d) ↔ ∃ text, node.HasFloat text) ∧
      ∀ d, node.code = .error d → ∃ text, node.HasFloat text ∧
        d = .unsupported ("floating point literal `" ++ text ++ "`")) ∧
    ∀ file source : String,
      let scan := Token.scan file source
      let parse := ofTokens scan.tokens
      ((∃ code, compile file source = .ok code) ↔
        scan.errors = [] ∧ parse.2 = [] ∧
          ∃ program, parse.1 = some program ∧ program.HasEntry ∧ ∀ text, ¬program.HasFloat text) ∧
      (scan.errors = [] → parse.2 = [] → ∃ program, parse.1 = some program ∧
        ∀ errors, compile file source = .error errors →
          (¬program.HasEntry → errors = [.missingEntryPoint]) ∧
          (program.HasEntry → ∃ text, program.HasFloat text ∧
            errors = [.unsupported ("floating point literal `" ++ text ++ "`")])) := by
  refine ⟨fun node => ⟨node.code_fails_iff, fun d => Node.code_error⟩, fun file source => ?_⟩
  intro scan parse
  have reported : (ofSource file source).2 = scan.errors ++ parse.2 := rfl
  refine ⟨⟨?_, ?_⟩, ?_⟩
  · rintro ⟨code, compiled⟩
    obtain ⟨program, parsed, assembled⟩ := compile_eq_ok compiled
    rw [parsed] at reported
    obtain ⟨scanned, quiet⟩ := List.append_eq_nil_iff.mp reported.symm
    exact ⟨scanned, quiet, program, congrArg Prod.fst parsed,
      program.assemble_ok_iff.mp ⟨code, assembled⟩⟩
  · rintro ⟨scanned, quiet, program, found, accepted⟩
    have parsed : ofSource file source = (some program, []) :=
      Prod.ext found (by rw [reported, scanned, quiet]; rfl)
    obtain ⟨code, assembled⟩ := program.assemble_ok_iff.mpr accepted
    refine ⟨code, ?_⟩
    rw [compile_of_quiet parsed, assembled]
    rfl
  · intro scanned quiet
    rw [scanned, quiet] at reported
    obtain ⟨program, parsed⟩ := exists_program_of_quiet reported
    refine ⟨program, congrArg Prod.fst parsed, fun errors failed => ?_⟩
    rw [compile_of_quiet parsed] at failed
    cases assembled : program.assemble with
    | ok code =>
      rw [assembled] at failed
      cases failed
    | error d =>
      rw [assembled] at failed
      cases failed
      rcases assemble_eq_error assembled with ⟨missing, rfl⟩ | ⟨entered, text, used, rfl⟩
      · exact ⟨fun _ => rfl, fun entered => absurd entered missing⟩
      · exact ⟨fun missing => absurd entered missing, fun _ => ⟨text, used, rfl⟩⟩

/-- A literal that only a switch without cases compares, a literal in a program without an entry, and
a program with an entry and without literals. -/
theorem compile_refuses_subject :
    let source := "void main() switch (1.5) " ++ Text.braced ""
    (∃ d, (Node.switch 1 (.float 0 "1.5") [] none).code = .error d) ∧
      (∃ text, compile "a" source =
        .error [.unsupported ("floating point literal `" ++ text ++ "`")]) ∧
      compile "a" "void f() 2.5;" = .error [.missingEntryPoint] ∧
      ∃ program, (ofTokens (Token.scan "a" "void main() ;").tokens).1 = some program ∧
        program.HasEntry ∧ ∀ text, ¬program.HasFloat text := by
  intro source
  obtain ⟨trees, texts⟩ := compile_refuses
  refine ⟨(trees _).1.mpr ⟨"1.5", 0, by simp [Node.preorder]⟩, ?_, ?_, ?_⟩
  · have refused : (compile "a" source).isOk = false := by decide +kernel
    have entered : ∀ program ∈ (ofTokens (Token.scan "a" source).tokens).1, program.HasEntry := by
      decide +kernel
    obtain ⟨errors, failed⟩ := exists_errors refused
    obtain ⟨program, parsed, causes⟩ := (texts "a" source).2 (by decide +kernel) (by decide +kernel)
    obtain ⟨text, _, rfl⟩ := (causes errors failed).2 (entered program parsed)
    exact ⟨text, failed⟩
  · have refused : (compile "a" "void f() 2.5;").isOk = false := by decide +kernel
    have missing : ∀ program ∈ (ofTokens (Token.scan "a" "void f() 2.5;").tokens).1,
        ¬program.HasEntry := by
      decide +kernel
    obtain ⟨errors, failed⟩ := exists_errors refused
    obtain ⟨program, parsed, causes⟩ :=
      (texts "a" "void f() 2.5;").2 (by decide +kernel) (by decide +kernel)
    rw [failed, (causes errors failed).1 (missing program parsed)]
  · have accepted : (compile "a" "void main() ;").isOk = true := by decide +kernel
    obtain ⟨code, compiled⟩ := exists_code accepted
    exact ((texts "a" "void main() ;").1.mp ⟨code, compiled⟩).2.2

end Program

end IonLang
