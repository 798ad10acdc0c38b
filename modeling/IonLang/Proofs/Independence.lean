import IonLang.Proofs.Code.Lines
import IonLang.Proofs.Grammar.Equivariance
import Mathlib.Logic.Equiv.Basic

/-!
# What a compilation does not depend on

Names of symbols reach the code only as comments, and positions only reach diagnostics. A change of
names therefore changes names in the program and nothing else, and a text may be laid out and
commented in any way.
-/

namespace IonLang

/-! ### Names in assembly lines -/

/-- Only comments hold names. -/
def Line.rename (r : String → String) : Line → Line
  | label name comment => label name (comment.map r)
  | line => line

def Assembly.rename (r : String → String) (code : Assembly) : Assembly :=
  ⟨code.lines.map (Line.rename r)⟩

theorem Assembly.rename_unplaced (code : Assembly) : code.rename Relabeling.unplaced.name = code := by
  have lines : Line.rename id = id := by
    funext line
    cases line with
    | label name comment => exact congrArg (Line.label name) (Option.map_id_apply)
    | _ => rfl
  show Assembly.mk (code.lines.map (Line.rename id)) = code
  rw [lines, List.map_id]

namespace Node

variable (r : String → String)

def Uncommented (lines : List Line) : Prop := lines.map (Line.rename r) = lines

variable {r} {front back : List Line}

theorem Uncommented.append (first : Uncommented r front) (second : Uncommented r back) :
    Uncommented r (front ++ back) := by
  rw [Uncommented, List.map_append, first, second]

theorem uncommented_binary (op : BinaryOp) : Uncommented r (Snippet.binary op) := by
  cases op <;> rfl

theorem uncommented_unary (op : UnaryOp) : Uncommented r (Snippet.unary op) := by
  cases op <;> rfl

theorem uncommented_assign (var : VarId) (op : AssignOp) : Uncommented r (Snippet.assign var op) := by
  cases op <;> rfl

theorem uncommented_step (direction : Direction) (var : VarId) (timing : Timing) :
    Uncommented r (Snippet.step direction var timing) := by
  cases direction <;> cases timing <;> rfl

theorem uncommented_linesAll {body : List Node} (inner : ∀ n ∈ body, Uncommented r n.lines) :
    Uncommented r (linesAll body) := by
  induction body with
  | nil => exact rfl
  | cons node rest ih =>
    rw [linesAll]
    exact (inner node List.mem_cons_self).append
      (ih fun n member => inner n (List.mem_cons_of_mem _ member))

theorem uncommented_linesOption {node : Option Node} (inner : ∀ n ∈ node, Uncommented r n.lines) :
    Uncommented r (linesOption node) := by
  cases node with
  | none => exact rfl
  | some node => exact inner node rfl

theorem uncommented_linesCases {id : Nat} {subject : List Line} {cases : List (Node × Node)}
    (test : Uncommented r subject)
    (inner : ∀ entry ∈ cases, Uncommented r entry.1.lines ∧ Uncommented r entry.2.lines) (k : Nat) :
    Uncommented r (linesCases id subject k cases) := by
  induction cases generalizing k with
  | nil => rw [linesCases]; exact rfl
  | cons entry rest ih =>
    obtain ⟨value, body⟩ := entry
    obtain ⟨ofValue, ofBody⟩ := inner _ List.mem_cons_self
    have others := ih (fun entry member => inner entry (List.mem_cons_of_mem _ member)) (k + 1)
    rw [linesCases]
    exact .append (.append (.append (.append (.append (.append (.append rfl ofValue) rfl) test) rfl)
      ofBody) rfl) others

theorem uncommented_lines (node : Node) : Uncommented r node.lines := by
  induction node using inductionOn with
  | block id body inner => rw [lines]; exact uncommented_linesAll inner
  | ifElse id cond thenPart elsePart ofCond ofThen ofElse =>
    rw [lines]
    exact .append (.append (.append (.append (.append ofCond rfl) ofThen) rfl)
      (uncommented_linesOption ofElse)) rfl
  | whileLoop id cond body ofCond ofBody =>
    rw [lines]
    exact .append (.append (.append (.append rfl ofCond) rfl) ofBody) rfl
  | doWhile id body cond ofBody ofCond =>
    rw [lines]
    exact .append (.append (.append (.append rfl ofBody) rfl) ofCond) rfl
  | switch id subject cases fallback ofSubject ofCases ofFallback =>
    rw [lines]
    exact .append (.append (.append (uncommented_linesCases ofSubject ofCases 0) rfl)
      (uncommented_linesOption ofFallback)) rfl
  | assign id var op value ofValue => rw [lines]; exact ofValue.append (uncommented_assign var op)
  | unary id op operand ofOperand => rw [lines]; exact ofOperand.append (uncommented_unary op)
  | binary id op lhs rhs ofLhs ofRhs =>
    rw [lines]
    exact .append (.append (.append (.append ofLhs rfl) ofRhs) rfl) (uncommented_binary op)
  | putChar id value ofValue => rw [lines]; exact ofValue.append rfl
  | step id direction var timing => rw [lines]; exact uncommented_step direction var timing
  | access | integer | float | call => rw [lines]; exact rfl

end Node

/-! ### Names in programs -/

namespace Program

def rename (r : String → String) (program : Program) : Program :=
  ⟨program.functions.map (Function.rename r), program.vars.map (Variable.rename r)⟩

theorem rename_unplaced : rename Relabeling.unplaced.name = id := by
  funext program
  have vars : Variable.rename id = id := by
    funext var
    rw [Variable.rename, DataType.rename_id]
    rfl
  show Program.mk (program.functions.map id) (program.vars.map (Variable.rename id)) = program
  rw [vars, List.map_id, List.map_id]

theorem functionCode_rename (r : String → String) (func : Function) :
    functionCode (func.rename r) = (functionCode func).map (List.map (Line.rename r)) := by
  unfold functionCode
  cases code : Node.codeOption func.body with
  | error reason => simp only [Function.rename, code]; rfl
  | ok lines =>
    have plain : Node.Uncommented r lines := by
      rw [Node.linesOption_of_code (fun n _ => n.codeIsLines) lines code]
      exact Node.uncommented_linesOption fun n _ => n.uncommented_lines
    simp only [Function.rename, code]
    have same : List.map (Line.rename r)
        ([.label func.id.label (some func.name)] ++ lines ++ [.inst .ret]) =
          [.label func.id.label (some (r func.name))] ++ lines ++ [.inst .ret] := by
      rw [List.map_append, List.map_append, plain]
      rfl
    exact congrArg Except.ok same.symm

theorem functionsCode_rename (r : String → String) (functions : List Function) :
    functionsCode (functions.map (Function.rename r)) =
      (functionsCode functions).map (List.map (Line.rename r)) := by
  induction functions with
  | nil => rfl
  | cons func rest ih =>
    rw [List.map_cons, functionsCode, functionsCode, functionCode_rename, ih]
    cases functionCode func with
    | error reason => rfl
    | ok first =>
      cases functionsCode rest with
      | error reason => rfl
      | ok others => exact congrArg Except.ok (List.map_append).symm

theorem findFunction?_entry (f : Relabeling) (program : Program) :
    (program.rename f.name).findFunction? entryName =
      (program.findFunction? entryName).map (Function.rename f.name) := by
  have entry (func : Function) :
      ((func.rename f.name).name == entryName) = (func.name == entryName) := by
    rw [Bool.eq_iff_iff, beq_iff_eq, beq_iff_eq]
    exact f.name_eq_reserved (by decide) func.name
  simp only [findFunction?, rename, List.find?_map, Function.comp_def, entry]

/-- A change of names changes the comments in the code of a program and nothing else. -/
theorem assemble_rename (f : Relabeling) (program : Program) :
    (program.rename f.name).assemble = program.assemble.map (Assembly.rename f.name) := by
  unfold assemble
  rw [findFunction?_entry]
  cases program.findFunction? entryName with
  | none => rfl
  | some entry =>
    have storage : (program.rename f.name).storage = program.storage := by
      simp [Program.storage, rename, Variable.rename, Function.comp_def]
    have plain : Node.Uncommented f.name program.storage := by
      simp [Node.Uncommented, Program.storage, Line.rename]
    have functions : functionsCode (program.rename f.name).functions =
        (functionsCode program.functions).map (List.map (Line.rename f.name)) :=
      functionsCode_rename f.name program.functions
    simp only [Option.map_some, functions, storage]
    cases functionsCode program.functions with
    | error reason => rfl
    | ok lines =>
      have same : List.map (Line.rename f.name) ([.directive "BITS 64", .directive "segment .bss"] ++
          program.storage ++ [.directive "segment .text"] ++ lines ++ startCode entry.id) =
          [.directive "BITS 64", .directive "segment .bss"] ++ program.storage ++
            [.directive "segment .text"] ++ lines.map (Line.rename f.name) ++ startCode entry.id := by
        rw [List.map_append, List.map_append, List.map_append, List.map_append, plain]
        rfl
      exact congrArg (fun lines => Except.ok (Assembly.mk lines)) same.symm

theorem ofTokens_relabel (f : Relabeling) (tokens : List Token) :
    ofTokens (tokens.map (Token.relabel f)) =
      ((ofTokens tokens).1.map (rename f.name), (ofTokens tokens).2.map (Diagnostic.relabel f)) := by
  unfold ofTokens Grammar.State.parse
  rw [Grammar.State.ofTokens_relabel, Grammar.Follows.definitions]
  cases Grammar.definitions (Grammar.State.ofTokens tokens) with
  | ok _ s => rfl
  | error stop s =>
    cases stop with
    | fatal diagnostic => simp [Grammar.relabelResult, Grammar.Stop.relabel, Grammar.State.relabel]
    | exhausted => rfl

end Program

/-! ### Layout and comments -/

def Token.significant (tokens : List Token) : List Token.Kind :=
  (tokens.map Token.kind).filter fun kind => !kind.isComment

def Diagnostic.unplaced : Diagnostic → Diagnostic := Diagnostic.relabel .unplaced

namespace Program

open Token (scan significant)

theorem significant_map_relabel (f : Relabeling) (tokens : List Token) :
    significant (tokens.map (Token.relabel f)) = (significant tokens).map (Token.Kind.relabel f) := by
  have comments : ∀ kind : Token.Kind, (kind.relabel f).isComment = kind.isComment :=
    fun kind => kind.isComment_relabel f
  simp [significant, List.filter_map, Function.comp_def, Token.relabel, comments]

theorem significant_unplaced {tokens others : List Token}
    (same : significant tokens = significant others) :
    significant others = (significant tokens).map (Token.Kind.relabel .unplaced) := by
  have kinds : Token.Kind.relabel .unplaced = id := by
    funext kind
    cases kind <;> rfl
  rw [kinds, List.map_id, same]

/-- Without positions, the tokens that are read are known by their kinds. -/
theorem ofTokens_eq_of_significant (f : Relabeling) (p : Position) (fixed : ∀ pos, f.position pos = p)
    (tokens : List Token) :
    Grammar.State.ofTokens (tokens.map (Token.relabel f)) =
      Grammar.State.ofTokens ((significant tokens).map fun kind => ⟨kind.relabel f, p⟩) := by
  have comments : ∀ kind : Token.Kind, (kind.relabel f).isComment = kind.isComment :=
    fun kind => kind.isComment_relabel f
  simp [Grammar.State.ofTokens, significant, List.filter_map, Function.comp_def, Token.relabel,
    comments, fixed]

theorem ofTokens_of_significant (f : Relabeling) {tokens others : List Token}
    (same : significant others = (significant tokens).map (Token.Kind.relabel f)) :
    (ofTokens others).1 = (ofTokens tokens).1.map (rename f.name) ∧
      (ofTokens others).2.map Diagnostic.unplaced =
        (ofTokens tokens).2.map (Diagnostic.relabel f.thenUnplaced) := by
  have read : ofTokens (others.map (Token.relabel .unplaced)) =
      ofTokens (tokens.map (Token.relabel f.thenUnplaced)) := by
    unfold ofTokens
    rw [ofTokens_eq_of_significant .unplaced _ fun _ => rfl,
      ofTokens_eq_of_significant f.thenUnplaced _ fun _ => rfl, same]
    have kinds : ∀ kind : Token.Kind,
        (kind.relabel f).relabel .unplaced = kind.relabel f.thenUnplaced := by
      intro kind
      cases kind <;> rfl
    simp only [List.map_map, Function.comp_def, kinds]
  rw [ofTokens_relabel, ofTokens_relabel, Prod.mk.injEq] at read
  refine ⟨?_, read.2⟩
  rw [rename_unplaced, Option.map_id] at read
  exact read.1

def assembled : Option Program × List Diagnostic → Except (List Diagnostic) Assembly
  | (some program, []) => program.assemble.mapError fun diagnostic => [diagnostic]
  | (_, errors) => .error errors

/-- Compiles tokens as `compile` does those of a text. -/
def compileTokens (tokens : List Token) : Except (List Diagnostic) Assembly :=
  assembled (ofTokens tokens)

theorem compile_eq_compileTokens {file source : String} (clean : (scan file source).errors = []) :
    compile file source = compileTokens (scan file source).tokens := by
  have parsed : ofSource file source = ofTokens (scan file source).tokens := by
    simp only [ofSource, clean, List.nil_append]
  show assembled (ofSource file source) = assembled (ofTokens (scan file source).tokens)
  rw [parsed]

/-- Texts with the same tokens up to names and layout compile, or fail to, together. -/
theorem compileTokens_of_significant (f : Relabeling) {tokens others : List Token}
    (same : significant others = (significant tokens).map (Token.Kind.relabel f)) :
    (∃ code, compileTokens tokens = .ok code ∧ compileTokens others = .ok (code.rename f.name)) ∨
      ∃ errors errors', compileTokens tokens = .error errors ∧ compileTokens others = .error errors' ∧
        (errors' = errors ∨
          errors'.map Diagnostic.unplaced = errors.map (Diagnostic.relabel f.thenUnplaced)) := by
  obtain ⟨programs, reports⟩ := ofTokens_of_significant f same
  unfold compileTokens
  generalize ofTokens tokens = parsed at programs reports ⊢
  generalize ofTokens others = parsed' at programs reports ⊢
  obtain ⟨found, errors⟩ := parsed
  obtain ⟨_, errors'⟩ := parsed'
  cases programs
  cases errors with
  | nil =>
    obtain rfl : errors' = [] := List.map_eq_nil_iff.1 reports
    cases found with
    | none => exact .inr ⟨[], [], rfl, rfl, .inl rfl⟩
    | some program =>
      simp only [assembled, assemble_rename]
      cases program.assemble with
      | ok code => exact .inl ⟨code, rfl, rfl⟩
      | error reason => exact .inr ⟨[reason], [reason], rfl, rfl, .inl rfl⟩
  | cons first more =>
    cases errors' with
    | nil => cases reports
    | cons first' more' =>
      cases found with
      | none => exact .inr ⟨_, _, rfl, rfl, .inr reports⟩
      | some program => exact .inr ⟨_, _, rfl, rfl, .inr reports⟩

theorem toOption_compileTokens (f : Relabeling) {tokens others : List Token}
    (same : significant others = (significant tokens).map (Token.Kind.relabel f)) :
    (compileTokens others).toOption = (compileTokens tokens).toOption.map (Assembly.rename f.name) := by
  obtain ⟨code, compiled, compiled'⟩ | ⟨errors, errors', failed, failed', -⟩ :=
    compileTokens_of_significant f same
  · rw [compiled, compiled']
    rfl
  · rw [failed, failed']
    rfl

/-- Names are only names: changing them changes the names in the program, in the diagnostics and in
the comments of the code, and nothing else. -/
theorem ofTokens_rename (r : String → String) (injective : Function.Injective r)
    (reserved : ∀ word ∈ reservedNames, r word = word) :
    let f := Relabeling.ofNames r injective reserved
    (∀ tokens, ofTokens (tokens.map (Token.relabel f)) =
      ((ofTokens tokens).1.map (rename r), (ofTokens tokens).2.map (Diagnostic.relabel f))) ∧
    (∀ program : Program, (program.rename r).assemble = program.assemble.map (Assembly.rename r)) ∧
    (∀ tokens, (compileTokens (tokens.map (Token.relabel f))).toOption =
      (compileTokens tokens).toOption.map (Assembly.rename r)) ∧
    ∀ file source file' source',
      (scan file source).errors = [] → (scan file' source').errors = [] →
      significant (scan file' source').tokens =
        (significant (scan file source).tokens).map (Token.Kind.relabel f) →
      (compile file' source').toOption = (compile file source).toOption.map (Assembly.rename r) := by
  intro f
  refine ⟨ofTokens_relabel f, assemble_rename f,
    fun tokens => toOption_compileTokens f (significant_map_relabel f tokens), ?_⟩
  intro file source file' source' clean clean' same
  rw [compile_eq_compileTokens clean, compile_eq_compileTokens clean']
  exact toOption_compileTokens f same

/-- A function may have the name of a label of the code. -/
theorem ofTokens_rename_exit :
    let r := Equiv.swap "f" "exit"
    (compile "a" "uint64 x; void f() x = 1; void main() f();").isOk ∧
      (compile "a" "uint64 x; void exit() x = 1; void main() exit();").toOption =
        (compile "a" "uint64 x; void f() x = 1; void main() f();").toOption.map (Assembly.rename r) := by
  refine ⟨by decide +kernel, ?_⟩
  obtain ⟨-, -, -, compiles⟩ :=
    ofTokens_rename (Equiv.swap "f" "exit") (Equiv.injective _) (by decide)
  exact compiles _ _ _ _ (by decide +kernel) (by decide +kernel) (by decide +kernel)

/-- Layout and comments do not change what is parsed and compiled, and diagnostics differ in their
positions only. -/
theorem compile_layout :
    (∀ tokens others : List Token, significant tokens = significant others →
      (ofTokens tokens).1 = (ofTokens others).1 ∧
      (ofTokens tokens).2.map Diagnostic.unplaced = (ofTokens others).2.map Diagnostic.unplaced) ∧
    ∀ file source file' source',
      (scan file source).errors = [] → (scan file' source').errors = [] →
      significant (scan file source).tokens = significant (scan file' source').tokens →
      (∃ code, compile file source = .ok code ∧ compile file' source' = .ok code) ∨
      ∃ errors errors', compile file source = .error errors ∧ compile file' source' = .error errors' ∧
        errors.map Diagnostic.unplaced = errors'.map Diagnostic.unplaced := by
  constructor
  · intro tokens others same
    obtain ⟨program, errors⟩ := ofTokens_of_significant .unplaced (significant_unplaced same)
    rw [rename_unplaced, Option.map_id] at program
    exact ⟨program.symm, errors.symm⟩
  · intro file source file' source' clean clean' same
    rw [compile_eq_compileTokens clean, compile_eq_compileTokens clean']
    obtain ⟨code, compiled, compiled'⟩ | ⟨errors, errors', failed, failed', reports⟩ :=
      compileTokens_of_significant .unplaced (significant_unplaced same)
    · rw [Assembly.rename_unplaced] at compiled'
      exact .inl ⟨code, compiled, compiled'⟩
    · refine .inr ⟨errors, errors', failed, failed', ?_⟩
      rcases reports with rfl | reports
      · rfl
      · exact reports.symm

/-- One text on one line, in a comment-filled layout in another file, and with an error in both. -/
theorem compile_layout_commented :
    (compile "a" "uint64 x; void main() x = 1;").isOk ∧
      compile "a" "uint64 x; void main() x = 1;" =
        compile "b" "uint64 x; // a cell\nvoid main()\n  x // it\n  = 1;" ∧
      (ofTokens (scan "a" "void main() x = 1;").tokens).2.length = 1 ∧
      (ofTokens (scan "a" "void main() x = 1;").tokens).2.map Diagnostic.unplaced =
        (ofTokens (scan "b" "void // main\nmain()\n\n  x = 1;").tokens).2.map Diagnostic.unplaced := by
  obtain ⟨parsed, compiles⟩ := compile_layout
  have ok : (compile "a" "uint64 x; void main() x = 1;").isOk = true := by decide +kernel
  refine ⟨ok, ?_, by decide +kernel, (parsed _ _ (by decide +kernel)).2⟩
  obtain ⟨code, compiled, compiled'⟩ | ⟨errors, -, failed, -, -⟩ :=
    compiles "a" "uint64 x; void main() x = 1;"
      "b" "uint64 x; // a cell\nvoid main()\n  x // it\n  = 1;"
      (by decide +kernel) (by decide +kernel) (by decide +kernel)
  · rw [compiled, compiled']
  · rw [failed] at ok
    cases ok

end Program

end IonLang
