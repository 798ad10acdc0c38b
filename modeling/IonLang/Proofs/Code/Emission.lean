import IonLang.Proofs.Assembly.Reading
import IonLang.Proofs.Code.Lines
import IonLang.Proofs.Grammar.Location
import IonLang.Proofs.Token.Numeral

/-!
# The text of a compiled program

All lines of a compiled program are plain: labels are made of letters, digits and underscores,
constants are numerals of the source, and the comment of a function is an identifier of the source.
So the text of a compiled program determines its lines.
-/

namespace IonLang

open Text (avoids separators avoids_append avoids_number)

/-! ### Labels -/

theorem LabelRole.avoids_label (id : Nat) (role : LabelRole) :
    avoids separators (role.label id).toList = true := by
  have stem : avoids separators role.stem = true := by cases role <;> rfl
  have ending : avoids separators role.ending = true := by
    cases role with
    | switchCase k =>
      rw [LabelRole.ending, avoids_append, avoids_number]
      rfl
    | switchCode k =>
      rw [LabelRole.ending, avoids_append, avoids_append, avoids_number]
      rfl
    | _ => rfl
  rw [toList_label, avoids_append, avoids_append, stem, ending, avoids_number]
  rfl

theorem VarId.avoids_label (var : VarId) : avoids separators var.label.toList = true := by
  rw [label, String.toList_append, avoids_append, avoids_number]
  rfl

theorem FuncId.avoids_label (func : FuncId) : avoids separators func.label.toList = true := by
  rw [label, String.toList_append, avoids_append, avoids_number]
  rfl

theorem Line.isPlain_plainLabel {name : String} (solid : avoids separators name.toList = true) :
    (Line.plainLabel name).isPlain = true := by
  rw [Line.plainLabel, Line.isPlain, solid]
  rfl

/-! ### Snippets -/

namespace Snippet

theorem isPlain_unary (op : UnaryOp) : (unary op).all Line.isPlain = true := by
  cases op <;> rfl

theorem isPlain_binary (op : BinaryOp) : (binary op).all Line.isPlain = true := by
  cases op <;> rfl

theorem isPlain_putChar : putChar.all Line.isPlain = true := rfl

theorem isPlain_load (var : VarId) : (load var).isPlain = true := var.avoids_label

theorem isPlain_count (var : VarId) (direction : Direction) : (count var direction).isPlain = true := by
  cases direction <;> exact var.avoids_label

theorem isPlain_assign (var : VarId) (op : AssignOp) :
    (assign var op).all Line.isPlain = true := by
  have stores (make : Operand → Operand → Instruction)
      (plain : ∀ dst src, (make dst src).isPlain = (dst.isPlain && src.isPlain)) :
      (Line.inst (make (cell var) rax)).isPlain = true := by
    rw [Line.isPlain, plain, Bool.and_eq_true]
    exact ⟨var.avoids_label, rfl⟩
  cases op with
  | set => simp [assign, mov, stores .mov fun _ _ => rfl]
  | add => simp [assign, stores .add fun _ _ => rfl, isPlain_load]
  | sub => simp [assign, stores .sub fun _ _ => rfl, isPlain_load]
  | mul =>
    have product : (Line.inst (.imul .rax (cell var))).isPlain = true := var.avoids_label
    simp [assign, mov, stores .mov fun _ _ => rfl, product]

theorem isPlain_step (direction : Direction) (var : VarId) (timing : Timing) :
    (step direction var timing).all Line.isPlain = true := by
  cases timing with
  | before => simp [step, isPlain_load, isPlain_count]
  | after => simp [step, isPlain_load, isPlain_count]

end Snippet

/-! ### Trees -/

namespace Node

def HasNumeral (node : Node) : Prop :=
  ∀ id text, node = .integer id text → Text.IsNumeral text.toList

def LinesPlain (node : Node) : Prop := node.lines.all Line.isPlain = true

theorem isPlain_linesAll {body : List Node} (inner : ∀ n ∈ body, n.LinesPlain) :
    (linesAll body).all Line.isPlain = true := by
  induction body with
  | nil => simp [linesAll]
  | cons node rest ih =>
    obtain ⟨first, inner⟩ := List.forall_mem_cons.mp inner
    rw [linesAll, List.all_append, Bool.and_eq_true]
    exact ⟨first, ih inner⟩

theorem isPlain_linesOption {node : Option Node} (inner : ∀ n ∈ node, n.LinesPlain) :
    (linesOption node).all Line.isPlain = true := by
  cases node with
  | none => simp [linesOption]
  | some node => exact inner node rfl

theorem isPlain_linesCases {id : Nat} {subject : List Line} {cases : List (Node × Node)}
    (subjectPlain : subject.all Line.isPlain = true)
    (inner : ∀ entry ∈ cases, entry.1.LinesPlain ∧ entry.2.LinesPlain) (k : Nat) :
    (linesCases id subject k cases).all Line.isPlain = true := by
  have solid := LabelRole.avoids_label id
  induction cases generalizing k with
  | nil => simp [linesCases]
  | cons entry rest ih =>
    obtain ⟨value, body⟩ := entry
    obtain ⟨⟨valuePlain, bodyPlain⟩, inner⟩ := List.forall_mem_cons.mp inner
    have next : ∀ isLast,
        avoids separators (CodeLabel.afterCase CodeLabel.switchCase id k isLast).toList = true ∧
          avoids separators (CodeLabel.afterCase CodeLabel.switchCode id k isLast).toList = true := by
      rintro (_ | _)
      · exact ⟨solid (.switchCase (k + 1)), solid (.switchCode (k + 1))⟩
      · exact ⟨solid .switchDefault, solid .switchDefault⟩
    simp only [linesCases, List.all_append, List.all_cons, List.all_nil, Bool.and_true, Bool.and_eq_true]
    exact ⟨⟨⟨⟨⟨⟨⟨Line.isPlain_plainLabel (solid (.switchCase k)), valuePlain⟩, rfl⟩, subjectPlain⟩,
      rfl, rfl, (next rest.isEmpty).1, Line.isPlain_plainLabel (solid (.switchCode k))⟩, bodyPlain⟩,
      (next rest.isEmpty).2⟩, ih inner (k + 1)⟩

theorem linesPlain (node : Node) (numerals : ∀ n ∈ node.preorder, n.HasNumeral) : node.LinesPlain := by
  unfold LinesPlain
  induction node using inductionOn with
  | block id body inner =>
    rw [lines]
    exact isPlain_linesAll fun n member => inner n member (forall_child numerals member)
  | ifElse id cond thenPart elsePart condPlain thenPlain elsePlain =>
    have solid := LabelRole.avoids_label id
    simp only [lines, List.all_append, List.all_cons, List.all_nil, Bool.and_true, Bool.and_eq_true]
    exact ⟨⟨⟨⟨⟨condPlain (forall_child numerals (by simp [children])), rfl, solid .ifElse⟩,
      thenPlain (forall_child numerals (by simp [children]))⟩,
      solid .ifEnd, Line.isPlain_plainLabel (solid .ifElse)⟩,
      isPlain_linesOption fun n member =>
        elsePlain n member (forall_child numerals (by simp [children, Option.mem_def.mp member]))⟩,
      Line.isPlain_plainLabel (solid .ifEnd)⟩
  | whileLoop id cond body condPlain bodyPlain =>
    have solid := LabelRole.avoids_label id
    simp only [lines, List.all_append, List.all_cons, List.all_nil, Bool.and_true, Bool.and_eq_true]
    exact ⟨⟨⟨⟨Line.isPlain_plainLabel (solid .whileCondition),
      condPlain (forall_child numerals (by simp [children]))⟩, rfl, solid .whileEnd⟩,
      bodyPlain (forall_child numerals (by simp [children]))⟩,
      solid .whileCondition, Line.isPlain_plainLabel (solid .whileEnd)⟩
  | doWhile id body cond bodyPlain condPlain =>
    have solid := LabelRole.avoids_label id
    simp only [lines, List.all_append, List.all_cons, List.all_nil, Bool.and_true, Bool.and_eq_true]
    exact ⟨⟨⟨⟨Line.isPlain_plainLabel (solid .doStart),
      bodyPlain (forall_child numerals (by simp [children]))⟩,
      Line.isPlain_plainLabel (solid .doCondition)⟩,
      condPlain (forall_child numerals (by simp [children]))⟩,
      rfl, solid .doStart, Line.isPlain_plainLabel (solid .doEnd)⟩
  | switch id subject cases fallback subjectPlain casesPlain fallbackPlain =>
    have solid := LabelRole.avoids_label id
    simp only [lines, List.all_append, List.all_cons, List.all_nil, Bool.and_true, Bool.and_eq_true]
    refine ⟨⟨⟨isPlain_linesCases (subjectPlain (forall_child numerals (by simp [children]))) ?_ 0,
      Line.isPlain_plainLabel (solid .switchDefault)⟩, ?_⟩, Line.isPlain_plainLabel (solid .switchEnd)⟩
    · exact fun entry member =>
        ⟨(casesPlain entry member).1 (forall_child numerals (fst_mem_children member)),
          (casesPlain entry member).2 (forall_child numerals (snd_mem_children member))⟩
    · exact isPlain_linesOption fun n member =>
        fallbackPlain n member (forall_child numerals (by simp [children, Option.mem_def.mp member]))
  | assign id var op value valuePlain =>
    rw [lines, List.all_append, Bool.and_eq_true]
    exact ⟨valuePlain (forall_child numerals (by simp [children])), Snippet.isPlain_assign var op⟩
  | access id var => simp [lines, Snippet.isPlain_load]
  | integer id text =>
    obtain ⟨nonempty, digits⟩ := numerals _ (mem_preorder_self _) id text rfl
    rw [lines, List.all_cons, List.all_nil, Bool.and_true]
    have first : text.toList.head?.isSome = true := by simpa using nonempty
    exact Bool.and_eq_true_iff.mpr ⟨first, List.all_eq_true.mpr digits⟩
  | float id text => simp [lines]
  | unary id op operand operandPlain =>
    rw [lines, List.all_append, Bool.and_eq_true]
    exact ⟨operandPlain (forall_child numerals (by simp [children])), Snippet.isPlain_unary op⟩
  | binary id op lhs rhs lhsPlain rhsPlain =>
    simp only [lines, List.all_append, List.all_cons, List.all_nil, Bool.and_true, Bool.and_eq_true]
    exact ⟨⟨⟨⟨lhsPlain (forall_child numerals (by simp [children])), rfl⟩,
      rhsPlain (forall_child numerals (by simp [children]))⟩, rfl, rfl⟩, Snippet.isPlain_binary op⟩
  | step id direction var timing =>
    rw [lines]
    exact Snippet.isPlain_step direction var timing
  | call id func =>
    rw [lines, List.all_cons, List.all_nil, Bool.and_true]
    exact func.avoids_label
  | putChar id value valuePlain =>
    rw [lines, List.all_append, Bool.and_eq_true]
    exact ⟨valuePlain (forall_child numerals (by simp [children])), Snippet.isPlain_putChar⟩

end Node

/-! ### Programs -/

theorem Token.isWord_of_mem_scan {file source name : String} {token : Token}
    (member : token ∈ (scan file source).tokens) (kind : token.kind = .ident name) :
    IsWord name.toList := by
  obtain ⟨i, line, _, found⟩ := exists_scanLine_of_mem token member (by simp [kind])
  obtain ⟨before, lexeme, after, stands⟩ := (scanned_scanLine file (1 + i) line).stands token found
  have spells := stands.lexeme
  rw [kind] at spells
  cases spells with
  | ident word => exact word

theorem Token.IsWord.avoids_newline {text : List Char} (word : IsWord text) :
    avoids ['\n'] text = true := by
  cases text with
  | nil => cases word
  | cons c rest => exact Text.avoids_of_all (p := isWordChar) rfl word.2

namespace Program

theorem isPlain_functionLines {func : Function} (named : avoids ['\n'] func.name.toList = true)
    (body : ∀ n ∈ func.body, n.LinesPlain) : (functionLines func).all Line.isPlain = true := by
  simp only [functionLines, List.all_append, List.all_cons, List.all_nil, Bool.and_true,
    Bool.and_eq_true]
  exact ⟨⟨Bool.and_eq_true_iff.mpr ⟨func.id.avoids_label, named⟩, Node.isPlain_linesOption body⟩, rfl⟩

theorem isPlain_storage (program : Program) : program.storage.all Line.isPlain = true := by
  rw [storage, List.all_cons, Bool.and_eq_true, List.all_map]
  exact ⟨rfl, List.all_eq_true.mpr fun var _ => var.id.avoids_label⟩

theorem isPlain_startCode (entry : FuncId) : (startCode entry).all Line.isPlain = true := by
  simp only [startCode, List.all_cons, List.all_nil, Bool.and_true, Bool.and_eq_true]
  exact ⟨rfl, rfl, entry.avoids_label, rfl, rfl, rfl, rfl⟩

theorem isPlain_assemble {program : Program} {code : Assembly} (assembled : program.assemble = .ok code)
    (named : ∀ func ∈ program.functions, avoids ['\n'] func.name.toList = true)
    (bodies : ∀ func ∈ program.functions, ∀ n ∈ func.body, n.LinesPlain) :
    code.lines.all Line.isPlain = true := by
  obtain ⟨entry, _, lines⟩ := assemble_eq_ok assembled
  have functions : (program.functions.flatMap functionLines).all Line.isPlain = true := by
    rw [List.all_flatMap]
    exact List.all_eq_true.mpr fun func member =>
      isPlain_functionLines (named func member) (bodies func member)
  rw [lines, List.all_append, List.all_append, List.all_append, List.all_append, isPlain_storage,
    functions, isPlain_startCode]
  rfl

theorem isPlain_compile {file source : String} {code : Assembly}
    (compiled : compile file source = .ok code) : ∀ line ∈ code.lines, line.isPlain = true := by
  obtain ⟨program, parsed, assembled⟩ := compile_eq_ok compiled
  have read : (ofTokens (Token.scan file source).tokens).1 = some program :=
    congrArg Prod.fst parsed
  have wellFormed := ofTokens_wellFormed (Prod.ext read rfl)
  have spelled := named_ofTokens (Token.traced_scan file source) (Prod.ext read rfl)
  refine List.all_eq_true.mp
    (isPlain_assemble assembled (fun func member => ?_) fun func member body same => ?_)
  · obtain ⟨token, scanned, kind⟩ := spelled func member
    exact (Token.isWord_of_mem_scan scanned kind).avoids_newline
  · refine body.linesPlain fun n inside id text integer => ?_
    subst integer
    have inForest : Node.integer id text ∈ Node.forest program.bodies :=
      Node.mem_forest.mpr ⟨body, List.mem_filterMap.mpr ⟨func, member, same⟩, inside⟩
    rcases wellFormed.literal id text inForest with rfl | found
    · exact ⟨by decide, List.all_eq_true.mp rfl⟩
    · exact Token.isNumeral_of_mem_scan (Token.mem_integers.mpr found)

/-- The text of a compiled program determines its lines. -/
theorem compile_render_injective (file source file' source' : String) (code code' : Assembly)
    (compiled : compile file source = .ok code) (compiled' : compile file' source' = .ok code')
    (same : code.render = code'.render) : code.lines = code'.lines :=
  Assembly.lines_eq_of_render_eq (isPlain_compile compiled) (isPlain_compile compiled') same

/-- Sources in two files that differ in the names of a variable and of a type, in blanks and in a
comment. -/
theorem compile_render_injective_names :
    let source := "class P; P* x; void main() " ++ Text.braced "if (x == 1) putc(x); x = 2;"
    let source' := "class Q;\nQ* y; // moved\nvoid main() " ++ Text.braced "if (y==1) putc(y); y=2;"
    ∃ code code', compile "a" source = .ok code ∧ compile "b" source' = .ok code' ∧
      code.render = code'.render ∧ code.lines = code'.lines := by
  intro source source'
  have isOk : (compile "a" source).isOk = true := by decide +kernel
  have isOk' : (compile "b" source').isOk = true := by decide +kernel
  have texts : (compile "a" source).toOption.map Assembly.render =
      (compile "b" source').toOption.map Assembly.render := by
    decide +kernel
  obtain ⟨code, compiled⟩ := exists_code isOk
  obtain ⟨code', compiled'⟩ := exists_code isOk'
  rw [compiled, compiled'] at texts
  have same : code.render = code'.render := Option.some.inj texts
  exact ⟨code, code', compiled, compiled', same,
    compile_render_injective _ _ _ _ code code' compiled compiled' same⟩

end Program

end IonLang
