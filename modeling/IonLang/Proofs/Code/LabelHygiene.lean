import IonLang.Proofs.Code.Label
import IonLang.Proofs.Code.Lines
import IonLang.Proofs.Grammar.WellFormed
import Mathlib.Data.List.Nodup
import Mathlib.Data.List.Perm.Basic

/-!
# Labels of assembled programs

Every name that a unit defines is defined once, every jump and call goes to a label of the unit,
and every memory operand names storage that the unit reserves: `labels_assemble`. The names that
the lines of a tree define are those of its control structures, each counted once
(`count_definedNames`), although the code of a switch repeats its subject for every case: a subject
is an expression, and expressions define no names.
-/

namespace IonLang

/-! ### What instructions refer to -/

def Instruction.target? : Instruction → Option String
  | jmp label | jcc _ label | call label => some label
  | _ => none

def Operand.dataLabel? : Operand → Option String
  | mem label | addr label => some label
  | reg _ | imm _ => none

def Instruction.dataLabels : Instruction → List String
  | mov dst src | add dst src | sub dst src | cmp dst src => [dst, src].filterMap Operand.dataLabel?
  | imul _ op | inc op | dec op => op.dataLabel?.toList
  | _ => []

/-- A line of code that refers only to the given code labels and data labels. -/
def Line.Closed (targets cells : List String) : Line → Prop
  | inst i => (∀ label, i.target? = some label → label ∈ targets) ∧ ∀ label ∈ i.dataLabels, label ∈ cells
  | reserve .. => False
  | directive _ | label .. => True

namespace Node

/-! ### Names that a tree defines -/

def caseLabels (id k : Nat) : Nat → List LabelName
  | 0 => []
  | count + 1 =>
    .control id (.switchCase k) :: .control id (.switchCode k) :: caseLabels id (k + 1) count

/-- The labels that the code of a node defines, apart from those of its parts. -/
def ownLabels : Node → List LabelName
  | ifElse id .. => [.control id .ifElse, .control id .ifEnd]
  | whileLoop id .. => [.control id .whileCondition, .control id .whileEnd]
  | doWhile id .. => [.control id .doStart, .control id .doCondition, .control id .doEnd]
  | switch id _ cases _ =>
    caseLabels id 0 cases.length ++ [.control id .switchDefault, .control id .switchEnd]
  | _ => []

def treeLabels (trees : List Node) : List LabelName := (forest trees).flatMap ownLabels

theorem treeLabels_append (front back : List Node) :
    treeLabels (front ++ back) = treeLabels front ++ treeLabels back := by
  simp [treeLabels]

theorem treeLabels_cons (node : Node) (rest : List Node) :
    treeLabels (node :: rest) = node.ownLabels ++ treeLabels node.children ++ treeLabels rest := by
  simp [treeLabels, preorder_eq node]

theorem treeLabels_eq_nil {node : Node} (expression : node.IsExpression) : treeLabels [node] = [] := by
  simp only [treeLabels, forest_cons, forest_nil, List.append_nil, List.flatMap_eq_nil_iff]
  intro n member
  have here := expression n member
  cases n with
  | assign | access | integer | float | unary | binary | step | call => rfl
  | block | ifElse | whileLoop | doWhile | switch | putChar => cases here

def labelCount (text : String) (trees : List Node) : Nat :=
  ((treeLabels trees).map LabelName.text).count text

@[simp] theorem labelCount_nil (text : String) : labelCount text [] = 0 := rfl

@[simp] theorem labelCount_append (text : String) (front back : List Node) :
    labelCount text (front ++ back) = labelCount text front + labelCount text back := by
  simp [labelCount, treeLabels_append]

theorem labelCount_cons (text : String) (node : Node) (rest : List Node) :
    labelCount text (node :: rest) = labelCount text [node] + labelCount text rest :=
  labelCount_append text [node] rest

/-- A node counts its own labels and those of its parts. -/
theorem labelCount_singleton (text : String) (node : Node) :
    labelCount text [node] =
      (node.ownLabels.map LabelName.text).count text + labelCount text node.children := by
  have labels := treeLabels_cons node []
  simp only [labelCount, labels, List.map_append, List.count_append]
  rfl

/-- The lines of a tree define each label of the tree once. -/
def DefinesLabels (node : Node) : Prop :=
  ∀ text, (definedNames node.lines).count text = labelCount text [node]

theorem definedNames_linesAll {body : List Node} (inner : ∀ n ∈ body, n.DefinesLabels)
    (text : String) : (definedNames (linesAll body)).count text = labelCount text body := by
  induction body with
  | nil => rfl
  | cons node rest ih =>
    have first := inner node List.mem_cons_self text
    have others := ih fun n member => inner n (List.mem_cons_of_mem _ member)
    rw [labelCount_cons, linesAll, definedNames_append, List.count_append, first, others]

theorem definedNames_linesOption {node : Option Node} (inner : ∀ n ∈ node, n.DefinesLabels)
    (text : String) :
    (definedNames (linesOption node)).count text = labelCount text node.toList := by
  cases node with
  | none => rfl
  | some node => exact inner node rfl text

theorem definedNames_linesCases (id : Nat) {subject : List Line} (noNames : definedNames subject = [])
    {cases : List (Node × Node)}
    (inner : ∀ entry ∈ cases, entry.1.DefinesLabels ∧ entry.2.DefinesLabels) (text : String) :
    ∀ k, (definedNames (linesCases id subject k cases)).count text =
      ((caseLabels id k cases.length).map LabelName.text).count text +
        labelCount text (cases.flatMap fun entry => [entry.1, entry.2]) := by
  induction cases with
  | nil => intro k; simp [linesCases, caseLabels]
  | cons entry rest ih =>
    intro k
    obtain ⟨value, body⟩ := entry
    obtain ⟨valueNames, bodyNames⟩ := inner _ List.mem_cons_self
    have others := ih (fun entry member => inner entry (List.mem_cons_of_mem _ member)) (k + 1)
    have valueCount : (definedNames value.lines).count text = labelCount text [value] :=
      valueNames text
    have bodyCount : (definedNames body.lines).count text = labelCount text [body] := bodyNames text
    simp only [linesCases, definedNames_append, definedNames_plainLabel, definedNames_inst,
      definedNames_nil, noNames, List.count_append, List.count_cons, List.count_nil, List.length_cons,
      caseLabels, List.map_cons, LabelName.text, LabelRole.label, List.flatMap_cons, List.cons_append,
      List.nil_append, labelCount_cons text _ (_ :: _)]
    rw [labelCount_cons text _ (List.flatMap _ _)]
    omega

theorem count_definedNames (node : Node) (shaped : ∀ n ∈ node.preorder, n.Shaped) :
    node.DefinesLabels := by
  induction node using inductionOn with
  | block id body inner =>
    intro text
    have parts := fun n member => inner n member (forall_child shaped member)
    rw [lines, definedNames_linesAll parts, labelCount_singleton]
    simp [ownLabels, children]
  | ifElse id cond thenPart elsePart condNames thenNames elseNames =>
    intro text
    have condCount := condNames (forall_child shaped (by simp [children])) text
    have thenCount := thenNames (forall_child shaped (by simp [children])) text
    have elseCount := definedNames_linesOption (fun n member =>
      elseNames n member (forall_child shaped (by simp [children, Option.mem_def.mp member]))) text
    have parts : labelCount text (ifElse id cond thenPart elsePart).children =
        labelCount text [cond] + labelCount text [thenPart] + labelCount text elsePart.toList := by
      rw [children, labelCount_cons, labelCount_cons text thenPart, Nat.add_assoc]
    rw [labelCount_singleton, parts]
    simp only [lines, definedNames_append, definedNames_plainLabel, definedNames_inst,
      definedNames_nil, Snippet.definedNames_testZero, List.count_append, List.count_cons,
      List.count_nil, ownLabels, List.map_cons, List.map_nil, LabelName.text, LabelRole.label,
      condCount, thenCount, elseCount]
    omega
  | whileLoop id cond body condNames bodyNames =>
    intro text
    have condCount := condNames (forall_child shaped (by simp [children])) text
    have bodyCount := bodyNames (forall_child shaped (by simp [children])) text
    have parts : labelCount text (whileLoop id cond body).children =
        labelCount text [cond] + labelCount text [body] := by
      rw [children, labelCount_cons]
    rw [labelCount_singleton, parts]
    simp only [lines, definedNames_append, definedNames_plainLabel, definedNames_inst,
      definedNames_nil, Snippet.definedNames_testZero, List.count_append, List.count_cons,
      List.count_nil, ownLabels, List.map_cons, List.map_nil, LabelName.text, LabelRole.label,
      condCount, bodyCount]
    omega
  | doWhile id body cond bodyNames condNames =>
    intro text
    have condCount := condNames (forall_child shaped (by simp [children])) text
    have bodyCount := bodyNames (forall_child shaped (by simp [children])) text
    have parts : labelCount text (doWhile id body cond).children =
        labelCount text [body] + labelCount text [cond] := by
      rw [children, labelCount_cons]
    rw [labelCount_singleton, parts]
    simp only [lines, definedNames_append, definedNames_plainLabel, definedNames_inst,
      definedNames_nil, Snippet.definedNames_testZero, List.count_append, List.count_cons,
      List.count_nil, ownLabels, List.map_cons, List.map_nil, LabelName.text, LabelRole.label,
      condCount, bodyCount]
    omega
  | switch id subject cases fallback subjectNames caseNames fallbackNames =>
    intro text
    -- The subject stands in the code once for every case, but it defines no names.
    have noLabels := treeLabels_eq_nil (shaped _ (mem_preorder_self _)).1
    have subjectCount (text : String) : (definedNames subject.lines).count text = 0 := by
      rw [subjectNames (forall_child shaped (by simp [children])) text, labelCount, noLabels]
      rfl
    have noNames : definedNames subject.lines = [] :=
      List.eq_nil_iff_forall_not_mem.mpr fun name => List.count_eq_zero.mp (subjectCount name)
    have casesCount := definedNames_linesCases id noNames (fun entry member =>
      ⟨(caseNames entry member).1 (forall_child shaped (fst_mem_children member)),
        (caseNames entry member).2 (forall_child shaped (snd_mem_children member))⟩) text 0
    have fallbackCount := definedNames_linesOption (fun n member =>
      fallbackNames n member (forall_child shaped (by simp [children, Option.mem_def.mp member]))) text
    have parts : labelCount text (switch id subject cases fallback).children =
        labelCount text (cases.flatMap fun entry => [entry.1, entry.2]) +
          labelCount text fallback.toList := by
      have subjectLabels : labelCount text [subject] = 0 := by rw [labelCount, noLabels]; rfl
      rw [children, labelCount_append, labelCount_cons, subjectLabels, Nat.zero_add]
    rw [labelCount_singleton, parts]
    simp only [lines, definedNames_append, definedNames_plainLabel, definedNames_nil,
      List.count_append, List.count_cons, List.count_nil, ownLabels, List.map_append, List.map_cons,
      List.map_nil, LabelName.text, LabelRole.label, casesCount, fallbackCount]
    omega
  | access | integer | float | step | call =>
    intro text
    rw [labelCount_singleton]
    simp [lines, ownLabels, children, Snippet.load]
  | assign id _ _ part names | unary id _ part names | putChar id part names =>
    intro text
    have partCount := names (forall_child shaped (by simp [children])) text
    rw [labelCount_singleton]
    simp [lines, ownLabels, children, partCount, Snippet.putChar]
  | binary id op lhs rhs lhsNames rhsNames =>
    intro text
    have lhsCount := lhsNames (forall_child shaped (by simp [children])) text
    have rhsCount := rhsNames (forall_child shaped (by simp [children])) text
    rw [labelCount_singleton, children, labelCount_cons]
    simp [lines, ownLabels, lhsCount, rhsCount]

/-! ### Labels that a tree refers to -/

/-- The labels to which the code of a node refers on its own are among the given ones. -/
def Supplied (targets cells : List String) (node : Node) : Prop :=
  (∀ name ∈ node.ownLabels, name.text ∈ targets) ∧
    match node with
    | assign _ var _ _ | access _ var | step _ _ var _ => var.label ∈ cells
    | call _ func => func.label ∈ targets
    | _ => True

def AllClosed (targets cells : List String) (lines : List Line) : Prop :=
  ∀ line ∈ lines, line.Closed targets cells

variable {targets cells : List String}

@[simp] theorem allClosed_nil : AllClosed targets cells [] := nofun

@[simp] theorem allClosed_append {front back : List Line} :
    AllClosed targets cells (front ++ back) ↔
      AllClosed targets cells front ∧ AllClosed targets cells back :=
  List.forall_mem_append

@[simp] theorem allClosed_cons {line : Line} {rest : List Line} :
    AllClosed targets cells (line :: rest) ↔ line.Closed targets cells ∧ AllClosed targets cells rest :=
  List.forall_mem_cons

@[simp] theorem closed_label (name : String) (comment : Option String) :
    (Line.label name comment).Closed targets cells := trivial

@[simp] theorem closed_plainLabel (name : String) : (Line.plainLabel name).Closed targets cells :=
  trivial

@[simp] theorem closed_jmp {label : String} :
    (Line.inst (.jmp label)).Closed targets cells ↔ label ∈ targets := by
  simp [Line.Closed, Instruction.target?, Instruction.dataLabels]

@[simp] theorem closed_jcc {cond : Condition} {label : String} :
    (Line.inst (.jcc cond label)).Closed targets cells ↔ label ∈ targets := by
  simp [Line.Closed, Instruction.target?, Instruction.dataLabels]

@[simp] theorem closed_call {label : String} :
    (Line.inst (.call label)).Closed targets cells ↔ label ∈ targets := by
  simp [Line.Closed, Instruction.target?, Instruction.dataLabels]

/-- An instruction that refers to no labels. -/
theorem closed_inst {i : Instruction} (noTarget : i.target? = none) (noCells : i.dataLabels = []) :
    (Line.inst i).Closed targets cells := by
  simp [Line.Closed, noTarget, noCells]

@[simp] theorem closed_testZero : Snippet.testZero.Closed targets cells := closed_inst rfl rfl

theorem allClosed_unary (op : UnaryOp) : AllClosed targets cells (Snippet.unary op) := by
  cases op <;> simp [Snippet.unary, Snippet.testZero, Snippet.flag, Snippet.rax, Line.Closed,
    Instruction.target?, Instruction.dataLabels, Operand.dataLabel?]

theorem allClosed_binary (op : BinaryOp) : AllClosed targets cells (Snippet.binary op) := by
  cases op <;> simp [Snippet.binary, Snippet.compare, Snippet.flag, Snippet.rax, Snippet.rbx,
    Line.Closed, Instruction.target?, Instruction.dataLabels, Operand.dataLabel?]

theorem allClosed_assign {var : VarId} (cell : var.label ∈ cells) (op : AssignOp) :
    AllClosed targets cells (Snippet.assign var op) := by
  cases op <;> simp [Snippet.assign, Snippet.load, Snippet.mov, Snippet.cell, Snippet.rax, Line.Closed,
    Instruction.target?, Instruction.dataLabels, Operand.dataLabel?, cell]

theorem allClosed_step {var : VarId} (cell : var.label ∈ cells) (direction : Direction)
    (timing : Timing) : AllClosed targets cells (Snippet.step direction var timing) := by
  cases timing <;> cases direction <;> simp [Snippet.step, Snippet.count, Snippet.load, Snippet.mov,
    Snippet.cell, Snippet.rax, Line.Closed, Instruction.target?, Instruction.dataLabels,
    Operand.dataLabel?, cell]

theorem allClosed_putChar (cell : charCell ∈ cells) : AllClosed targets cells Snippet.putChar := by
  simp [Snippet.putChar, Snippet.mov, Snippet.rax, Line.Closed, Instruction.target?,
    Instruction.dataLabels, Operand.dataLabel?, cell]

theorem mem_caseLabels {id : Nat} {name : LabelName} :
    ∀ {count k : Nat}, name ∈ caseLabels id k count ↔
      ∃ j, k ≤ j ∧ j < k + count ∧
        (name = .control id (.switchCase j) ∨ name = .control id (.switchCode j))
  | 0, k => by
    simp only [caseLabels, List.not_mem_nil, false_iff]
    rintro ⟨j, low, high, _⟩
    omega
  | count + 1, k => by
    rw [caseLabels, List.mem_cons, List.mem_cons, mem_caseLabels]
    constructor
    · rintro (same | same | ⟨j, low, high, same⟩)
      · exact ⟨k, by omega, by omega, .inl same⟩
      · exact ⟨k, by omega, by omega, .inr same⟩
      · exact ⟨j, by omega, by omega, same⟩
    · rintro ⟨j, low, high, same⟩
      by_cases here : j = k
      · subst here
        exact same.elim .inl fun code => .inr (.inl code)
      · exact .inr (.inr ⟨j, by omega, by omega, same⟩)

theorem allClosed_linesAll {body : List Node}
    (inner : ∀ n ∈ body, AllClosed targets cells n.lines) : AllClosed targets cells (linesAll body) := by
  induction body with
  | nil => exact allClosed_nil
  | cons node rest ih =>
    rw [linesAll, allClosed_append]
    exact ⟨inner node List.mem_cons_self, ih fun n member => inner n (List.mem_cons_of_mem _ member)⟩

theorem allClosed_linesOption {node : Option Node}
    (inner : ∀ n ∈ node, AllClosed targets cells n.lines) :
    AllClosed targets cells (linesOption node) := by
  cases node with
  | none => exact allClosed_nil
  | some node => exact inner node rfl

theorem allClosed_linesCases {id : Nat} {subject : List Line} {cases : List (Node × Node)}
    (subjectClosed : AllClosed targets cells subject)
    (fallback : CodeLabel.switchDefault id ∈ targets)
    (inner : ∀ entry ∈ cases,
      AllClosed targets cells entry.1.lines ∧ AllClosed targets cells entry.2.lines) :
    ∀ k, (∀ j, k ≤ j → j < k + cases.length →
        CodeLabel.switchCase id j ∈ targets ∧ CodeLabel.switchCode id j ∈ targets) →
      AllClosed targets cells (linesCases id subject k cases) := by
  induction cases with
  | nil => intro k _; exact allClosed_nil
  | cons entry rest ih =>
    intro k labels
    obtain ⟨value, body⟩ := entry
    rw [List.length_cons] at labels
    -- What follows a case is the next case, if there is one.
    have next (label : Nat → Nat → String)
        (supplied : ∀ j, k ≤ j → j < k + (rest.length + 1) → label id j ∈ targets) :
        CodeLabel.afterCase label id k rest.isEmpty ∈ targets := by
      cases rest with
      | nil => exact fallback
      | cons _ others => exact supplied (k + 1) (by omega) (by rw [List.length_cons]; omega)
    obtain ⟨valueClosed, bodyClosed⟩ := inner _ List.mem_cons_self
    have others := ih (fun entry member => inner entry (List.mem_cons_of_mem _ member)) (k + 1)
      fun j low high => labels j (by omega) (by omega)
    have nextTest := next CodeLabel.switchCase fun j low high => (labels j low high).1
    have nextBody := next CodeLabel.switchCode fun j low high => (labels j low high).2
    simp only [linesCases, allClosed_append, allClosed_cons, allClosed_nil, closed_plainLabel,
      closed_jcc, closed_jmp, and_true, true_and]
    exact ⟨⟨⟨⟨⟨⟨valueClosed, closed_inst rfl rfl⟩, subjectClosed⟩, closed_inst rfl rfl,
      closed_inst rfl rfl, nextTest⟩, bodyClosed⟩, nextBody⟩, others⟩

theorem allClosed_lines (node : Node) (buffer : charCell ∈ cells)
    (supplied : ∀ n ∈ node.preorder, n.Supplied targets cells) :
    AllClosed targets cells node.lines := by
  induction node using inductionOn with
  | block id body inner =>
    rw [lines]
    exact allClosed_linesAll fun n member => inner n member (forall_child supplied member)
  | ifElse id cond thenPart elsePart condClosed thenClosed elseClosed =>
    have own := (supplied _ (mem_preorder_self _)).1
    simp only [lines, allClosed_append, allClosed_cons, allClosed_nil, closed_plainLabel,
      closed_testZero, closed_jcc, closed_jmp, and_true, true_and]
    exact ⟨⟨⟨⟨condClosed (forall_child supplied (by simp [children])),
      own (.control id .ifElse) (by simp [ownLabels])⟩,
      thenClosed (forall_child supplied (by simp [children]))⟩,
      own (.control id .ifEnd) (by simp [ownLabels])⟩,
      allClosed_linesOption fun n member =>
        elseClosed n member (forall_child supplied (by simp [children, Option.mem_def.mp member]))⟩
  | whileLoop id cond body condClosed bodyClosed =>
    have own := (supplied _ (mem_preorder_self _)).1
    simp only [lines, allClosed_append, allClosed_cons, allClosed_nil, closed_plainLabel,
      closed_testZero, closed_jcc, closed_jmp, and_true, true_and]
    exact ⟨⟨⟨condClosed (forall_child supplied (by simp [children])),
      own (.control id .whileEnd) (by simp [ownLabels])⟩,
      bodyClosed (forall_child supplied (by simp [children]))⟩,
      own (.control id .whileCondition) (by simp [ownLabels])⟩
  | doWhile id body cond bodyClosed condClosed =>
    have own := (supplied _ (mem_preorder_self _)).1
    simp only [lines, allClosed_append, allClosed_cons, allClosed_nil, closed_plainLabel,
      closed_testZero, closed_jcc, and_true, true_and]
    exact ⟨⟨bodyClosed (forall_child supplied (by simp [children])),
      condClosed (forall_child supplied (by simp [children]))⟩,
      own (.control id .doStart) (by simp [ownLabels])⟩
  | switch id subject cases fallback subjectClosed casesClosed fallbackClosed =>
    have own := (supplied _ (mem_preorder_self _)).1
    simp only [lines, allClosed_append, allClosed_cons, allClosed_nil, closed_plainLabel, and_true]
    refine ⟨allClosed_linesCases (subjectClosed (forall_child supplied (by simp [children])))
      (own (.control id .switchDefault) (by simp [ownLabels])) ?_ 0 ?_, ?_⟩
    · exact fun entry member =>
        ⟨(casesClosed entry member).1 (forall_child supplied (fst_mem_children member)),
          (casesClosed entry member).2 (forall_child supplied (snd_mem_children member))⟩
    · intro j low high
      have inCases {name : LabelName} (same : name = .control id (.switchCase j) ∨
          name = .control id (.switchCode j)) : name.text ∈ targets :=
        own name (List.mem_append_left _ (mem_caseLabels.mpr ⟨j, low, high, same⟩))
      exact ⟨inCases (.inl rfl), inCases (.inr rfl)⟩
    · exact allClosed_linesOption fun n member =>
        fallbackClosed n member (forall_child supplied (by simp [children, Option.mem_def.mp member]))
  | assign id var op value valueClosed =>
    rw [lines, allClosed_append]
    exact ⟨valueClosed (forall_child supplied (by simp [children])),
      allClosed_assign (supplied _ (mem_preorder_self _)).2 op⟩
  | access id var =>
    have cell := (supplied _ (mem_preorder_self _)).2
    simpa [lines, Snippet.load, Snippet.mov, Snippet.cell, Snippet.rax, Line.Closed,
      Instruction.target?, Instruction.dataLabels, Operand.dataLabel?] using cell
  | integer id text => simp [lines, Snippet.mov, Snippet.rax, Line.Closed, Instruction.target?,
      Instruction.dataLabels, Operand.dataLabel?]
  | float id text => exact allClosed_nil
  | unary id op operand operandClosed =>
    rw [lines, allClosed_append]
    exact ⟨operandClosed (forall_child supplied (by simp [children])), allClosed_unary op⟩
  | binary id op lhs rhs lhsClosed rhsClosed =>
    simp only [lines, allClosed_append, allClosed_cons, allClosed_nil, and_true]
    exact ⟨⟨⟨⟨lhsClosed (forall_child supplied (by simp [children])),
      closed_inst rfl rfl⟩, rhsClosed (forall_child supplied (by simp [children]))⟩,
      closed_inst rfl rfl, closed_inst rfl rfl⟩, allClosed_binary op⟩
  | step id direction var timing =>
    rw [lines]
    exact allClosed_step (supplied _ (mem_preorder_self _)).2 direction timing
  | call id func =>
    have target := (supplied _ (mem_preorder_self _)).2
    simpa [lines] using target
  | putChar id value valueClosed =>
    rw [lines, allClosed_append]
    exact ⟨valueClosed (forall_child supplied (by simp [children])), allClosed_putChar buffer⟩

end Node

/-! ### Distinct names -/

namespace Node

theorem nodup_caseLabels (id : Nat) : ∀ count k, (caseLabels id k count).Nodup
  | 0, _ => List.nodup_nil
  | count + 1, k => by
    have behind {name : LabelName} (member : name ∈ caseLabels id (k + 1) count) :
        name ≠ .control id (.switchCase k) ∧ name ≠ .control id (.switchCode k) := by
      obtain ⟨j, low, _, rfl | rfl⟩ := mem_caseLabels.mp member <;> simp <;> omega
    rw [caseLabels, List.nodup_cons, List.nodup_cons]
    refine ⟨?_, fun member => (behind member).2 rfl, nodup_caseLabels id count (k + 1)⟩
    simp only [List.mem_cons, LabelName.control.injEq, reduceCtorEq, and_false, false_or]
    exact fun member => (behind member).1 rfl

theorem nodup_ownLabels (node : Node) : node.ownLabels.Nodup := by
  cases node with
  | switch id subject cases fallback =>
    rw [ownLabels, List.nodup_append]
    refine ⟨nodup_caseLabels id _ _, by simp, ?_⟩
    intro name inCases other last
    obtain ⟨j, _, _, rfl | rfl⟩ := mem_caseLabels.mp inCases <;> grind
  | _ => simp [ownLabels]

/-- The labels of a node carry its number. -/
theorem exists_role_of_mem_ownLabels {node : Node} {name : LabelName}
    (member : name ∈ node.ownLabels) : ∃ role, name = .control node.id role := by
  cases node with
  | switch id subject cases fallback =>
    rw [ownLabels, List.mem_append, mem_caseLabels] at member
    rcases member with ⟨j, _, _, rfl | rfl⟩ | last
    · exact ⟨_, rfl⟩
    · exact ⟨_, rfl⟩
    · simp only [List.mem_cons, List.not_mem_nil, or_false] at last
      exact last.elim (fun same => ⟨_, same⟩) fun same => ⟨_, same⟩
  | ifElse | whileLoop | doWhile =>
    simp only [ownLabels, List.mem_cons, List.not_mem_nil, or_false] at member
    grind [Node.id]
  | _ => simp [ownLabels] at member

theorem nodup_treeLabels {trees : List Node} (distinct : ((forest trees).map Node.id).Nodup) :
    (treeLabels trees).Nodup := by
  refine List.nodup_flatMap.mpr ⟨fun n _ => nodup_ownLabels n, ?_⟩
  refine (List.pairwise_map.mp distinct).imp ?_
  intro n other apart name here there
  obtain ⟨role, rfl⟩ := exists_role_of_mem_ownLabels here
  obtain ⟨_, same⟩ := exists_role_of_mem_ownLabels there
  exact apart (LabelName.control.inj same).1

end Node

namespace Program

open Node (forest treeLabels labelCount AllClosed)

def labelNames (program : Program) : List LabelName :=
  [.charCell, .start, .exit] ++ (program.vars.map fun var => .var var.id) ++
    (program.functions.map fun func => .function func.id) ++ treeLabels program.bodies

theorem nodup_labelNames {tokens : List Token} {program : Program}
    (wellFormed : program.WellFormed tokens) : program.labelNames.Nodup := by
  have vars : (program.vars.map fun var => LabelName.var var.id).Nodup := by
    have indices : (program.vars.map fun var => var.id.index).Nodup :=
      wellFormed.numbered.vars ▸ List.nodup_range
    refine List.Nodup.of_map (fun | .var id => id.index | _ => 0) ?_
    rw [List.map_map]
    exact indices
  have functions : (program.functions.map fun func => LabelName.function func.id).Nodup := by
    have indices : (program.functions.map fun func => func.id.index).Nodup :=
      wellFormed.numbered.functions ▸ List.nodup_range
    refine List.Nodup.of_map (fun | .function id => id.index | _ => 0) ?_
    rw [List.map_map]
    exact indices
  have control {name : LabelName} (member : name ∈ treeLabels program.bodies) :
      ∃ id role, name = .control id role := by
    obtain ⟨n, _, own⟩ := List.mem_flatMap.mp member
    obtain ⟨role, same⟩ := Node.exists_role_of_mem_ownLabels own
    exact ⟨n.id, role, same⟩
  -- The four parts hold names of different kinds.
  simp only [labelNames, List.nodup_append]
  refine ⟨⟨⟨by simp, vars, ?_⟩, functions, ?_⟩, Node.nodup_treeLabels wellFormed.distinct, ?_⟩
  · intro name fixed other member
    obtain ⟨_, _, rfl⟩ := List.mem_map.mp member
    rintro rfl
    simp at fixed
  · intro name before other member
    obtain ⟨_, _, rfl⟩ := List.mem_map.mp member
    rintro rfl
    simp at before
  · intro name before other member
    obtain ⟨_, _, rfl⟩ := control member
    rintro rfl
    simp at before

theorem count_functionLines {functions : List Function}
    (shaped : ∀ n ∈ forest (functions.filterMap Function.body), n.Shaped) (text : String) :
    (definedNames (functions.flatMap functionLines)).count text =
      (functions.map fun func => func.id.label).count text +
        labelCount text (functions.filterMap Function.body) := by
  induction functions with
  | nil => rfl
  | cons func rest ih =>
    obtain ⟨id, name, body⟩ := func
    have bodies : (⟨id, name, body⟩ :: rest : List Function).filterMap Function.body =
        body.toList ++ rest.filterMap Function.body := by
      cases body <;> rfl
    rw [bodies, Node.forest_append] at shaped
    have others := ih fun n member => shaped n (List.mem_append_right _ member)
    have bodyCount : (definedNames (Node.linesOption body)).count text =
        labelCount text body.toList :=
      Node.definedNames_linesOption (fun node same => Node.count_definedNames node fun n member =>
        shaped n (List.mem_append_left _
          (Node.mem_forest.mpr ⟨node, Option.mem_toList.mpr same, member⟩))) text
    rw [bodies, Node.labelCount_append]
    simp only [List.flatMap_cons, functionLines, definedNames_append, definedNames_label,
      definedNames_inst, definedNames_nil, List.count_append, List.count_cons, List.count_nil,
      List.map_cons, bodyCount, others]
    omega

theorem mem_definedNames_functionLines {functions : List Function} {func : Function}
    (member : func ∈ functions) : func.id.label ∈ definedNames (functions.flatMap functionLines) := by
  refine List.mem_filterMap.mpr ⟨.label func.id.label (some func.name), ?_, rfl⟩
  exact List.mem_flatMap.mpr ⟨func, member, by simp [functionLines]⟩

theorem definedNames_storage (vars : List Variable) :
    definedNames (vars.map fun var => .reserve var.id.label .qword 1) =
      vars.map fun var => var.id.label := by
  induction vars with
  | nil => rfl
  | cons var rest ih => rw [List.map_cons, definedNames_reserve, ih, List.map_cons]

/-- The unit of a program defines its names, each once. -/
theorem labels_perm {tokens : List Token} {program : Program}
    (wellFormed : program.WellFormed tokens) {code : Assembly} (h : program.assemble = .ok code) :
    code.labels.Perm (program.labelNames.map LabelName.text) := by
  obtain ⟨entry, _, lines⟩ := assemble_eq_ok h
  rw [List.perm_iff_count]
  intro text
  have functions := count_functionLines wellFormed.shaped text
  change (definedNames code.lines).count text = _
  rw [lines]
  simp only [definedNames_append, definedNames_directive, definedNames_nil, storage,
    definedNames_reserve, definedNames_storage, startCode, definedNames_plainLabel,
    definedNames_inst, Snippet.definedNames_mov, List.count_append, List.count_cons, List.count_nil,
    functions, labelNames, List.map_append, List.map_cons, List.map_nil, List.map_map,
    Function.comp_def, LabelName.text, labelCount, bodies]
  omega

def cells (program : Program) : List String :=
  charCell :: program.vars.map fun var => var.id.label

/-- The code of the functions refers to its own labels and to the storage. -/
theorem allClosed_functionLines {tokens : List Token} {program : Program}
    (wellFormed : program.WellFormed tokens) :
    AllClosed (definedNames (program.functions.flatMap functionLines)) program.cells
      (program.functions.flatMap functionLines) := by
  have counted := count_functionLines wellFormed.shaped
  have treeDefined {n : Node} (inside : n ∈ forest program.bodies) {name : LabelName}
      (own : name ∈ n.ownLabels) :
      name.text ∈ definedNames (program.functions.flatMap functionLines) := by
    have inTrees : 0 < labelCount name.text program.bodies :=
      List.count_pos_iff.mpr (List.mem_map_of_mem (List.mem_flatMap.mpr ⟨n, inside, own⟩))
    refine List.count_pos_iff.mp ?_
    rw [counted]
    exact Nat.add_pos_right _ inTrees
  have supplied {n : Node} (inside : n ∈ forest program.bodies) :
      n.Supplied (definedNames (program.functions.flatMap functionLines)) program.cells := by
    refine ⟨fun name own => treeDefined inside own, ?_⟩
    have resolved := wellFormed.resolved n inside
    have cell {var : VarId} (known : ∃ known ∈ program.vars, known.id = var) :
        var.label ∈ program.cells := by
      obtain ⟨known, member, rfl⟩ := known
      exact List.mem_cons_of_mem _ (List.mem_map_of_mem member)
    cases n with
    | assign | access | step => exact cell resolved
    | call id func =>
      obtain ⟨known, member, rfl⟩ := resolved
      exact mem_definedNames_functionLines member
    | _ => trivial
  intro line member
  obtain ⟨func, inProgram, inFunction⟩ := List.mem_flatMap.mp member
  refine (?_ : AllClosed _ _ (functionLines func)) line inFunction
  simp only [functionLines, Node.allClosed_append, Node.allClosed_cons, Node.closed_label,
    Node.allClosed_nil, and_true, true_and]
  refine ⟨Node.allClosed_linesOption fun body same => ?_, Node.closed_inst rfl rfl⟩
  refine Node.allClosed_lines body List.mem_cons_self fun n inside => supplied ?_
  exact Node.mem_forest.mpr ⟨body, List.mem_filterMap.mpr ⟨func, inProgram, same⟩, inside⟩

/-- In code, a name that is defined is a code label. -/
theorem exists_label_of_mem_definedNames {targets cells : List String} {lines : List Line}
    (closed : AllClosed targets cells lines) {name : String} (member : name ∈ definedNames lines) :
    ∃ comment, .label name comment ∈ lines := by
  obtain ⟨line, inside, defines⟩ := List.mem_filterMap.mp member
  cases line with
  | label found comment => cases defines; exact ⟨comment, inside⟩
  | reserve found width count => exact (closed _ inside).elim
  | directive text => cases defines
  | inst i => cases defines

theorem exists_reserve_of_mem_cells {program : Program} {name : String}
    (member : name ∈ program.cells) : ∃ width count, .reserve name width count ∈ program.storage := by
  rcases List.mem_cons.mp member with rfl | inVars
  · exact ⟨.byte, 1, List.mem_cons_self⟩
  · obtain ⟨var, inside, rfl⟩ := List.mem_map.mp inVars
    exact ⟨.qword, 1, List.mem_cons_of_mem _ (List.mem_map_of_mem inside)⟩

/-- An instruction of the unit belongs to a function, calls the entry function or refers to no
labels. -/
theorem inst_mem_assemble {program : Program} {entry : Function} {i : Instruction}
    (member : .inst i ∈ [.directive "BITS 64", .directive "segment .bss"] ++ program.storage ++
      [.directive "segment .text"] ++ program.functions.flatMap functionLines ++ startCode entry.id) :
    .inst i ∈ program.functions.flatMap functionLines ∨ i = .call entry.id.label ∨
      i.target? = none ∧ i.dataLabels = [] := by
  simp only [List.mem_append, List.mem_cons, List.not_mem_nil, or_false, reduceCtorEq, false_or,
    storage, List.mem_map, and_false, exists_false, startCode, Line.plainLabel, Snippet.mov,
    Line.inst.injEq] at member
  rcases member with inside | rfl | rfl | rfl | rfl
  · exact .inl inside
  · exact .inr (.inl rfl)
  · exact .inr (.inr ⟨rfl, rfl⟩)
  · exact .inr (.inr ⟨rfl, rfl⟩)
  · exact .inr (.inr ⟨rfl, rfl⟩)

theorem distinct_names {tokens : List Token} {program : Program} {code : Assembly}
    (wellFormed : program.WellFormed tokens) (assembled : program.assemble = .ok code) :
    (definedNames code.lines).Nodup := by
  have names := (nodup_labelNames wellFormed).map LabelName.text_injective
  exact (labels_perm wellFormed assembled).nodup_iff.mpr names

/-- The names of an assembled program are distinct, jumps and calls go to labels of its code, and
memory operands name its storage. -/
theorem labels_assemble (tokens : List Token) (program : Program) (errors : List Diagnostic)
    (code : Assembly) (parsed : ofTokens tokens = (some program, errors))
    (assembled : program.assemble = .ok code) :
    code.labels.Nodup ∧
      (∀ i, .inst i ∈ code.lines → ∀ label, i.target? = some label →
        ∃ comment, .label label comment ∈ code.lines) ∧
      ∀ i, .inst i ∈ code.lines → ∀ label ∈ i.dataLabels,
        ∃ width count, .reserve label width count ∈ code.lines := by
  have wellFormed := ofTokens_wellFormed parsed
  have closed := allClosed_functionLines wellFormed
  obtain ⟨entry, found, lines⟩ := assemble_eq_ok assembled
  have toLabel {name : String}
      (member : name ∈ definedNames (program.functions.flatMap functionLines)) :
      ∃ comment, .label name comment ∈ code.lines := by
    obtain ⟨comment, inside⟩ := exists_label_of_mem_definedNames closed member
    exact ⟨comment, by simp [lines, inside]⟩
  refine ⟨distinct_names wellFormed assembled, ?_, ?_⟩
  · intro i member label target
    rcases inst_mem_assemble (lines ▸ member) with inside | rfl | ⟨none, _⟩
    · exact toLabel ((closed _ inside).1 label target)
    · cases target
      exact toLabel (mem_definedNames_functionLines (List.mem_of_find?_eq_some found))
    · rw [none] at target
      cases target
  · intro i member label data
    rcases inst_mem_assemble (lines ▸ member) with inside | rfl | ⟨_, none⟩
    · obtain ⟨width, count, stored⟩ :=
        exists_reserve_of_mem_cells ((closed _ inside).2 label data)
      exact ⟨width, count, by simp [lines, stored]⟩
    · cases data
    · rw [none] at data
      cases data

theorem exists_assembled {tokens : List Token} {errors : List Diagnostic}
    (reported : (ofTokens tokens).2 = errors)
    (assembles : ((ofTokens tokens).1.bind fun program => program.assemble.toOption).isSome = true) :
    ∃ program code, ofTokens tokens = (some program, errors) ∧ program.assemble = .ok code := by
  obtain ⟨code, found⟩ := Option.isSome_iff_exists.mp assembles
  obtain ⟨program, parsed, result⟩ := Option.bind_eq_some_iff.mp found
  refine ⟨program, code, Prod.ext parsed reported, ?_⟩
  cases unit : program.assemble with
  | error reason =>
    rw [unit] at result
    cases result
  | ok unit =>
    rw [unit] at result
    cases result
    rfl

/-- A loop inside a switch. -/
theorem labels_assemble_switch :
    let source := "uint64 x; void main() " ++
      Text.braced ("switch (x) " ++ Text.braced "case 1: while (x) x = 0;")
    ∃ program code, ofTokens (Token.scan "f" source).tokens = (some program, []) ∧
      program.assemble = .ok code ∧ code.labels.Nodup ∧
        (∀ i, .inst i ∈ code.lines → ∀ label, i.target? = some label →
          ∃ comment, .label label comment ∈ code.lines) ∧
        ∀ i, .inst i ∈ code.lines → ∀ label ∈ i.dataLabels,
          ∃ width count, .reserve label width count ∈ code.lines := by
  intro source
  obtain ⟨program, code, parsed, assembled⟩ : ∃ program code,
      ofTokens (Token.scan "f" source).tokens = (some program, []) ∧ program.assemble = .ok code :=
    exists_assembled (by decide +kernel) (by decide +kernel)
  exact ⟨program, code, parsed, assembled, labels_assemble _ _ _ _ parsed assembled⟩

end Program

end IonLang
