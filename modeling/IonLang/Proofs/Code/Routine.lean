import IonLang.Proofs.Code.LabelHygiene

/-!
# Routines of a unit

The routine of a label is what stands in a unit from the label to the next return. Labels are
distinct and no tree returns, so the routine of a function is its own code, wherever that stands.
-/

namespace IonLang

def upToReturn : List Line → List Line
  | [] => []
  | line :: rest => if line = .inst .ret then [line] else line :: upToReturn rest

/-- The lines of a unit from a label to the next return. -/
def Assembly.routine (code : Assembly) (label : String) : List Line :=
  upToReturn (code.lines.dropWhile fun line => line.defines? != some label)

theorem upToReturn_append {front : List Line} (noReturn : .inst .ret ∉ front) (back : List Line) :
    upToReturn (front ++ .inst .ret :: back) = front ++ [.inst .ret] := by
  induction front with
  | nil => simp [upToReturn]
  | cons line front ih =>
    rw [List.mem_cons, not_or] at noReturn
    rw [List.cons_append, upToReturn, if_neg (Ne.symm noReturn.1), ih noReturn.2]
    rfl

namespace Node

/-! ### Trees do not return -/

theorem ret_not_mem_linesAll {body : List Node} (inner : ∀ n ∈ body, .inst .ret ∉ n.lines) :
    .inst .ret ∉ linesAll body := by
  induction body with
  | nil => simp [linesAll]
  | cons node rest ih =>
    rw [linesAll, List.mem_append, not_or]
    exact ⟨inner node List.mem_cons_self, ih fun n member => inner n (List.mem_cons_of_mem _ member)⟩

theorem ret_not_mem_linesOption {node : Option Node} (inner : ∀ n ∈ node, .inst .ret ∉ n.lines) :
    .inst .ret ∉ linesOption node := by
  cases node with
  | none => simp [linesOption]
  | some node => exact inner node rfl

theorem ret_not_mem_linesCases (id : Nat) {subject : List Line} (subjectStays : .inst .ret ∉ subject)
    {cases : List (Node × Node)}
    (inner : ∀ entry ∈ cases, .inst .ret ∉ entry.1.lines ∧ .inst .ret ∉ entry.2.lines) (k : Nat) :
    .inst .ret ∉ linesCases id subject k cases := by
  induction cases generalizing k with
  | nil => simp [linesCases]
  | cons entry rest ih =>
    obtain ⟨value, body⟩ := entry
    obtain ⟨valueStays, bodyStays⟩ := inner _ List.mem_cons_self
    have others := ih (fun entry member => inner entry (List.mem_cons_of_mem _ member)) (k + 1)
    simp [linesCases, Line.plainLabel, valueStays, bodyStays, subjectStays, others]

theorem ret_not_mem_lines (node : Node) : .inst .ret ∉ node.lines := by
  induction node using inductionOn with
  | block id body inner => exact ret_not_mem_linesAll inner
  | ifElse id cond thenPart elsePart condStays thenStays elseStays =>
    have others := ret_not_mem_linesOption elseStays
    simp [lines, Line.plainLabel, Snippet.testZero, condStays, thenStays, others]
  | whileLoop id cond body condStays bodyStays =>
    simp [lines, Line.plainLabel, Snippet.testZero, condStays, bodyStays]
  | doWhile id body cond bodyStays condStays =>
    simp [lines, Line.plainLabel, Snippet.testZero, condStays, bodyStays]
  | switch id subject cases fallback subjectStays casesStay fallbackStays =>
    have others := ret_not_mem_linesOption fallbackStays
    have choices := ret_not_mem_linesCases id subjectStays casesStay 0
    simp [lines, Line.plainLabel, choices, others]
  | assign id var op value stays =>
    cases op <;> simp [lines, Snippet.assign, Snippet.mov, Snippet.load, stays]
  | access id var => simp [lines, Snippet.load, Snippet.mov]
  | integer id text => simp [lines, Snippet.mov]
  | float id text => simp [lines]
  | unary id op operand stays =>
    cases op <;> simp [lines, Snippet.unary, Snippet.testZero, Snippet.flag, stays]
  | binary id op lhs rhs lhsStays rhsStays =>
    cases op <;>
      simp [lines, Snippet.binary, Snippet.compare, Snippet.flag, Snippet.mov, lhsStays, rhsStays]
  | step id direction var timing =>
    cases direction <;> cases timing <;>
      simp [lines, Snippet.step, Snippet.count, Snippet.load, Snippet.mov]
  | call id func => simp [lines]
  | putChar id value stays => simp [lines, Snippet.putChar, Snippet.mov, stays]

end Node

namespace Program

-- The label is defined once, so nothing in front of its line defines it.
theorem dropWhile_label {front back : List Line} {line : Line} {label : String}
    (distinct : (definedNames (front ++ line :: back)).Nodup) (defines : line.defines? = some label) :
    (front ++ line :: back).dropWhile (fun line => line.defines? != some label) = line :: back := by
  rw [definedNames_append] at distinct
  have here : label ∈ definedNames (line :: back) :=
    List.mem_filterMap.mpr ⟨line, List.mem_cons_self, defines⟩
  have others : ∀ other ∈ front, (other.defines? != some label) = true := by
    intro other member
    rw [bne_iff_ne]
    intro same
    exact List.disjoint_of_nodup_append distinct (List.mem_filterMap.mpr ⟨other, member, same⟩) here
  rw [List.dropWhile_append_of_pos others, List.dropWhile_cons_of_neg (by simp [defines])]

theorem functionLines_infix {program : Program} {code : Assembly}
    (assembled : program.assemble = .ok code) {func : Function} (member : func ∈ program.functions) :
    ∃ front back, code.lines = front ++ (functionLines func ++ back) := by
  obtain ⟨entry, _, lines⟩ := assemble_eq_ok assembled
  obtain ⟨earlier, later, functions⟩ := List.append_of_mem member
  refine ⟨[.directive "BITS 64", .directive "segment .bss"] ++ program.storage ++
    [.directive "segment .text"] ++ earlier.flatMap functionLines,
    later.flatMap functionLines ++ startCode entry.id, ?_⟩
  rw [lines, functions, List.flatMap_append, List.flatMap_cons]
  simp only [List.append_assoc]

/-- The routine of a function is its code. -/
theorem routine_eq_functionLines {tokens : List Token} {program : Program} {code : Assembly}
    (wellFormed : program.WellFormed tokens) (assembled : program.assemble = .ok code)
    {func : Function} (member : func ∈ program.functions) :
    code.routine func.id.label = functionLines func := by
  have distinct := distinct_names wellFormed assembled
  obtain ⟨front, back, lines⟩ := functionLines_infix assembled member
  have noReturn : .inst .ret ∉ .label func.id.label (some func.name) :: Node.linesOption func.body := by
    rw [List.mem_cons, not_or]
    exact ⟨by simp, Node.ret_not_mem_linesOption fun n _ => n.ret_not_mem_lines⟩
  have code_eq : functionLines func ++ back =
      .label func.id.label (some func.name) :: (Node.linesOption func.body ++ .inst .ret :: back) := by
    simp [functionLines]
  rw [code_eq] at lines
  unfold Assembly.routine
  rw [lines] at distinct ⊢
  rw [dropWhile_label distinct rfl, ← List.cons_append, upToReturn_append noReturn]
  rfl

end Program

end IonLang
