import IonLang.Diagnostic.Report
import IonLang.Proofs.Code.Rejection
import IonLang.Proofs.Grammar.Location

/-!
# Where the caret of a report stands

A report shows the line that a diagnostic is about and below it a caret, behind as many blanks as
there are bytes before the place. So the caret marks the place exactly if the characters before it
take one byte each (`report_caret`). Diagnostics of code generation have no place.
-/

namespace IonLang

/-! ### Code generation -/

namespace Program

/-- What a compilation reports with a position was found in the text. -/
theorem mem_ofSource_of_compile {file source : String} {errors : List Diagnostic} {d : Diagnostic}
    {pos : Position} (failed : compile file source = .error errors) (reported : d ∈ errors)
    (positioned : d.position? = some pos) : d ∈ (ofSource file source).2 := by
  unfold compile at failed
  split at failed
  · next program parsed =>
    cases assembled : program.assemble with
    | ok code =>
      rw [assembled] at failed
      cases failed
    | error reason =>
      rw [assembled] at failed
      cases failed
      rw [List.mem_singleton.mp reported] at positioned
      rcases assemble_eq_error assembled with ⟨_, rfl⟩ | ⟨_, text, _, rfl⟩
      · cases positioned
      · cases positioned
  · next parsed =>
    cases failed
    rw [parsed]
    exact reported

end Program

/-! ### Characters and bytes -/

namespace Token

theorem length_le_byteSize (text : List Char) : text.length ≤ byteSize text := by
  induction text with
  | nil => exact Nat.le_refl 0
  | cons c rest ih =>
    have size := c.utf8Size_pos
    rw [byteSize, List.length_cons]
    omega

/-- A text has as many bytes as characters if and only if all of them are ASCII. -/
theorem byteSize_eq_length {text : List Char} :
    byteSize text = text.length ↔ ∀ c ∈ text, c.val ≤ 127 := by
  induction text with
  | nil => simp [byteSize]
  | cons c rest ih =>
    have size := c.utf8Size_pos
    have others := length_le_byteSize rest
    rw [List.forall_mem_cons, ← ih, ← Char.utf8Size_eq_one_iff, byteSize, List.length_cons]
    omega

end Token

/-! ### Places in a text -/

/-- A position stands in a line of a text between `front` and `back`. A text without lines is taken
for one empty line. -/
structure Position.Divides (source : String) (pos : Position) (line : String)
    (front back : List Char) : Prop where
  numbered : 0 < pos.line
  found : (Text.lines source)[pos.line - 1]? = some line ∨ Text.lines source = [] ∧ line = ""
  whole : line.toList = front ++ back
  column : pos.column = Token.byteSize front + 1

theorem Position.Divides.lineAt {file source line : String} {pos : Position} {front back : List Char}
    (divides : pos.Divides source line front back) (here : pos.file = file) :
    (SourceLines.ofFile file source).lineAt pos = line := by
  have lines : (SourceLines.ofFile file source).get? pos.file = some (Text.lines source) := by
    rw [here]
    exact (Dictionary.get?_insert ..).trans (if_pos rfl)
  rw [SourceLines.lineAt, lines]
  rcases divides.found with found | ⟨empty, rfl⟩
  · rw [Option.getD_some, found, Option.getD_some]
  · rw [Option.getD_some, empty]
    rfl

namespace Token

/-- The token is spelled at the beginning of the text. The end of the file stands before nothing. -/
def Begins (token : Token) (text : List Char) : Prop :=
  token.kind = .eof ∧ text = [] ∨ ∃ lexeme rest, Lexeme token.kind lexeme ∧ text = lexeme ++ rest

theorem divides_endOfFile (file source : String) : ∃ line front,
    (endOfFile file 1 ⟨file, 1, 1⟩ (Text.lines source)).Divides source line front [] := by
  unfold endOfFile
  split
  · next none => exact ⟨"", [], Nat.one_pos, .inr ⟨List.getLast?_eq_none_iff.mp none, rfl⟩, rfl, rfl⟩
  · next last found =>
    have some := List.length_pos_of_mem (List.mem_of_getLast? found)
    refine ⟨last, last.toList, ?_, .inl ?_, (List.append_nil _).symm, ?_⟩
    · dsimp only
      omega
    · rw [List.getLast?_eq_getElem?] at found
      dsimp only
      rwa [Nat.add_sub_cancel_left]
    · rw [byteSize_toList]

theorem divides_of_mem_scan {file source : String} {token : Token}
    (member : token ∈ (scan file source).tokens) :
    ∃ line front back, token.pos.Divides source line front back ∧ token.Begins back := by
  by_cases last : token.kind = .eof
  · obtain ⟨line, front, divides⟩ := divides_endOfFile file source
    rw [← pos_eq_endOfFile member last] at divides
    exact ⟨line, front, [], divides, .inl ⟨last, rfl⟩⟩
  · obtain ⟨i, line, found, inLine⟩ := exists_scanLine_of_mem token member last
    obtain ⟨before, lexeme, after, stands⟩ :=
      (scanned_scanLine file (1 + i) line).stands token inLine
    refine ⟨line, before, lexeme ++ after, ⟨?_, .inl ?_, stands.whole, ?_⟩,
      .inr ⟨lexeme, after, stands.lexeme, rfl⟩⟩
    · rw [stands.line_eq]
      exact Nat.add_pos_left Nat.one_pos i
    · rw [stands.line_eq, Nat.add_sub_cancel_left]
      exact found
    · rw [stands.pos]
      exact Nat.add_comm 1 _

end Token

namespace Diagnostic

/-- What the diagnostic is about begins here: a stray character, or the token at the position, which
is of the kind that is reported. -/
def BeginsAt (tokens : List Token) (pos : Position) (text : List Char) : Diagnostic → Prop
  | strayCharacter c _ => ∃ rest, text = c :: rest
  | d => ∃ token ∈ tokens, token.pos = pos ∧ (∀ kind, d.reported? = some kind → token.kind = kind) ∧
      token.Begins text

variable {file source : String} {d : Diagnostic}

theorem PointsInto.divides (points : d.PointsInto (Token.scan file source).tokens) :
    ∃ pos line front back, d.position? = some pos ∧ pos.file = file ∧
      pos.Divides source line front back ∧ d.BeginsAt (Token.scan file source).tokens pos back := by
  obtain ⟨token, member, stands, kind, lexed⟩ := points
  obtain ⟨line, front, back, divides, begins⟩ := Token.divides_of_mem_scan member
  refine ⟨token.pos, line, front, back, stands, Token.file_of_mem_scan member, divides, ?_⟩
  cases d with
  | strayCharacter c pos => cases lexed
  | _ => exact ⟨token, member, rfl, kind, begins⟩

theorem divides_of_mem_scan (reported : d ∈ (Token.scan file source).errors) :
    ∃ pos line front back, d.position? = some pos ∧ pos.file = file ∧
      pos.Divides source line front back ∧ d.BeginsAt (Token.scan file source).tokens pos back := by
  rcases Token.reports_scan reported with ⟨i, line, found, stray⟩ | ⟨token, member, text, _, rfl⟩
  · obtain ⟨front, c, rest, whole, _, rfl⟩ := stray
    exact ⟨_, line, front, c :: rest, rfl, rfl,
      ⟨Nat.succ_pos i, .inl found, whole, Nat.add_comm 1 _⟩, rest, rfl⟩
  · exact PointsInto.divides (pointsInto_place member rfl rfl rfl)

/-! ### The report -/

def underlined (number : Nat) (line : String) (blanks : Nat) : String :=
  " " ++ Text.paint .blue (Text.padStart 4 ' ' (toString number) ++ " |") ++ " " ++ line ++ "\n" ++
    ("      " ++ Text.paint .blue "|") ++ " " ++ Text.fill blanks ' ' ++ Text.alarm "^" ++ "\n"

theorem excerpt_eq_underlined (sources : SourceLines) (pos : Position) : ∃ head,
    excerpt sources pos = head ++ underlined pos.line (sources.lineAt pos) (pos.column - 1) := by
  -- The parts are only grouped anew, whatever their texts are.
  have group (head a b c d e f g h i j : String) :
      head ++ a ++ b ++ c ++ d ++ e ++ f ++ g ++ h ++ i ++ j =
        head ++ (a ++ b ++ c ++ d ++ e ++ f ++ g ++ h ++ i ++ j) := by
    simp only [String.append_assoc]
  exact ⟨_, group ..⟩

theorem report_eq_underlined {pos : Position} (positioned : d.position? = some pos)
    (sources : SourceLines) : ∃ head,
      d.report sources = head ++ underlined pos.line (sources.lineAt pos) (pos.column - 1) := by
  obtain ⟨head, shown⟩ := excerpt_eq_underlined sources pos
  rw [report, positioned]
  dsimp only
  rw [shown, ← String.append_assoc]
  exact ⟨_, rfl⟩

end Diagnostic

/-- The report of a diagnostic shows the line that it is about, which is divided at the place where
what is reported begins. The caret stands behind as many blanks as there are bytes before the place.
So skipping as many characters leads to the place if and only if all before it are ASCII. -/
theorem Program.report_caret {file source : String} {errors : List Diagnostic} {d : Diagnostic}
    {pos : Position} (failed : compile file source = .error errors) (reported : d ∈ errors)
    (positioned : d.position? = some pos) :
    ∃ head line front back, pos.Divides source line front back ∧
      d.BeginsAt (Token.scan file source).tokens pos back ∧
      d.report (SourceLines.ofFile file source) =
        head ++ Diagnostic.underlined pos.line line (Token.byteSize front) ∧
      ((∃ skipped, line.toList = skipped ++ back ∧ skipped.length = Token.byteSize front) ↔
        ∀ c ∈ front, c.val ≤ 127) := by
  obtain ⟨place, line, front, back, stands, here, divides, begins⟩ : ∃ place line front back,
      d.position? = some place ∧ place.file = file ∧ place.Divides source line front back ∧
        d.BeginsAt (Token.scan file source).tokens place back := by
    rcases List.mem_append.mp (mem_ofSource_of_compile failed reported positioned) with found | found
    · exact Diagnostic.divides_of_mem_scan found
    · exact (pointsInto_of_mem_ofTokens (Token.traced_scan file source) found).divides
  cases positioned.symm.trans stands
  obtain ⟨head, shown⟩ := Diagnostic.report_eq_underlined stands (SourceLines.ofFile file source)
  rw [divides.lineAt here, divides.column, Nat.add_sub_cancel] at shown
  refine ⟨head, line, front, back, divides, begins, shown, ?_⟩
  rw [← Token.byteSize_eq_length]
  constructor
  · rintro ⟨skipped, whole, size⟩
    rw [divides.whole] at whole
    rw [List.append_cancel_right whole] at size ⊢
    exact size.symm
  · exact fun size => ⟨front, divides.whole, size.symm⟩

/-- A stray character behind another one of two bytes: the caret stands behind two blanks, below the
end of the line. -/
theorem Program.report_caret_two_bytes :
    let stray := Diagnostic.strayCharacter '$' ⟨"a", 1, 3⟩
    (∃ errors, compile "a" "é$" = .error errors ∧ stray ∈ errors) ∧
      (∃ head, stray.report (SourceLines.ofFile "a" "é$") = head ++ Diagnostic.underlined 1 "é$" 2) ∧
      ¬∃ skipped, "é$".toList = skipped ++ ['$'] ∧ skipped.length = 2 := by
  intro stray
  have failed : compile "a" "é$" = .error (ofSource "a" "é$").2 := by decide +kernel
  have reported : stray ∈ (ofSource "a" "é$").2 := by decide +kernel
  refine ⟨⟨_, failed, reported⟩, ?_⟩
  obtain ⟨head, line, front, back, divides, _, shown, marks⟩ := report_caret failed reported rfl
  have lines : Text.lines "é$" = ["é$"] := by decide +kernel
  obtain rfl : line = "é$" := by
    rcases divides.found with found | ⟨empty, _⟩
    · rw [lines] at found
      exact (Option.some.inj found).symm
    · rw [lines] at empty
      cases empty
  have whole : ['é'] ++ ['$'] = front ++ back := divides.whole
  have size : Token.byteSize ['é'] = Token.byteSize front := Nat.succ.inj divides.column
  obtain rfl := Token.eq_of_byteSize_eq whole size
  obtain rfl := List.append_cancel_left whole
  refine ⟨⟨head, shown⟩, fun reaches => ?_⟩
  exact absurd (marks.mp reaches 'é' List.mem_cons_self) (by decide)

end IonLang
