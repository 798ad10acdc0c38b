import IonLang.Token.Scan

/-!
# Lexemes

The texts that spell a kind of token. `Cut.first_sound` says that the piece at the front of a line
is a blank, a lexeme of its kind or a character that starts no token.
-/

namespace IonLang

def Text.IsNumeral (text : List Char) : Prop := text ≠ [] ∧ ∀ c ∈ text, isDigit c = true

theorem Mark.chars_of_ofChar? {c : Char} {mark : Mark} (found : ofChar? c = some mark) :
    mark.chars = [c] := by
  unfold ofChar? at found
  split at found
  all_goals cases found
  all_goals rfl

theorem Mark.chars_of_ofPair? {c d : Char} {mark : Mark} (found : ofPair? c d = some mark) :
    mark.chars = [c, d] := by
  unfold ofPair? at found
  split at found
  all_goals cases found
  all_goals rfl

theorem Keyword.spelling_of_ofString? {word : String} {keyword : Keyword}
    (found : ofString? word = some keyword) : keyword.spelling = word := by
  simpa using List.find?_some found

theorem Keyword.ofString?_eq_none_iff {word : String} :
    ofString? word = none ↔ ∀ keyword : Keyword, keyword.spelling ≠ word := by
  unfold ofString?
  rw [List.find?_eq_none]
  constructor
  · intro missing keyword
    simpa using missing keyword (by cases keyword <;> decide)
  · intro different keyword _
    simpa using different keyword

namespace Token

open Text (isBlank isDigit)

def IsWord : List Char → Prop
  | [] => False
  | c :: rest => isDigit c = false ∧ ∀ d ∈ c :: rest, isWordChar d = true

def IsNumber : List Char → Prop
  | [] => False
  | c :: rest => isDigit c = true ∧ ∀ d ∈ rest, isNumberChar d = true

theorem isNumber_of_isNumeral {text : List Char} (numeral : Text.IsNumeral text) :
    IsNumber text := by
  obtain ⟨nonempty, digits⟩ := numeral
  cases text with
  | nil => exact nonempty rfl
  | cons c text =>
    refine ⟨digits c List.mem_cons_self, fun d member => ?_⟩
    simp [isNumberChar, digits d (List.mem_cons_of_mem c member)]

/-- The text is a way to write a token of the kind. -/
inductive Lexeme : Kind → List Char → Prop where
  | mark (mark : Mark) : Lexeme (.mark mark) mark.chars
  | keyword (keyword : Keyword) : Lexeme (.keyword keyword) keyword.spelling.toList
  | ident {name : String} (word : IsWord name.toList)
    (free : ∀ keyword : Keyword, keyword.spelling ≠ name) : Lexeme (.ident name) name.toList
  | integer {text : String} (numeral : Text.IsNumeral text.toList) :
    Lexeme (.integer text) text.toList
  | float {text : String} (number : IsNumber text.toList) (dotted : '.' ∈ text.toList) :
    Lexeme (.float text) text.toList
  | comment {text : String} {gap : List Char} (blank : ∀ c ∈ gap, isBlank c = true)
    (starts : ∀ c ∈ text.toList.head?, isBlank c = false) :
    Lexeme (.comment text) ('/' :: '/' :: gap ++ text.toList)

theorem Lexeme.ident_ofList {name : List Char} (word : IsWord name)
    (free : ∀ keyword : Keyword, keyword.spelling ≠ String.ofList name) :
    Lexeme (.ident (String.ofList name)) name := by
  have lexeme := @Lexeme.ident (String.ofList name) (by rwa [String.toList_ofList]) free
  rwa [String.toList_ofList] at lexeme

theorem Lexeme.integer_ofList {text : List Char} (numeral : Text.IsNumeral text) :
    Lexeme (.integer (String.ofList text)) text := by
  have lexeme := @Lexeme.integer (String.ofList text) (by rwa [String.toList_ofList])
  rwa [String.toList_ofList] at lexeme

theorem Lexeme.float_ofList {text : List Char} (number : IsNumber text) (dotted : '.' ∈ text) :
    Lexeme (.float (String.ofList text)) text := by
  have lexeme := @Lexeme.float (String.ofList text) (by rwa [String.toList_ofList])
    (by rwa [String.toList_ofList])
  rwa [String.toList_ofList] at lexeme

theorem Lexeme.comment_ofList {gap text : List Char} (blank : ∀ c ∈ gap, isBlank c = true)
    (starts : ∀ c ∈ text.head?, isBlank c = false) :
    Lexeme (.comment (String.ofList text)) ('/' :: '/' :: gap ++ text) := by
  have lexeme := @Lexeme.comment (String.ofList text) gap blank (by rwa [String.toList_ofList])
  rwa [String.toList_ofList] at lexeme

/-- What can be cut off the front of a line. A comment takes the whole line. -/
inductive Cut.Sound : Cut → Prop where
  | blank {c : Char} {rest : List Char} (blank : isBlank c = true) : Sound ⟨.blank, [c], rest⟩
  | token {kind : Kind} {text rest : List Char} (lexeme : Lexeme kind text)
    (toEnd : kind.isComment = true → rest = []) : Sound ⟨.token kind, text, rest⟩
  | stray {c : Char} {rest : List Char} (solid : isBlank c = false) : Sound ⟨.stray c, [c], rest⟩

theorem Cut.sound_number {c : Char} (rest : List Char) (digit : isDigit c = true) :
    (Cut.run isNumberChar Kind.ofNumber c rest).Sound := by
  have chars : ∀ d ∈ rest.takeWhile isNumberChar, isNumberChar d = true :=
    fun d member => List.all_eq_true.mp List.all_takeWhile d member
  unfold Cut.run Kind.ofNumber
  dsimp only
  split
  · next dotted =>
    exact .token (.float_ofList ⟨digit, chars⟩ (List.contains_iff_mem.mp dotted))
      (by simp [Kind.isComment])
  · next plain =>
    refine .token (.integer_ofList ⟨by simp, fun d member => ?_⟩) (by simp [Kind.isComment])
    have noDot : d ≠ '.' := by
      rintro rfl
      exact plain (List.contains_iff_mem.mpr member)
    rcases List.mem_cons.mp member with rfl | later
    · exact digit
    · simpa [isNumberChar, noDot] using chars d later

theorem Cut.sound_word {c : Char} (rest : List Char) (notDigit : isDigit c = false)
    (isWord : isWordChar c = true) : (Cut.run isWordChar Kind.ofWord c rest).Sound := by
  have word : IsWord (c :: rest.takeWhile isWordChar) := by
    refine ⟨notDigit, fun d member => ?_⟩
    rcases List.mem_cons.mp member with rfl | later
    · exact isWord
    · exact List.all_eq_true.mp List.all_takeWhile d later
  unfold Cut.run Kind.ofWord
  dsimp only
  split
  · next keyword found =>
    have lexeme := Lexeme.keyword keyword
    rw [Keyword.spelling_of_ofString? found, String.toList_ofList] at lexeme
    exact .token lexeme (by simp [Kind.isComment])
  · next missing =>
    exact .token (.ident_ofList word (Keyword.ofString?_eq_none_iff.mp missing))
      (by simp [Kind.isComment])

theorem Cut.single_sound {c : Char} (rest : List Char) (solid : isBlank c = false) :
    (Cut.single c rest).Sound := by
  unfold Cut.single
  split
  · next mark found =>
    have lexeme := Lexeme.mark mark
    rw [Mark.chars_of_ofChar? found] at lexeme
    exact .token lexeme (by simp [Kind.isComment])
  · split
    · next digit => exact sound_number rest digit
    · next notDigit =>
      split
      · next isWord => exact sound_word rest (Bool.not_eq_true _ ▸ notDigit) isWord
      · exact .stray solid

theorem Cut.comment_sound (rest : List Char) : (Cut.comment rest).Sound := by
  have blank : ∀ c ∈ rest.takeWhile isBlank, isBlank c = true :=
    fun c member => List.all_eq_true.mp List.all_takeWhile c member
  have starts : ∀ c ∈ (rest.dropWhile isBlank).head?, isBlank c = false := by
    intro c first
    have stopped := List.head?_dropWhile_not isBlank rest
    rw [Option.mem_def.mp first] at stopped
    simpa using stopped
  have lexeme := Lexeme.comment_ofList blank starts
  rw [List.cons_append, List.cons_append, List.takeWhile_append_dropWhile] at lexeme
  exact .token lexeme fun _ => rfl

theorem Cut.first_sound (c : Char) (rest : List Char) : (Cut.first c rest).Sound := by
  unfold Cut.first
  split
  · next blank => exact .blank blank
  · next notBlank =>
    have solid : isBlank c = false := Bool.not_eq_true _ ▸ notBlank
    split
    · exact single_sound [] solid
    · next d tail =>
      split
      · exact comment_sound tail
      · split
        · next mark found =>
          have lexeme := Lexeme.mark mark
          rw [Mark.chars_of_ofPair? found] at lexeme
          exact .token lexeme (by simp [Kind.isComment])
        · exact single_sound (d :: tail) solid

end Token

end IonLang
