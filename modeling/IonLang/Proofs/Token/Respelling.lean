import IonLang.Proofs.Token.Coverage
import Mathlib.Data.List.Basic
import Mathlib.Data.List.Forall2

/-!
# Scanning undoes spelling

Kinds of tokens that are written one after the other, with blanks between them, are scanned to
these kinds again (`scan_spell`). A lexeme is cut off whole if a blank or the end of the line
follows (`Kind.Writable.first_eq`), and since no lexeme holds a blank, the line ends of such a text
part it into lines of the same form (`Written.split`).
-/

namespace IonLang

open Text (isBlank isDigit)

/-! ### Characters of lexemes -/

theorem Token.isBlank_of_isWordChar {c : Char} (word : isWordChar c = true) :
    isBlank c = false := by
  -- The word characters as ranges of code points, which the ranges of the blanks miss.
  have code : c.toNat = 95 ∨ (48 ≤ c.toNat ∧ c.toNat ≤ 57) ∨ (97 ≤ c.toNat ∧ c.toNat ≤ 122) ∨
      (65 ≤ c.toNat ∧ c.toNat ≤ 90) := by
    simp only [isWordChar, isDigit, Bool.or_eq_true, Bool.and_eq_true, decide_eq_true_eq,
      beq_iff_eq, or_assoc] at word
    rcases word with rfl | range
    · exact Or.inl rfl
    · exact Or.inr range
  simp [isBlank, Text.blankRanges]
  omega

theorem Token.isWordChar_of_isDigit {c : Char} (digit : isDigit c = true) :
    isWordChar c = true := by
  simp [isWordChar, digit]

theorem Token.isBlank_of_isNumberChar {c : Char} (number : isNumberChar c = true) :
    isBlank c = false := by
  rw [isNumberChar, Bool.or_eq_true, beq_iff_eq] at number
  rcases number with digit | rfl
  · exact isBlank_of_isWordChar (isWordChar_of_isDigit digit)
  · decide

theorem Mark.isBlank_of_mem_chars (mark : Mark) : ∀ c ∈ mark.chars, isBlank c = false := by
  have solid : mark.chars.all (fun c => !isBlank c) = true := by
    cases mark <;> rfl
  simpa using solid

theorem Mark.ofChar?_of_isWordChar {c : Char} (word : Token.isWordChar c = true) :
    ofChar? c = none := by
  unfold ofChar?
  split
  all_goals first | rfl | cases word

theorem Mark.ofPair?_of_isWordChar {c : Char} (word : Token.isWordChar c = true) (d : Char) :
    ofPair? c d = none := by
  unfold ofPair?
  split
  all_goals first | rfl | cases word

theorem Mark.ofPair?_of_isBlank (c : Char) {d : Char} (blank : isBlank d = true) :
    ofPair? c d = none := by
  unfold ofPair?
  split
  all_goals first | rfl | cases blank

theorem Keyword.ofString?_spelling (keyword : Keyword) :
    ofString? keyword.spelling = some keyword := by
  cases keyword <;> decide

theorem Keyword.isWord_spelling (keyword : Keyword) : Token.IsWord keyword.spelling.toList := by
  cases keyword <;> exact ⟨rfl, List.all_eq_true.mp rfl⟩

namespace Token

/-! ### A lexeme before a blank -/

def BlankFirst (text : List Char) : Prop := ∀ c ∈ text.head?, isBlank c = true

theorem BlankFirst.takeWhile {rest : List Char} (apart : BlankFirst rest) {p : Char → Bool}
    (solid : ∀ c, p c = true → isBlank c = false) :
    rest.takeWhile p = [] ∧ rest.dropWhile p = rest := by
  cases rest with
  | nil => exact ⟨rfl, rfl⟩
  | cons d rest =>
    have stops : p d = false := by
      cases accepted : p d with
      | false => rfl
      | true => exact absurd (apart d rfl) (by simp [solid d accepted])
    exact ⟨List.takeWhile_cons_of_neg (by simp [stops]),
      List.dropWhile_cons_of_neg (by simp [stops])⟩

theorem Cut.run_eq {p : Char → Bool} (kind : List Char → Kind) (c : Char) {text rest : List Char}
    (solid : ∀ c, p c = true → isBlank c = false) (chars : ∀ d ∈ text, p d = true)
    (apart : BlankFirst rest) :
    Cut.run p kind c (text ++ rest) = ⟨.token (kind (c :: text)), c :: text, rest⟩ := by
  obtain ⟨takes, drops⟩ := apart.takeWhile solid
  unfold Cut.run
  dsimp only
  rw [List.takeWhile_append_of_pos chars, List.dropWhile_append_of_pos chars, takes, drops,
    List.append_nil]

theorem Cut.first_of_isWordChar {c : Char} (word : isWordChar c = true) (rest : List Char) :
    Cut.first c rest = Cut.single c rest := by
  have solid := isBlank_of_isWordChar word
  have notSlash : c ≠ '/' := by
    rintro rfl
    cases word
  unfold Cut.first
  rw [if_neg (by simp [solid])]
  cases rest with
  | nil => rfl
  | cons d rest =>
    dsimp only
    rw [if_neg (fun slashes => notSlash slashes.1), Mark.ofPair?_of_isWordChar word]

theorem Cut.first_of_apart {c : Char} {rest : List Char} (solid : isBlank c = false)
    (apart : BlankFirst rest) : Cut.first c rest = Cut.single c rest := by
  unfold Cut.first
  rw [if_neg (by simp [solid])]
  cases rest with
  | nil => rfl
  | cons d rest =>
    have blank := apart d rfl
    have notSlash : d ≠ '/' := by
      rintro rfl
      cases blank
    dsimp only
    rw [if_neg (fun slashes => notSlash slashes.2), Mark.ofPair?_of_isBlank c blank]

theorem Cut.first_word {c : Char} {text rest : List Char} (word : IsWord (c :: text))
    (apart : BlankFirst rest) :
    Cut.first c (text ++ rest) = ⟨.token (Kind.ofWord (c :: text)), c :: text, rest⟩ := by
  obtain ⟨notDigit, chars⟩ := word
  have isWord := chars c List.mem_cons_self
  rw [Cut.first_of_isWordChar isWord, Cut.single, Mark.ofChar?_of_isWordChar isWord]
  dsimp only
  rw [if_neg (by simp [notDigit]), if_pos isWord]
  exact Cut.run_eq _ c (fun _ => isBlank_of_isWordChar)
    (fun d member => chars d (List.mem_cons_of_mem c member)) apart

theorem Cut.first_number {c : Char} {text rest : List Char} (number : IsNumber (c :: text))
    (apart : BlankFirst rest) :
    Cut.first c (text ++ rest) = ⟨.token (Kind.ofNumber (c :: text)), c :: text, rest⟩ := by
  obtain ⟨digit, chars⟩ := number
  have isWord := isWordChar_of_isDigit digit
  rw [Cut.first_of_isWordChar isWord, Cut.single, Mark.ofChar?_of_isWordChar isWord]
  dsimp only
  rw [if_pos digit]
  exact Cut.run_eq _ c (fun _ => isBlank_of_isNumberChar) chars apart

theorem Cut.first_mark (mark : Mark) {rest : List Char} (apart : BlankFirst rest) :
    ∃ c text, mark.chars = c :: text ∧
      Cut.first c (text ++ rest) = ⟨.token (.mark mark), mark.chars, rest⟩ := by
  cases mark
  all_goals refine ⟨_, _, rfl, ?_⟩
  all_goals first
    | rfl
    | exact Cut.first_of_apart (by decide) apart

/-! ### Kinds and their lexemes -/

/-- The lexeme of a kind other than a comment and the end of the file. -/
def Kind.chars : Kind → List Char
  | .mark m => m.chars
  | .keyword k => k.spelling.toList
  | .ident name => name.toList
  | .integer text | .float text => text.toList
  | .comment _ | .eof => []

/-- The kinds that a source text can hold without a complaint about their texts. -/
def Kind.Writable : Kind → Prop
  | .mark _ | .keyword _ => True
  | .ident name => IsWord name.toList ∧ ∀ keyword : Keyword, keyword.spelling ≠ name
  | .integer text => Text.IsNumeral text.toList
  | .float text => IsNumber text.toList ∧ text.toList.count '.' = 1
  | .comment _ | .eof => False

variable {kind : Kind} {kinds : List Kind} {rest text : List Char}

theorem Kind.ofWord_spelling (keyword : Keyword) :
    Kind.ofWord keyword.spelling.toList = .keyword keyword := by
  rw [Kind.ofWord, String.ofList_toList, Keyword.ofString?_spelling]

theorem Kind.ofWord_of_free {name : String} (free : ∀ keyword : Keyword, keyword.spelling ≠ name) :
    Kind.ofWord name.toList = .ident name := by
  rw [Kind.ofWord, String.ofList_toList, Keyword.ofString?_eq_none_iff.mpr free]

theorem Kind.ofNumber_of_isNumeral {text : String} (numeral : Text.IsNumeral text.toList) :
    Kind.ofNumber text.toList = .integer text := by
  have noDot : ¬ text.toList.contains '.' = true := by
    intro dotted
    cases numeral.2 '.' (List.contains_iff_mem.mp dotted)
  rw [Kind.ofNumber, if_neg noDot, String.ofList_toList]

theorem Kind.ofNumber_of_dotted {text : String} (dotted : text.toList.count '.' = 1) :
    Kind.ofNumber text.toList = .float text := by
  have member : '.' ∈ text.toList := List.count_pos_iff.mp (by omega)
  rw [Kind.ofNumber, if_pos (List.contains_iff_mem.mpr member), String.ofList_toList]

theorem IsWord.first_eq {text : List Char} (word : IsWord text) (apart : BlankFirst rest) :
    ∃ c tail, text = c :: tail ∧
      Cut.first c (tail ++ rest) = ⟨.token (Kind.ofWord text), text, rest⟩ := by
  cases text with
  | nil => exact word.elim
  | cons c tail => exact ⟨c, tail, rfl, Cut.first_word word apart⟩

theorem IsNumber.first_eq {text : List Char} (number : IsNumber text) (apart : BlankFirst rest) :
    ∃ c tail, text = c :: tail ∧
      Cut.first c (tail ++ rest) = ⟨.token (Kind.ofNumber text), text, rest⟩ := by
  cases text with
  | nil => exact number.elim
  | cons c tail => exact ⟨c, tail, rfl, Cut.first_number number apart⟩

theorem Kind.Writable.first_eq (writable : kind.Writable) (apart : BlankFirst rest) :
    ∃ c tail, kind.chars = c :: tail ∧
      Cut.first c (tail ++ rest) = ⟨.token kind, kind.chars, rest⟩ := by
  cases kind with
  | mark mark => exact Cut.first_mark mark apart
  | keyword keyword =>
    have := keyword.isWord_spelling.first_eq apart
    rwa [Kind.ofWord_spelling] at this
  | ident name =>
    have := writable.1.first_eq apart
    rwa [Kind.ofWord_of_free writable.2] at this
  | integer text =>
    have := (isNumber_of_isNumeral writable).first_eq apart
    rwa [Kind.ofNumber_of_isNumeral writable] at this
  | float text =>
    have := writable.1.first_eq apart
    rwa [Kind.ofNumber_of_dotted writable.2] at this
  | comment text => exact writable.elim
  | eof => exact writable.elim

theorem IsWord.solid {text : List Char} (word : IsWord text) : ∀ c ∈ text, isBlank c = false := by
  cases text with
  | nil => exact word.elim
  | cons c tail => exact fun d member => isBlank_of_isWordChar (word.2 d member)

theorem IsNumber.solid {text : List Char} (number : IsNumber text) :
    ∀ c ∈ text, isBlank c = false := by
  cases text with
  | nil => exact number.elim
  | cons c tail =>
    intro d member
    rcases List.mem_cons.mp member with rfl | later
    · exact isBlank_of_isWordChar (isWordChar_of_isDigit number.1)
    · exact isBlank_of_isNumberChar (number.2 d later)

theorem Kind.Writable.solid (writable : kind.Writable) : ∀ c ∈ kind.chars, isBlank c = false := by
  cases kind with
  | mark mark => exact mark.isBlank_of_mem_chars
  | keyword keyword => exact keyword.isWord_spelling.solid
  | ident name => exact writable.1.solid
  | integer text => exact (isNumber_of_isNumeral writable).solid
  | float text => exact writable.1.solid
  | comment text => exact writable.elim
  | eof => exact writable.elim

theorem Kind.Writable.errors_eq (writable : kind.Writable) (pos : Position) :
    ((Piece.token kind).scan pos).errors = [] := by
  cases kind with
  | float text => rw [Piece.scan, writable.2, Nat.sub_self, List.replicate_zero]
  | _ => rfl

/-! ### Texts that spell kinds -/

/-- The text is made up of blanks and the lexemes of these kinds, in order, and a blank stands
behind every lexeme but the last. -/
inductive Written : List Kind → List Char → Prop where
  | done : Written [] []
  | blank {c : Char} {kinds : List Kind} {text : List Char} (blank : isBlank c = true)
    (later : Written kinds text) : Written kinds (c :: text)
  | lexeme {kind : Kind} {kinds : List Kind} {text : List Char} (writable : kind.Writable)
    (apart : BlankFirst text) (later : Written kinds text) :
    Written (kind :: kinds) (kind.chars ++ text)

def Scan.Clean (scan : Scan) (kinds : List Kind) : Prop :=
  scan.tokens.map Token.kind = kinds ∧ scan.errors = []

theorem Scan.Clean.append {scan scan' : Scan} {kinds' : List Kind} (first : scan.Clean kinds)
    (second : scan'.Clean kinds') : (scan.append scan').Clean (kinds ++ kinds') := by
  refine ⟨?_, ?_⟩
  · rw [Scan.append, List.map_append, first.1, second.1]
  · rw [Scan.append, first.2, second.2, List.append_nil]

theorem Written.clean (written : Written kinds text) (pos : Position) :
    (scanFrom pos text).Clean kinds := by
  induction written generalizing pos with
  | done =>
    rw [scanFrom]
    exact ⟨rfl, rfl⟩
  | @blank c kinds text blank later ih =>
    have cut : Cut.first c text = ⟨.blank, [c], text⟩ := if_pos blank
    rw [scanFrom, cut]
    exact Scan.Clean.append ⟨rfl, rfl⟩ (ih _)
  | @lexeme kind kinds text writable apart later ih =>
    obtain ⟨c, tail, chars, cut⟩ := writable.first_eq apart
    rw [chars, List.cons_append, scanFrom, cut]
    have first : ((Piece.token kind).scan pos).Clean [kind] :=
      ⟨by rw [tokens_scan_token, List.map_singleton], writable.errors_eq pos⟩
    exact first.append (ih _)

theorem Written.split (written : Written kinds text) : ∀ front c back, text = front ++ c :: back →
    isBlank c = true → ∃ kinds₁ kinds₂, kinds = kinds₁ ++ kinds₂ ∧ Written kinds₁ front ∧
      Written kinds₂ back := by
  induction written with
  | done => simp
  | @blank first kinds text blank later ih =>
    intro front c back whole separates
    cases front with
    | nil =>
      cases whole
      exact ⟨[], kinds, rfl, .done, later⟩
    | cons _ front =>
      cases whole
      obtain ⟨kinds₁, kinds₂, rfl, left, right⟩ := ih front c back rfl separates
      exact ⟨kinds₁, kinds₂, rfl, .blank blank left, right⟩
  | @lexeme kind kinds text writable apart later ih =>
    intro front c back whole separates
    rcases behind_or_inside whole with ⟨more, rfl, parts⟩ | ⟨inner, inside⟩
    · obtain ⟨kinds₁, kinds₂, rfl, left, right⟩ := ih more c back parts separates
      refine ⟨kind :: kinds₁, kinds₂, rfl, .lexeme writable ?_ left, right⟩
      cases more with
      | nil => simp [BlankFirst]
      | cons d more =>
        rw [parts] at apart
        exact apart
    · -- A lexeme holds no blank, so the text cannot be parted inside one.
      have solid := writable.solid c (by simp [inside])
      rw [solid] at separates
      cases separates

theorem Written.kinds_eq_nil (written : Written kinds []) : kinds = [] := by
  generalize empty : ([] : List Char) = text at written
  cases written with
  | done => rfl
  | blank blank later => cases empty
  | lexeme writable apart later =>
    obtain ⟨c, tail, chars, _⟩ := writable.first_eq apart
    rw [chars] at empty
    cases empty

/-! ### Lines -/

theorem Written.dropReturn {line : List Char} (written : Written kinds line.reverse) :
    Written kinds (Text.dropReturn line).reverse := by
  unfold Text.dropReturn
  split
  · next line =>
    rw [List.reverse_cons] at written
    obtain ⟨kinds₁, kinds₂, rfl, left, right⟩ := written.split line.reverse '\r' [] rfl (by decide)
    rwa [right.kinds_eq_nil, List.append_nil]
  · exact written

theorem Written.linesFrom (line rest : List Char) : ∀ kinds, Written kinds (line.reverse ++ rest) →
    ∃ parts, parts.flatten = kinds ∧ List.Forall₂ Written parts (Text.linesFrom line rest) := by
  induction rest generalizing line with
  | nil =>
    intro kinds written
    rw [List.append_nil] at written
    rw [Text.linesFrom]
    split
    · next empty =>
      rw [List.isEmpty_iff.mp empty] at written
      exact ⟨[], written.kinds_eq_nil.symm, .nil⟩
    · exact ⟨[kinds], by simp, .cons written .nil⟩
  | cons c rest ih =>
    intro kinds written
    rw [Text.linesFrom]
    split
    · next isNewline =>
      obtain ⟨kinds₁, kinds₂, rfl, left, right⟩ :=
        written.split line.reverse c rest rfl (by rw [isNewline]; decide)
      obtain ⟨parts, rfl, lines⟩ := ih [] kinds₂ right
      exact ⟨kinds₁ :: parts, rfl, .cons left.dropReturn lines⟩
    · refine ih (c :: line) kinds ?_
      rwa [List.reverse_cons, List.append_assoc]

theorem clean_scanLines {parts : List (List Kind)} {lines : List (List Char)}
    (written : List.Forall₂ Written parts lines) (file : String) (n : Nat) (eof : Position) :
    (scanLines file n eof (lines.map String.ofList)).Clean (parts.flatten ++ [.eof]) := by
  induction written generalizing n eof with
  | nil => exact ⟨rfl, rfl⟩
  | @cons kinds line parts lines first later ih =>
    rw [List.flatten_cons, List.append_assoc]
    refine Scan.Clean.append ?_ (ih _ _)
    rw [scanLine, String.toList_ofList]
    exact first.clean _

/-! ### Spelling -/

structure Spaced where
  gap : List Char
  kind : Kind
  blank : ∀ c ∈ gap, isBlank c = true
  writable : kind.Writable

def spell (parts : List Spaced) (trail : List Char) : List Char :=
  parts.flatMap (fun part => part.gap ++ part.kind.chars) ++ trail

theorem Written.blanks {gap : List Char} (blank : ∀ c ∈ gap, isBlank c = true)
    (later : Written kinds text) : Written kinds (gap ++ text) := by
  induction gap with
  | nil => exact later
  | cons c gap ih =>
    have later := ih fun d member => blank d (List.mem_cons_of_mem c member)
    exact .blank (blank c List.mem_cons_self) later

theorem blankFirst_spell {parts : List Spaced} {trail : List Char}
    (apart : ∀ part ∈ parts, part.gap ≠ []) (blank : ∀ c ∈ trail, isBlank c = true) :
    BlankFirst (spell parts trail) := by
  cases parts with
  | nil => exact fun c first => blank c (List.mem_of_head? first)
  | cons part parts =>
    intro c first
    have nonempty := apart part List.mem_cons_self
    refine part.blank c (List.mem_of_head? ?_)
    rw [Option.mem_def, spell, List.flatMap_cons, List.append_assoc, List.append_assoc] at first
    rwa [List.head?_append_of_ne_nil _ nonempty] at first

theorem written_spell {parts : List Spaced} {trail : List Char}
    (apart : ∀ part ∈ parts.tail, part.gap ≠ []) (blank : ∀ c ∈ trail, isBlank c = true) :
    Written (parts.map Spaced.kind) (spell parts trail) := by
  induction parts with
  | nil =>
    have := Written.done.blanks blank
    rwa [List.append_nil] at this
  | cons part parts ih =>
    have later := ih fun other member => apart other (List.mem_of_mem_tail member)
    have written := Written.lexeme part.writable (blankFirst_spell apart blank) later
    have := written.blanks part.blank
    rw [spell] at this ⊢
    rwa [List.flatMap_cons, List.append_assoc, List.append_assoc]

/-- Kinds that are written in order, with blanks between them and perhaps around them, are scanned
to these kinds and the end of the file, and nothing is reported. -/
theorem scan_spell (file : String) (parts : List Spaced) (trail : List Char)
    (apart : ∀ part ∈ parts.tail, part.gap ≠ []) (blank : ∀ c ∈ trail, isBlank c = true) :
    (scan file (String.ofList (spell parts trail))).errors = [] ∧
      (scan file (String.ofList (spell parts trail))).tokens.map Token.kind =
        parts.map Spaced.kind ++ [.eof] := by
  obtain ⟨lines, kinds, written⟩ := Written.linesFrom [] _ _ (written_spell apart blank)
  have clean := clean_scanLines written file 1 ⟨file, 1, 1⟩
  rw [kinds] at clean
  unfold scan Text.lines
  rw [String.toList_ofList]
  exact ⟨clean.2, clean.1⟩

theorem scan_spell_assignment :
    (scan "f" "x =\r\n\t1.5 ; ").errors = [] ∧
      (scan "f" "x =\r\n\t1.5 ; ").tokens.map Token.kind =
        [.ident "x", .mark .equal, .float "1.5", .mark .semicolon, .eof] := by
  have free : ∀ keyword : Keyword, keyword.spelling ≠ "x" := by
    intro keyword
    cases keyword <;> decide
  exact scan_spell "f"
    [⟨[], .ident "x", by simp, ⟨rfl, List.all_eq_true.mp rfl⟩, free⟩,
      ⟨[' '], .mark .equal, List.all_eq_true.mp rfl, trivial⟩,
      ⟨['\r', '\n', '\t'], .float "1.5", List.all_eq_true.mp rfl,
        ⟨rfl, List.all_eq_true.mp rfl⟩, rfl⟩,
      ⟨[' '], .mark .semicolon, List.all_eq_true.mp rfl, trivial⟩]
    [' '] (by simp) (List.all_eq_true.mp rfl)

end Token

end IonLang
