import IonLang.Diagnostic
import IonLang.Text.Blank
import IonLang.Text.Decimal
import IonLang.Text.Lines

/-!
# Scanning

A line is cut into pieces from the left: a blank, a token, or a character that starts no token.
`Cut.text_append_rest` says that cutting loses nothing, and `Cut.text_ne_nil` that every piece has
at least one character, so cutting a line comes to an end.
-/

namespace IonLang.Token

/-- What the front of a line turned out to be. -/
inductive Piece where
  | blank
  | token (kind : Kind)
  | stray (c : Char)
  deriving DecidableEq, Repr

/-- A piece with the characters it takes and the characters behind it. -/
structure Cut where
  piece : Piece
  text : List Char
  rest : List Char
  deriving Repr

def isWordChar (c : Char) : Bool :=
  c == '_' || Text.isDigit c || ('a' ≤ c && c ≤ 'z') || ('A' ≤ c && c ≤ 'Z')

def isNumberChar (c : Char) : Bool := Text.isDigit c || c == '.'

def Kind.ofWord (word : List Char) : Kind :=
  match Keyword.ofString? (String.ofList word) with
  | some k => .keyword k
  | none => .ident (String.ofList word)

/-- A number with a dot is a float. -/
def Kind.ofNumber (text : List Char) : Kind :=
  if text.contains '.' then .float (String.ofList text) else .integer (String.ofList text)

/-- The longest front of `c :: rest` whose later characters all satisfy `p`. -/
def Cut.run (p : Char → Bool) (kind : List Char → Kind) (c : Char) (rest : List Char) : Cut :=
  let text := c :: rest.takeWhile p
  ⟨.token (kind text), text, rest.dropWhile p⟩

/-- Cuts the first piece off a line that begins with `c` and does not begin with a blank or with a
token of two characters. -/
def Cut.single (c : Char) (rest : List Char) : Cut :=
  match Mark.ofChar? c with
  | some mark => ⟨.token (.mark mark), [c], rest⟩
  | none =>
    if Text.isDigit c then Cut.run isNumberChar Kind.ofNumber c rest
    else if isWordChar c then Cut.run isWordChar Kind.ofWord c rest
    else ⟨.stray c, [c], rest⟩

/-- A comment reaches to the end of the line, and its text begins at the first non-blank. -/
def Cut.comment (rest : List Char) : Cut :=
  ⟨.token (.comment (String.ofList (rest.dropWhile Text.isBlank))), '/' :: '/' :: rest, []⟩

def Cut.first (c : Char) (rest : List Char) : Cut :=
  if Text.isBlank c then ⟨.blank, [c], rest⟩
  else
    match rest with
    | [] => Cut.single c []
    | d :: tail =>
      if c = '/' ∧ d = '/' then Cut.comment tail
      else
        match Mark.ofPair? c d with
        | some mark => ⟨.token (.mark mark), [c, d], tail⟩
        | none => Cut.single c (d :: tail)

theorem Cut.text_append_rest_run (p : Char → Bool) (kind : List Char → Kind) (c : Char)
    (rest : List Char) : (Cut.run p kind c rest).text ++ (Cut.run p kind c rest).rest = c :: rest := by
  simp [Cut.run]

theorem Cut.text_append_rest_single (c : Char) (rest : List Char) :
    (Cut.single c rest).text ++ (Cut.single c rest).rest = c :: rest := by
  unfold Cut.single
  split
  · rfl
  · split
    · exact Cut.text_append_rest_run _ _ _ _
    · split
      · exact Cut.text_append_rest_run _ _ _ _
      · rfl

/-- The characters of the first piece and those behind it are the line. -/
theorem Cut.text_append_rest (c : Char) (rest : List Char) :
    (Cut.first c rest).text ++ (Cut.first c rest).rest = c :: rest := by
  unfold Cut.first
  split
  · rfl
  · split
    · exact Cut.text_append_rest_single _ _
    · split
      · rename_i d tail slashes
        simp [Cut.comment, slashes]
      · split
        · rfl
        · exact Cut.text_append_rest_single _ _

theorem Cut.text_ne_nil_single (c : Char) (rest : List Char) : (Cut.single c rest).text ≠ [] := by
  unfold Cut.single
  repeat' split
  all_goals simp [Cut.run]

/-- Every piece has at least one character. -/
theorem Cut.text_ne_nil (c : Char) (rest : List Char) : (Cut.first c rest).text ≠ [] := by
  unfold Cut.first
  split
  · simp
  · split
    · exact Cut.text_ne_nil_single _ _
    · split
      · simp [Cut.comment]
      · split
        · simp
        · exact Cut.text_ne_nil_single _ _

theorem Cut.length_rest_lt (c : Char) (rest : List Char) :
    (Cut.first c rest).rest.length < (c :: rest).length := by
  have whole := congrArg List.length (Cut.text_append_rest c rest)
  have front := List.length_pos_iff.mpr (Cut.text_ne_nil c rest)
  rw [List.length_append] at whole
  omega

def byteSize : List Char → Nat
  | [] => 0
  | c :: rest => c.utf8Size + byteSize rest

structure Scan where
  tokens : List Token := []
  errors : List Diagnostic := []
  deriving DecidableEq, Repr

def Scan.append (a b : Scan) : Scan := ⟨a.tokens ++ b.tokens, a.errors ++ b.errors⟩

/-- What a piece contributes when it begins at `pos`. A float with several dots is still a token,
and each dot after the first is reported at the start of the number. -/
def Piece.scan (pos : Position) : Piece → Scan
  | .blank => {}
  | .stray c => { errors := [.strayCharacter c pos] }
  | .token (.float text) =>
    { tokens := [⟨.float text, pos⟩]
      errors := List.replicate (text.toList.count '.' - 1) (.extraDot pos) }
  | .token kind => { tokens := [⟨kind, pos⟩] }

def scanFrom (pos : Position) : List Char → Scan
  | [] => {}
  | c :: rest =>
    let cut := Cut.first c rest
    (cut.piece.scan pos).append
      (scanFrom { pos with column := pos.column + byteSize cut.text } cut.rest)
termination_by text => text.length
decreasing_by exact Cut.length_rest_lt c rest

def scanLine (file : String) (line : Nat) (text : String) : Scan :=
  scanFrom ⟨file, line, 1⟩ text.toList

/-- Scans lines that are numbered from `line`, and ends with the end of the file: it stands behind
the last character of the last line, or at `eof` if there is no line. -/
def scanLines (file : String) (line : Nat) (eof : Position) : List String → Scan
  | [] => { tokens := [⟨.eof, eof⟩] }
  | text :: rest =>
    (scanLine file line text).append
      (scanLines file (line + 1) ⟨file, line, text.utf8ByteSize + 1⟩ rest)

/-- Scans a source text. The last token is the end of the file, and it is the only one. -/
def scan (file source : String) : Scan :=
  scanLines file 1 ⟨file, 1, 1⟩ (Text.lines source)

end IonLang.Token
