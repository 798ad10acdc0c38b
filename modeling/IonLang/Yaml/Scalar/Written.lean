import IonLang.Text.Layout
import IonLang.Yaml.Scalar.Number
import IonLang.Yaml.Token

/-!
# Writing scalars

The text of a scalar in a block, in the plainest style that reads back as the same text: plain,
in single quotes, in double quotes, or as literal lines. Lines are never folded.
-/

namespace IonLang.Yaml

/-! ### Choosing a style -/

def reservedTexts : List String :=
  ["", "~", "null", "Null", "NULL", "true", "True", "TRUE", "false", "False", "FALSE"]

def preferredStyle (text : String) : Style :=
  if text.contains '\n' then .literal
  else if reservedTexts.contains text || isNumeric text then .singleQuoted
  else .plain

def isShown (c : Char) : Bool :=
  let n := c.toNat
  n == 0x0A || (0x20 ≤ n && n ≤ 0x7E) || (0xA0 ≤ n && n ≤ 0xD7FF) ||
    (0xE000 ≤ n && n ≤ 0xFFFD && n != 0xFEFF) || 0x10000 ≤ n

/-- Whether a text begins with a mark, so that it would not be taken for a plain scalar. -/
def startsMarked : List Char → Bool
  | '-' :: '-' :: '-' :: _ => true
  | '.' :: '.' :: '.' :: _ => true
  | c :: rest =>
    ['#', ',', '[', ']', '{', '}', '&', '*', '!', '|', '>', '\'', '"', '%', '@', '\x60'].contains c
      || (['?', ':', '-'].contains c && atGap rest)
  | [] => false

/-- Whether a colon ends a word or a number sign begins one; `before` is the character in front. -/
def hasMark (before : Char) : List Char → Bool
  | [] => false
  | c :: rest =>
    (c == ':' && atGap rest) || (c == '#' && isGap before) || hasMark c rest

def hasPair (first second : Char → Bool) : List Char → Bool
  | c :: d :: rest => (first c && second d) || hasPair first second (d :: rest)
  | _ => false

def isSpaceOrBreak (c : Char) : Bool := c == ' ' || isBreak c

def allowsPlain (text : List Char) : Bool :=
  text.all isShown && !text.any isBreak && !text.head?.any isSpaceOrBreak &&
    !text.getLast?.any isSpaceOrBreak && !startsMarked text && !hasMark 'a' text

def allowsSingleQuotes (text : List Char) : Bool :=
  text.all isShown && !hasPair isBreak (· == ' ') text && !hasPair (· == ' ') isBreak text

def allowsLiteral (text : List Char) : Bool :=
  text.all isShown && !hasPair (· == ' ') isBreak text && text.getLast? != some ' '

def writtenStyle (text : String) : Style :=
  let chars := text.toList
  let quoted : Style := if allowsSingleQuotes chars then .singleQuoted else .doubleQuoted
  match preferredStyle text with
  | .plain => if allowsPlain chars then .plain else quoted
  | .literal => if allowsLiteral chars then .literal else .doubleQuoted
  | _ => quoted

/-! ### Writing in a style -/

/-- The first letters of escapes, by what they stand for. -/
def writtenEscapes : List (Nat × Char) :=
  [(0x00, '0'), (0x07, 'a'), (0x08, 'b'), (0x09, 't'), (0x0A, 'n'), (0x0B, 'v'), (0x0C, 'f'),
    (0x0D, 'r'), (0x1B, 'e'), (0x22, '"'), (0x5C, '\\'), (0x85, 'N'), (0xA0, '_'), (0x2028, 'L'),
    (0x2029, 'P')]

def writeEscaped (c : Char) : String :=
  let n := c.toNat
  if isShown c && !isBreak c && c != '"' && c != '\\' then String.singleton c
  else
    match writtenEscapes.lookup n with
    | some letter => String.ofList ['\\', letter]
    | none =>
      if n ≤ 0xFF then "\\x" ++ Text.hexUpper 2 n
      else if n ≤ 0xFFFF then "\\u" ++ Text.hexUpper 4 n
      else "\\U" ++ Text.hexUpper 8 n

/-- Lines that are indented where they begin with a character; `fresh` says that a line begins. -/
def indentLines (indent : Nat) (fresh : Bool) : List Char → List Char
  | [] => []
  | c :: rest =>
    if isBreak c then c :: indentLines indent true rest
    else (if fresh then List.replicate indent ' ' else []) ++ c :: indentLines indent false rest

/-- A text in single quotes, in which a quote is written twice. -/
def writeSingleQuoted (indent : Nat) (text : List Char) : String :=
  let doubled := text.flatMap fun c => if c == '\'' then ['\'', '\''] else [c]
  "'" ++ String.ofList (indentLines indent false (doubled ++ ['\'']))

/-- The marks of a literal scalar: a depth if its first line does not show it, and how the line
breaks at its end count. -/
def literalHeader (text : List Char) : String :=
  let depth := if text.head?.any isSpaceOrBreak then "2" else ""
  let chomping :=
    match text.reverse with
    | last :: before =>
      if !isBreak last then "-" else if before.isEmpty || before.head?.any isBreak then "+" else ""
    | [] => "-"
  "|" ++ depth ++ chomping ++ "\n"

/-- A scalar as it is written; lines behind the first are indented by `indent`. -/
def writeScalar (indent : Nat) (text : String) : String :=
  match writtenStyle text with
  | .plain => text
  | .singleQuoted => writeSingleQuoted indent text.toList
  | .literal | .folded =>
    literalHeader text.toList ++ String.ofList (indentLines indent true text.toList)
  | .doubleQuoted => "\"" ++ String.join (text.toList.map writeEscaped) ++ "\""

/-- Ends the line of a scalar, unless that has ended already. -/
def endLine (written : String) : String :=
  if written.toList.getLast?.any isBreak then written else written ++ "\n"

def longestSimpleKey : Nat := 128

/-- Whether a key is written in front of its colon with no mark of its own. -/
def isSimpleKey (key : String) : Bool :=
  key.utf8ByteSize ≤ longestSimpleKey && !key.toList.any isBreak

end IonLang.Yaml
