/-!
# Places in a YAML text

Which characters a YAML text may have, and a cursor that counts bytes, lines and columns as it moves
over the text. A carriage return and the line feed behind it are one line break.
-/

namespace IonLang.Yaml

def isAllowed (c : Char) : Bool :=
  let n := c.toNat
  n == 0x09 || n == 0x0A || n == 0x0D || (0x20 ≤ n && n ≤ 0x7E) || n == 0x85 ||
    (0xA0 ≤ n && n ≤ 0xD7FF) || (0xE000 ≤ n && n ≤ 0xFFFD) || 0x10000 ≤ n

def isBlank (c : Char) : Bool := c == ' ' || c == '\t'

def isBreak (c : Char) : Bool :=
  c == '\n' || c == '\r' || c == '\u0085' || c == '\u2028' || c == '\u2029'

def isGap (c : Char) : Bool := isBlank c || isBreak c

/-- Whether a blank, a line break or the end of the text comes next. -/
def atGap : List Char → Bool
  | [] => true
  | c :: _ => isGap c

def atLineEnd : List Char → Bool
  | [] => true
  | c :: _ => isBreak c

def isDigit (c : Char) : Bool := '0' ≤ c && c ≤ '9'

def isNameChar (c : Char) : Bool :=
  isDigit c || ('a' ≤ c && c ≤ 'z') || ('A' ≤ c && c ≤ 'Z') || c == '_' || c == '-'

def hexDigit? (c : Char) : Option Nat :=
  if isDigit c then some (c.toNat - '0'.toNat)
  else if 'a' ≤ c && c ≤ 'f' then some (c.toNat - 'a'.toNat + 10)
  else if 'A' ≤ c && c ≤ 'F' then some (c.toNat - 'A'.toNat + 10)
  else none

def isFlowMark (c : Char) : Bool := [',', '[', ']', '{', '}'].contains c

structure Cursor where
  rest : List Char
  /-- The number of bytes in front. -/
  offset : Nat := 0
  line : Nat := 0
  column : Nat := 0
  deriving Repr

namespace Cursor

def next (cur : Cursor) : Cursor :=
  match cur.rest with
  | [] => cur
  | c :: rest =>
    let offset := cur.offset + c.utf8Size
    if isBreak c && !(c == '\r' && rest.head? == some '\n') then ⟨rest, offset, cur.line + 1, 0⟩
    else ⟨rest, offset, cur.line, cur.column + 1⟩

def advance (cur : Cursor) : Nat → Cursor
  | 0 => cur
  | n + 1 => cur.next.advance n

/-- The longest front whose characters all satisfy `p`, and the cursor behind it. -/
def span (cur : Cursor) (p : Char → Bool) : List Char × Cursor :=
  let front := cur.rest.takeWhile p
  (front, cur.advance front.length)

def skip (cur : Cursor) (p : Char → Bool) : Cursor := (cur.span p).2

def skipBreak (cur : Cursor) : Cursor :=
  match cur.rest with
  | '\r' :: '\n' :: _ => cur.advance 2
  | c :: _ => if isBreak c then cur.next else cur
  | [] => cur

def looksAt (cur : Cursor) (c : Char) : Bool := cur.rest.head? == some c

def atDocumentMark (cur : Cursor) : Bool :=
  cur.column == 0 &&
    match cur.rest with
    | '-' :: '-' :: '-' :: rest => atGap rest
    | '.' :: '.' :: '.' :: rest => atGap rest
    | _ => false

/-- Moves over blanks and a comment to the end of the line and over the line break. Anything else
in the line is refused. -/
def finishLine? (cur : Cursor) : Option Cursor :=
  let cur := cur.skip isBlank
  let cur := if cur.looksAt '#' then cur.skip (!isBreak ·) else cur
  if atLineEnd cur.rest then some cur.skipBreak else none

end Cursor

/-! ### Line breaks inside scalars -/

/-- The line breaks in a text, each as the character that stands for it: a line separator and a
paragraph separator stand for themselves, all others for a line feed. -/
def breaksIn : List Char → List Char
  | [] => []
  | '\r' :: '\n' :: rest => '\n' :: breaksIn rest
  | c :: rest =>
    if c == '\u2028' || c == '\u2029' then c :: breaksIn rest
    else if isBreak c then '\n' :: breaksIn rest
    else breaksIn rest

/-- What line breaks inside a scalar stand for: a line feed alone is a space, a line feed in front
of others is left out, and all others are kept. -/
def foldBreaks : List Char → List Char
  | ['\n'] => [' ']
  | '\n' :: rest => rest
  | breaks => breaks

/-- What a gap inside a scalar stands for: blanks within a line are kept, and blanks around line
breaks are left out. -/
def foldGap (gap : List Char) : List Char :=
  if gap.any isBreak then foldBreaks (breaksIn gap) else gap

end IonLang.Yaml
