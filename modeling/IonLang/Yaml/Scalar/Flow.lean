import IonLang.Yaml.Cursor

/-!
# Plain and quoted scalars

Scalars that may go over several lines. A gap between words stands for what `foldGap` says. A plain
scalar ends where its words end, a quoted one at its closing quote. A document mark ends the one and
is refused inside the other.
-/

namespace IonLang.Yaml

/-! ### Plain scalars -/

def startsPlain (flow : Bool) : List Char → Bool
  | [] => false
  | c :: rest =>
    if c = '-' then !rest.head?.any isBlank
    else if c = '?' || c = ':' then !flow && !atGap rest
    else
      !(isGap c || isFlowMark c ||
        ['#', '&', '*', '!', '|', '>', '\'', '"', '%', '@', '\x60'].contains c)

/-- The length of the word of a plain scalar that begins here. It ends in front of a gap, of a colon
with a gap behind it and, in a flow collection, of a flow mark. A colon right in front of a flow
mark or a question mark is refused there. -/
def plainWord (flow : Bool) : List Char → Option Nat
  | [] => some 0
  | c :: rest =>
    if isGap c then some 0
    else if flow && c == ':' && rest.head?.any (fun d => isFlowMark d || d == '?') then none
    else if (c == ':' && atGap rest) || (flow && isFlowMark c) then some 0
    else (plainWord flow rest).map (· + 1)

/-- Whether a gap has a tab in the indentation of a line, in front of column `margin`. `column` is
the place in a line that began inside the gap. -/
def tabIndents (margin : Nat) : Option Nat → List Char → Bool
  | _, [] => false
  | column, c :: rest =>
    if isBreak c then tabIndents margin (some 0) rest
    else (c == '\t' && column.any (· < margin)) || tabIndents margin (column.map (· + 1)) rest

/-- A plain scalar whose lines are indented by at least `margin`: its text, whether the gap behind
it has a line break, and the cursor behind that gap. `gap` is the gap in front of the cursor. -/
def plainScalar (flow : Bool) (margin : Nat) (gap : List Char) :
    Nat → Cursor → Option (List Char × Bool × Cursor)
  | 0, _ => none
  | fuel + 1, cur => do
    let ended := some ([], gap.any isBreak, cur)
    if cur.atDocumentMark || cur.looksAt '#' then ended
    else
      let length ← plainWord flow cur.rest
      if length = 0 then ended
      else
        let word := foldGap gap ++ cur.rest.take length
        let (gap, next) := (cur.advance length).span isGap
        if tabIndents margin none gap then none
        else if gap.isEmpty || (!flow && next.column < margin) then
          some (word, gap.any isBreak, next)
        else
          let (text, rest) ← plainScalar flow margin gap fuel next
          some (word ++ text, rest)

/-! ### Quoted scalars -/

/-- The character whose code point is written in exactly `count` hexadecimal digits. -/
def codePoint? (count : Nat) (text : List Char) : Option Char := do
  let digits ← (text.take count).mapM hexDigit?
  let value := digits.foldl (fun value digit => 16 * value + digit) 0
  if digits.length = count && value.isValidChar then some (Char.ofNat value) else none

def shortEscapes : List (Char × Nat) :=
  [('0', 0x00), ('a', 0x07), ('b', 0x08), ('t', 0x09), ('\t', 0x09), ('n', 0x0A), ('v', 0x0B),
    ('f', 0x0C), ('r', 0x0D), ('e', 0x1B), (' ', 0x20), ('"', 0x22), ('/', 0x2F), ('\\', 0x5C),
    ('N', 0x85), ('_', 0xA0), ('L', 0x2028), ('P', 0x2029)]

/-- The character that an escape stands for, and how long the escape is behind its backslash. -/
def escape? : List Char → Option (Char × Nat)
  | 'x' :: rest => (codePoint? 2 rest).map (·, 3)
  | 'u' :: rest => (codePoint? 4 rest).map (·, 5)
  | 'U' :: rest => (codePoint? 8 rest).map (·, 9)
  | c :: _ => (shortEscapes.lookup c).map fun code => (Char.ofNat code, 1)
  | [] => none

/-- The gap inside a quoted scalar and the cursor behind it, where no document mark may stand. -/
def Cursor.quotedGap? (cur : Cursor) : Option (List Char × Cursor) :=
  let (gap, next) := cur.span isGap
  if next.atDocumentMark then none else some (gap, next)

/-- A scalar in single quotes whose opening quote has been read. A quote inside it is written
twice. -/
def singleQuoted : Nat → Cursor → Option (List Char × Cursor)
  | 0, _ => none
  | fuel + 1, cur =>
    match cur.rest with
    | [] => none
    | '\'' :: '\'' :: _ => do
      let (text, rest) ← singleQuoted fuel (cur.advance 2)
      some ('\'' :: text, rest)
    | '\'' :: _ => some ([], cur.next)
    | c :: _ => do
      if isGap c then
        let (gap, next) ← cur.quotedGap?
        let (text, rest) ← singleQuoted fuel next
        some (foldGap gap ++ text, rest)
      else
        let (text, rest) ← singleQuoted fuel cur.next
        some (c :: text, rest)

/-- A scalar in double quotes whose opening quote has been read. An escaped line break stands for
nothing, and of the gap behind it only the line breaks are kept. -/
def doubleQuoted : Nat → Cursor → Option (List Char × Cursor)
  | 0, _ => none
  | fuel + 1, cur =>
    match cur.rest with
    | [] => none
    | '"' :: _ => some ([], cur.next)
    | '\\' :: rest => do
      if rest.head?.any isBreak then
        let (gap, next) ← cur.next.skipBreak.quotedGap?
        let (text, rest) ← doubleQuoted fuel next
        some (breaksIn gap ++ text, rest)
      else
        let (c, length) ← escape? rest
        let (text, rest) ← doubleQuoted fuel (cur.advance (length + 1))
        some (c :: text, rest)
    | c :: _ => do
      if isGap c then
        let (gap, next) ← cur.quotedGap?
        let (text, rest) ← doubleQuoted fuel next
        some (foldGap gap ++ text, rest)
      else
        let (text, rest) ← doubleQuoted fuel cur.next
        some (c :: text, rest)

end IonLang.Yaml
