import IonLang.Yaml.Cursor

/-!
# Block scalars

Scalars that take whole lines, told from what follows by their indentation. A header says how the
last line breaks count and may say how deep the lines are indented; otherwise the first line that is
not blank says so. A literal scalar keeps its line breaks, a folded one folds those between lines
that do not begin with a blank.
-/

namespace IonLang.Yaml

/-- How the line breaks at the end of a block scalar count: not at all, the first one, or all. -/
inductive Chomping where
  | strip | clip | keep
  deriving DecidableEq, Repr

/-- The line breaks that are kept of the first one, `last`, and of those behind it. -/
def Chomping.keeps : Chomping → List Char → List Char → List Char
  | strip, _, _ => []
  | clip, last, _ => last
  | keep, last, trailing => last ++ trailing

def Cursor.chomping (cur : Cursor) : Option Chomping × Cursor :=
  match cur.rest with
  | '+' :: _ => (some .keep, cur.next)
  | '-' :: _ => (some .strip, cur.next)
  | _ => (none, cur)

/-- The digit for the depth of a block scalar, if one comes next. It is not zero. -/
def Cursor.indentation? (cur : Cursor) : Option (Option Nat × Cursor) :=
  match cur.rest with
  | c :: _ =>
    if c == '0' then none
    else if isDigit c then some (some (c.toNat - '0'.toNat), cur.next)
    else some (none, cur)
  | [] => some (none, cur)

/-- The header of a block scalar: its two marks stand in either order. -/
def Cursor.blockHeader? (cur : Cursor) : Option (Chomping × Option Nat × Cursor) := do
  let (before, cur) := cur.chomping
  let (depth, cur) ← cur.indentation?
  let (chomping, cur) :=
    match before with
    | some chomping => (some chomping, cur)
    | none => cur.chomping
  some (chomping.getD .clip, depth, ← cur.finishLine?)

/-- Blank lines and the indentation of the line behind them: the line breaks, the deepest
indentation seen, and the cursor behind it all. Indentation ends at column `indent`, if that is
known, and has no tab. -/
def blankLines (indent : Option Nat) (deepest : Nat) :
    Nat → Cursor → Option (List Char × Nat × Cursor)
  | 0, _ => none
  | fuel + 1, cur =>
    let spaces := (cur.rest.takeWhile (· == ' ')).length
    let cur := cur.advance ((indent.map fun indent => min spaces (indent - cur.column)).getD spaces)
    let deepest := max deepest cur.column
    if cur.looksAt '\t' && indent.all (cur.column < ·) then none
    else if cur.rest.head?.any isBreak then do
      let (breaks, rest) ← blankLines indent deepest fuel cur.skipBreak
      some (breaksIn (cur.rest.take 1) ++ breaks, rest)
    else some ([], deepest, cur)

/-- The lines of a block scalar that are indented by `indent`. `last` is the line break of the line
before, `trailing` those of blank lines behind it, and `spaced` says whether that line began with a
blank. -/
def blockLines (folded : Bool) (chomping : Chomping) (indent : Nat) (spaced : Bool)
    (last trailing : List Char) : Nat → Cursor → Option (List Char × Cursor)
  | 0, _ => none
  | fuel + 1, cur => do
    if cur.column = indent && !cur.rest.isEmpty then
      let spacedHere := cur.rest.head?.any isBlank
      let joint :=
        if folded && last.head? == some '\n' && !spaced && !spacedHere then
          if trailing.isEmpty then [' '] else []
        else last
      let (line, cur) := cur.span (!isBreak ·)
      let (breaks, _, next) ← blankLines (some indent) 0 (fuel + 1) cur.skipBreak
      let (text, rest) ←
        blockLines folded chomping indent spacedHere (breaksIn (cur.rest.take 1)) breaks fuel next
      some (joint ++ trailing ++ line ++ text, rest)
    else some (chomping.keeps last trailing, cur)

/-- A block scalar behind its first mark. `margin` is the least column of what may stand inside the
block around it. -/
def blockScalar (folded : Bool) (margin : Nat) (cur : Cursor) : Option (List Char × Cursor) := do
  let (chomping, depth, cur) ← cur.blockHeader?
  let indent := depth.map (margin - 1 + ·)
  let (breaks, deepest, cur) ← blankLines indent 0 (cur.rest.length + 1) cur
  let indent := indent.getD (max deepest (max margin 1))
  blockLines folded chomping indent false [] breaks (cur.rest.length + 1) cur

end IonLang.Yaml
