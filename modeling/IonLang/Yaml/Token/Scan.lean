import IonLang.Yaml.Scalar.Block
import IonLang.Yaml.Scalar.Flow
import IonLang.Yaml.Tag

/-!
# The tokens of a YAML text

Two things of a text are known only later than where they begin. A node turns out to be a key when a
colon follows it, so each node that may be a key is remembered until the colon, and the tokens that
begin a mapping and a key are then put in front of it. A block collection ends where a line is
indented less than its entries.
-/

namespace IonLang.Yaml

/-- A node that is a key if a colon follows it in the same line and not too far away. -/
structure KeyCandidate where
  /-- Whether nothing but a key may stand in its column. -/
  required : Bool
  /-- The number of tokens in front of it. -/
  place : Nat
  offset : Nat
  line : Nat
  column : Nat
  deriving Repr

/-- How many bytes a key and the blanks behind it may take. -/
def KeyCandidate.reach : Nat := 1024

def KeyCandidate.isStale (key : KeyCandidate) (cur : Cursor) : Bool :=
  key.line < cur.line || key.offset + reach < cur.offset

structure Scan where
  cursor : Cursor
  /-- The tokens so far, the latest first. -/
  tokens : List Token := []
  count : Nat := 0
  /-- The column behind the one of the entries of the innermost block; nought outside all blocks. -/
  margin : Nat := 0
  /-- The same of the blocks around it. -/
  margins : List Nat := []
  /-- The last node of the innermost flow collection that may be a key. -/
  candidate : Option KeyCandidate := none
  /-- The same of the collections around it. -/
  outer : List (Option KeyCandidate) := []
  /-- Whether the next node may be a key. -/
  keyAllowed : Bool := true

namespace Scan

def inFlow (s : Scan) : Bool := !s.outer.isEmpty

def push (s : Scan) (token : Token) : Scan :=
  { s with tokens := token :: s.tokens, count := s.count + 1 }

def insert (s : Scan) (place : Nat) (token : Token) : Scan :=
  let later := s.count - place
  { s with
    tokens := s.tokens.take later ++ token :: s.tokens.drop later
    count := s.count + 1 }

def take (s : Scan) (length : Nat) (token : Token) : Scan :=
  { s.push token with cursor := s.cursor.advance length }

/-! ### Blocks -/

/-- Begins a block collection with entries in a column, unless it has begun before. Its token goes
behind the first `place` tokens. -/
def openBlock (s : Scan) (column place : Nat) (token : Token) : Scan :=
  if s.inFlow || column < s.margin then s
  else { s.insert place token with margin := column + 1, margins := s.margin :: s.margins }

/-- Ends blocks until the margin is at most `limit`. -/
def closeBlocksFrom (limit : Nat) (s : Scan) : List Nat → Scan
  | [] => s
  | margin :: margins =>
    if limit < s.margin then
      closeBlocksFrom limit { s.push .blockEnd with margin := margin, margins := margins } margins
    else s

/-- Ends the blocks whose margin is beyond `limit`; inside a flow collection there are none. -/
def closeBlocks (s : Scan) (limit : Nat) : Scan :=
  if s.inFlow then s else closeBlocksFrom limit s s.margins

/-! ### Keys -/

def dropCandidate? (s : Scan) : Option Scan :=
  if s.candidate.any (·.required) then none else some { s with candidate := none }

def saveCandidate? (s : Scan) : Option Scan := do
  if s.keyAllowed then
    let required := !s.inFlow && s.margin == s.cursor.column + 1
    let key : KeyCandidate := ⟨required, s.count, s.cursor.offset, s.cursor.line, s.cursor.column⟩
    some { ← s.dropCandidate? with candidate := some key }
  else some s

def dropStale? (s : Scan) : Option Scan :=
  let stale (key : Option KeyCandidate) : Bool := key.any (·.isStale s.cursor)
  if (s.candidate :: s.outer).any (fun key => stale key && key.any (·.required)) then none
  else
    some
      { s with
        candidate := s.candidate.filter (!·.isStale s.cursor)
        outer := s.outer.map (·.filter (!·.isStale s.cursor)) }

/-! ### Tokens -/

/-- Moves over blanks, comments and line breaks. In a block a tab does not indent, so no tab is
skipped where a key may stand. -/
def skipGap : Nat → Scan → Scan
  | 0, s => s
  | fuel + 1, s =>
    let cur := s.cursor
    let cur := if cur.offset == 0 && cur.looksAt '\uFEFF' then cur.next else cur
    let cur := cur.skip fun c => c == ' ' || (c == '\t' && (s.inFlow || !s.keyAllowed))
    let cur := if cur.looksAt '#' then cur.skip (!isBreak ·) else cur
    if cur.rest.head?.any isBreak then
      skipGap fuel
        { s with cursor := cur.skipBreak, keyAllowed := s.keyAllowed || !s.inFlow }
    else { s with cursor := cur }

/-- A mark between documents, or a directive in front of one: all blocks end there. -/
def endDocument? (s : Scan) : Option Scan := do
  some { ← (s.closeBlocks 0).dropCandidate? with keyAllowed := false }

def openFlow? (s : Scan) (token : Token) : Option Scan := do
  let s ← s.saveCandidate?
  some
    { s.take 1 token with
      candidate := none
      outer := s.candidate :: s.outer
      keyAllowed := true }

/-- The end of a flow collection, which as a whole may be a key. -/
def closeFlow? (s : Scan) (token : Token) : Option Scan := do
  let s := { (← s.dropCandidate?).take 1 token with keyAllowed := false }
  match s.outer with
  | [] => some s
  | candidate :: outer => some { s with candidate := candidate, outer := outer }

def blockMark? (s : Scan) (start token : Token) (keyAllowed : Bool) : Option Scan := do
  if !s.inFlow && !s.keyAllowed then none
  let s ← (s.openBlock s.cursor.column s.count start).dropCandidate?
  some { s.take 1 token with keyAllowed := keyAllowed }

/-- The colon in front of a value. If a node in front of it may be a key, it is one. -/
def value? (s : Scan) : Option Scan := do
  match s.candidate with
  | some key =>
    let s := (s.insert key.place .key).openBlock key.column key.place .blockMappingStart
    some { s.take 1 .value with candidate := none, keyAllowed := false }
  | none =>
    if !s.inFlow && !s.keyAllowed then none
    let s := s.openBlock s.cursor.column s.count .blockMappingStart
    some { s.take 1 .value with keyAllowed := !s.inFlow }

def node? (s : Scan) (read : Cursor → Option (Token × Cursor)) : Option Scan := do
  let s ← s.saveCandidate?
  let (token, cur) ← read s.cursor
  some { s.push token with cursor := cur, keyAllowed := false }

/-- A plain scalar. Behind a line break the next node may be a key. -/
def plain? (fuel : Nat) (s : Scan) : Option Scan := do
  let s ← s.saveCandidate?
  let (text, broken, cur) ← plainScalar s.inFlow s.margin [] fuel s.cursor
  some
    { s.push (.scalar (String.ofList text) .plain) with
      cursor := cur
      keyAllowed := broken }

def block? (style : Style) (s : Scan) : Option Scan := do
  let s ← s.dropCandidate?
  let (text, cur) ← blockScalar (style == .folded) s.margin s.cursor.next
  some
    { s.push (.scalar (String.ofList text) style) with
      cursor := cur
      keyAllowed := true }

/-- A tag, which a blank or, in a flow collection, a comma follows. -/
def readTag? (flow : Bool) (cur : Cursor) : Option (Token × Cursor) := do
  let (name, cur) ← tagName? cur
  if atGap cur.rest || (flow && cur.looksAt ',') then some (.tag name, cur) else none

def readQuoted? (fuel : Nat) (style : Style) (cur : Cursor) : Option (Token × Cursor) := do
  let (text, cur) ←
    if style == .singleQuoted then singleQuoted fuel cur.next else doubleQuoted fuel cur.next
  some (.scalar (String.ofList text) style, cur)

def token? (fuel : Nat) (s : Scan) : Option Scan :=
  match s.cursor.rest with
  | [] => none
  | c :: rest =>
    if c == '%' && s.cursor.column == 0 then do
      let s ← s.endDocument?
      let (token, cur) ← directive? s.cursor.next
      some { s.push token with cursor := cur }
    else if s.cursor.atDocumentMark then do
      some ((← s.endDocument?).take 3 (if c == '-' then .documentStart else .documentEnd))
    else if c == '[' then s.openFlow? .flowSequenceStart
    else if c == '{' then s.openFlow? .flowMappingStart
    else if c == ']' then s.closeFlow? .flowSequenceEnd
    else if c == '}' then s.closeFlow? .flowMappingEnd
    else if c == ',' then do
      some { (← s.dropCandidate?).take 1 .flowEntry with keyAllowed := true }
    else if c == '-' && atGap rest then s.blockMark? .blockSequenceStart .blockEntry true
    else if c == '?' && (s.inFlow || atGap rest) then
      s.blockMark? .blockMappingStart .key (!s.inFlow)
    else if c == ':' && (s.inFlow || atGap rest) then s.value?
    else if c == '*' then
      s.node? fun cur => do
        let (name, cur) ← anchorName? cur.next
        some (.aliasOf name, cur)
    else if c == '&' then
      s.node? fun cur => do
        let (name, cur) ← anchorName? cur.next
        some (.anchor name, cur)
    else if c == '!' then s.node? (readTag? s.inFlow)
    else if c == '|' && !s.inFlow then s.block? .literal
    else if c == '>' && !s.inFlow then s.block? .folded
    else if c == '\'' then s.node? (readQuoted? fuel .singleQuoted)
    else if c == '"' then s.node? (readQuoted? fuel .doubleQuoted)
    else if startsPlain s.inFlow s.cursor.rest then s.plain? fuel
    else none

def finish? (s : Scan) : Option (List Token) := do
  let s ← s.endDocument?
  some (s.push .streamEnd).tokens.reverse

/-- All tokens of the text from the cursor on. Each token takes a character, so `fuel` need not be
more than their number. -/
def tokens? : Nat → Scan → Option (List Token)
  | 0, _ => none
  | fuel + 1, s => do
    let s ← (skipGap (fuel + 1) s).dropStale?
    let s := s.closeBlocks (s.cursor.column + 1)
    if s.cursor.rest.isEmpty then s.finish? else tokens? fuel (← s.token? (fuel + 1))

end Scan

def Token.scan? (text : String) : Option (List Token) :=
  let chars := text.toList
  if chars.all isAllowed then Scan.tokens? (chars.length + 2) { cursor := { rest := chars } }
  else none

end IonLang.Yaml
