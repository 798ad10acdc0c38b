import IonLang.Grammar.Expression

/-!
# Statements

    block     = "{" { statement } "}" | statement
    statement = ";" | block | if | while | do | switch | putc | expression ";"
    if        = "if" "(" expression ")" block [ "else" block ]
    while     = "while" "(" expression ")" block
    do        = "do" block "while" "(" expression ")" ";"
    switch    = "switch" "(" expression ")" "{" { case } [ default ] "}"
    case      = "case" expression ":" { statement }
    default   = "default" ":" { statement }
    putc      = "putc" "(" expression ")" ";"

As for expressions, each rule is a function of the parser for statements, and `statement` closes
the circle.
-/

namespace IonLang.Grammar

def missingBrace : Parser Unit := do
  record (.missingCharacter '}' (← position))

/-- Adds the node of a statement; an empty statement has none. -/
def addStatement (body : List Node) : Option Node → List Node
  | some node => body ++ [node]
  | none => body

/-- One statement, or the closing brace, which is consumed. -/
def statementRound (statement : Parser (Option Node)) (body : List Node) :
    Parser (ForInStep (List Node)) := do
  match ← peekKind with
  | .mark .rcurly =>
    skip
    pure (.done body)
  | .eof =>
    missingBrace
    pure (.done body)
  | _ =>
    let node ← statement
    pure (.yield (addStatement body node))

def bracedBody (statement : Parser (Option Node)) : Parser (List Node) :=
  repeatUntilDone (statementRound statement) []

def blockOf (statement : Parser (Option Node)) : Parser Node := do
  if ← accept (.mark .lcurly) then
    let body ← bracedBody statement
    build (.block · body)
  else
    match ← statement with
    | some node => pure node
    | none => build (.block · [])

def parenthesized : Parser Node := do
  expect .lparen
  let inner ← expression
  expect .rparen
  pure inner

def ifOf (statement : Parser (Option Node)) : Parser Node := do
  skip
  let cond ← parenthesized
  let thenPart ← blockOf statement
  if ← accept (.keyword .elseWord) then
    let elsePart ← blockOf statement
    build (.ifElse · cond thenPart (some elsePart))
  else build (.ifElse · cond thenPart none)

def whileOf (statement : Parser (Option Node)) : Parser Node := do
  skip
  let cond ← parenthesized
  let body ← blockOf statement
  build (.whileLoop · cond body)

def doOf (statement : Parser (Option Node)) : Parser Node := do
  skip
  let body ← blockOf statement
  expectWord .whileWord
  let cond ← parenthesized
  expect .semicolon
  build (.doWhile · body cond)

def endsCase : Token.Kind → Bool
  | .keyword .caseWord | .keyword .defaultWord | .mark .rcurly | .eof => true
  | _ => false

def caseRound (statement : Parser (Option Node)) (body : List Node) :
    Parser (ForInStep (List Node)) := do
  if ← observe fun s => s.check endsCase then pure (.done body)
  else
    let node ← statement
    pure (.yield (addStatement body node))

def caseBody (statement : Parser (Option Node)) : Parser Node := do
  let body ← repeatUntilDone (caseRound statement) []
  build (.block · body)

/-- The cases of a switch read so far, and its default block. -/
structure Cases where
  cases : List (Node × Node) := []
  fallback : Option Node := none

/-- Reports a case or default that follows a default; it is read all the same. -/
def reportAfterDefault (cases : Cases) : Parser Unit := do
  if cases.fallback.isSome then record (.expectedWord Mark.rcurly.spelling (← current))

def switchRound (statement : Parser (Option Node)) (cases : Cases) :
    Parser (ForInStep Cases) := do
  match ← peekKind with
  | .keyword .caseWord =>
    reportAfterDefault cases
    skip
    let value ← expression
    expect .colon
    let body ← caseBody statement
    pure (.yield { cases with cases := cases.cases ++ [(value, body)] })
  | .keyword .defaultWord =>
    reportAfterDefault cases
    skip
    expect .colon
    let body ← caseBody statement
    pure (.yield { cases with fallback := some body })
  | .mark .rcurly =>
    skip
    pure (.done cases)
  | .eof =>
    missingBrace
    pure (.done cases)
  | _ =>
    expectWord .caseWord
    pure (.yield cases)

def switchOf (statement : Parser (Option Node)) : Parser Node := do
  skip
  let subject ← parenthesized
  expect .lcurly
  let cases ← repeatUntilDone (switchRound statement) {}
  build (.switch · subject cases.cases cases.fallback)

def putc : Parser Node := do
  skip
  let value ← parenthesized
  expect .semicolon
  build (.putChar · value)

/-- A statement whose parts are read by `statement`. An empty statement has no node. -/
def statementOf (statement : Parser (Option Node)) : Parser (Option Node) := do
  match ← peekKind with
  | .mark .semicolon =>
    skip
    pure none
  | .mark .lcurly => some <$> blockOf statement
  | .keyword .ifWord => some <$> ifOf statement
  | .keyword .whileWord => some <$> whileOf statement
  | .keyword .doWord => some <$> doOf statement
  | .keyword .switchWord => some <$> switchOf statement
  | .keyword .putcWord => some <$> putc
  | _ =>
    let value ← expression
    expect .semicolon
    pure (some value)

def statement : Nat → Parser (Option Node)
  | 0 => throw .exhausted
  | depth + 1 => fun s => statementOf (statement depth) s

/-- A block. It is no deeper than there are unread tokens. -/
def block : Parser Node := fun s => blockOf (statement (s.unread.length + 1)) s

end IonLang.Grammar
