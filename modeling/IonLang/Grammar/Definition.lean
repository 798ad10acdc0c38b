import IonLang.Grammar.Statement
import IonLang.Program
import IonLang.Token.Scan

/-!
# Definitions

    program    = { struct | class | global } end-of-file
    struct     = "struct" name "{" { type ident ";" } "}" [ ";" ]
    class      = "class" name ";"
    global     = type ident ( "(" ")" block | ";" )

`Program.ofTokens` reads a whole program, and `Program.ofSource` scans the text first.
-/

namespace IonLang

namespace Grammar

/-- Adds a field; a second field of one name is reported and left out. -/
def addField (fields : List (String × DataType)) (name : String) (pos : Position)
    (type : DataType) : Parser (List (String × DataType)) := do
  if fields.any fun field => field.1 == name then
    record (.variableRedeclared name pos)
    pure fields
  else pure (fields ++ [(name, type)])

/-- One field of a struct, or the closing brace, which is consumed. -/
def fieldRound (fields : List (String × DataType)) :
    Parser (ForInStep (List (String × DataType))) := do
  match ← peekKind with
  | .mark .rcurly =>
    skip
    pure (.done fields)
  | .eof =>
    missingBrace
    pure (.done fields)
  | _ =>
    let type ← typeName
    let (name, pos) ← ident
    expect .semicolon
    pure (.yield (← addField fields name pos type))

def structFields : Parser (List (String × DataType)) := repeatUntilDone fieldRound []

def registerType (type : DataType) : Parser Unit :=
  lift fun s => ((), { s with types := s.types.register type })

def structDefinition : Parser Unit := do
  skip
  let (name, _) ← name
  expect .lcurly
  let fields ← structFields
  let _ ← accept (.mark .semicolon)
  registerType (.structType name fields)

def classDefinition : Parser Unit := do
  skip
  let (name, _) ← name
  expect .semicolon
  registerType (.classType name)

def defineFunction (func : FuncId) (body : Node) : Parser Unit :=
  lift fun s => ((), { s with symbols := s.symbols.defineFunction func body })

def globalDefinition : Parser Unit := do
  let type ← typeName
  let (name, pos) ← ident
  match ← peekKind with
  | .mark .lparen =>
    skip
    expect .rparen
    let func ← declareFunction name pos
    let body ← block
    match func with
    | some func => defineFunction func body
    | none => pure ()
  | .mark .semicolon =>
    skip
    let _ ← declareVariable name type pos
    pure ()
  | _ => unexpected "`(` or `;`"

def definitionRound (_ : Unit) : Parser (ForInStep Unit) := do
  match ← peekKind with
  | .eof => pure (.done ())
  | .keyword .structWord =>
    structDefinition
    pure (.yield ())
  | .keyword .classWord =>
    classDefinition
    pure (.yield ())
  | .ident _ =>
    globalDefinition
    pure (.yield ())
  | _ => unexpected "struct, class, function or variable definition"

def definitions : Parser Unit := repeatUntilDone definitionRound ()

/-- Reads the rest of a program. Diagnostics recorded on the way are kept; a fatal one comes last
and leaves no program. -/
def State.parse (s : State) : Option Program × List Diagnostic :=
  match definitions s with
  | .ok _ s => (some ⟨s.symbols.functions, s.symbols.vars⟩, s.errors)
  | .error (.fatal diagnostic) s => (none, s.errors ++ [diagnostic])
  | .error .exhausted s => (none, s.errors)

end Grammar

namespace Program

def ofTokens (tokens : List Token) : Option Program × List Diagnostic :=
  (Grammar.State.ofTokens tokens).parse

/-- The program of a source text. Diagnostics of the scan come first. -/
def ofSource (file source : String) : Option Program × List Diagnostic :=
  let scan := Token.scan file source
  let (program, errors) := ofTokens scan.tokens
  (program, scan.errors ++ errors)

end Program

end IonLang
