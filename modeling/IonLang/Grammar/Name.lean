import IonLang.Grammar.Cursor

/-!
# Names and types

    type  = name { "*" }
    ident = name that is no type name
-/

namespace IonLang.Grammar

def name : Parser (String × Position) := do
  let pos ← position
  match ← peekKind with
  | .ident name => do skip; pure (name, pos)
  | _ => unexpected "identifier"

def isTypeName (name : String) : Parser Bool := observe fun s => s.types.contains name

/-- Reports a type name that stands where none is allowed, and says whether it did. -/
def rejectTypeName (name : String) (pos : Position) : Parser Bool := do
  if ← isTypeName name then
    record (.typeNotAllowed name pos)
    pure true
  else pure false

/-- The name of something new. A type name is reported and used all the same. -/
def ident : Parser (String × Position) := do
  let (name, pos) ← name
  let _ ← rejectTypeName name pos
  pure (name, pos)

def stars : Parser Nat :=
  repeatUntilDone (fun depth => do
    if ← accept (.mark .star) then pure (.yield (depth + 1)) else pure (.done depth)) 0

/-- A type. An unknown type name is reported and read as `uint64`. -/
def typeName : Parser DataType := do
  let (name, pos) ← name
  let resolved ← observe fun s => s.types.resolve name pos
  let base ← recover resolved
  let depth ← stars
  pure ((base.getD .uint64).pointTo depth)

/-- Applies a declaration to the symbols, which stay as they are if it fails. -/
def declare {α : Type} (declaration : Symbols → Except Diagnostic (α × Symbols)) :
    Parser (Option α) := fun s =>
  match declaration s.symbols with
  | .ok (value, symbols) => .ok (some value) { s with symbols }
  | .error diagnostic => .ok none (s.record diagnostic)

/-- Declares a variable. The type `void` is reported and kept. -/
def declareVariable (name : String) (type : DataType) (pos : Position) :
    Parser (Option VarId) := do
  if type.isVoid then record (.typeNotAllowed type.render pos)
  declare fun symbols => symbols.declareVariable name type pos

def declareFunction (name : String) (pos : Position) : Parser (Option FuncId) :=
  declare fun symbols => symbols.declareFunction name pos

def lookupVariable (name : String) (pos : Position) : Parser (Option VarId) := do
  recover (← observe fun s => s.symbols.lookupVariable name pos)

def lookupFunction (name : String) (pos : Position) : Parser (Option FuncId) := do
  recover (← observe fun s => s.symbols.lookupFunction name pos)

end IonLang.Grammar
