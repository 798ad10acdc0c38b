import IonLang.Grammar.Name
import IonLang.Node.Precedence

/-!
# Expressions

    expression  = primary { operator primary }
    primary     = "(" expression ")" | "-" primary | "!" primary | ( "++" | "--" ) name
                | integer | float | declaration | name "(" ")" | name assignment expression
                | name ( "++" | "--" ) | name
    declaration = type ident [ assignment expression ]
    operator    = "==" | "!=" | "<" | ">" | "<=" | ">=" | "+" | "-" | "*"
    assignment  = "=" | "+=" | "-=" | "*="

Each rule is a function of the parsers for the rules it refers to. `primary` closes the circle: it
descends at most as deep as its argument says, and every descent consumes a token first.
-/

namespace IonLang.Grammar

def binaryOp? : Token.Kind → Option BinaryOp
  | .mark .equalEqual => some .eq
  | .mark .bangEqual => some .ne
  | .mark .langle => some .lt
  | .mark .rangle => some .gt
  | .mark .langleEqual => some .le
  | .mark .rangleEqual => some .ge
  | .mark .plus => some .add
  | .mark .minus => some .sub
  | .mark .star => some .mul
  | _ => none

def assignOp? : Token.Kind → Option AssignOp
  | .mark .equal => some .set
  | .mark .plusEqual => some .add
  | .mark .minusEqual => some .sub
  | .mark .starEqual => some .mul
  | _ => none

def direction? : Token.Kind → Option Direction
  | .mark .plusPlus => some .up
  | .mark .minusMinus => some .down
  | _ => none

/-- Reads an operator if one is next. The mark `refused` has no implementation. -/
def operatorOr {α : Type} (find : Token.Kind → Option α) (refused : Mark) (construct : String) :
    Parser (Option α) := do
  let kind ← peekKind
  match find kind with
  | some op => do skip; pure (some op)
  | none =>
    if kind = .mark refused then stop (.notImplemented construct (← position)) else pure none

def binaryOperator : Parser (Option BinaryOp) :=
  operatorOr binaryOp? .slash "division operator `/`"

def assignOperator : Parser (Option AssignOp) :=
  operatorOr assignOp? .slashEqual "division assignment `/=`"

/-- Numbers the operators of a tree, operands before operators and left before right. -/
def buildTree : OperatorTree Node → Parser Node
  | .leaf node => pure node
  | .branch op lhs rhs => do
    let lhs ← buildTree lhs
    let rhs ← buildTree rhs
    build (.binary · op lhs rhs)

def operatorTail (primary : Parser Node) : Parser (List (BinaryOp × Node)) :=
  repeatUntilDone (fun pairs => do
    match ← binaryOperator with
    | some op =>
      let operand ← primary
      pure (.yield (pairs ++ [(op, operand)]))
    | none => pure (.done pairs)) []

def expressionOf (primary : Parser Node) : Parser Node := do
  let first ← primary
  let rest ← operatorTail primary
  buildTree (OperatorTree.ofChain first rest)

/-- A variable node, or the placeholder if the variable did not resolve. -/
def accessNode : Option VarId → Parser Node
  | some var => build (.access · var)
  | none => placeholder

/-- An assignment; without a variable only the value is left. -/
def assignNode (op : AssignOp) (value : Node) : Option VarId → Parser Node
  | some var => build (.assign · var op value)
  | none => pure value

def stepNode (direction : Direction) (timing : Timing) : Option VarId → Parser Node
  | some var => build (.step · direction var timing)
  | none => placeholder

/-- What follows a variable: an assignment with its value, or nothing. -/
def assignmentOf (expression : Parser Node) (var : Option VarId) : Parser Node := do
  match ← assignOperator with
  | some op =>
    let value ← expression
    assignNode op value var
  | none => accessNode var

/-- Whether a declaration is next: two names in a row always begin one, a name and a star only if
the name is the name of a type. -/
def State.atDeclaration (s : State) : Bool :=
  match s.unread with
  | ⟨.ident first, _⟩ :: second :: _ =>
    match second.kind with
    | .ident _ => true
    | .mark .star => s.types.contains first
    | _ => false
  | _ => false

def declarationOf (expression : Parser Node) : Parser Node := do
  let type ← typeName
  let (name, pos) ← ident
  let var ← declareVariable name type pos
  assignmentOf expression var

def nameOf (expression : Parser Node) : Parser Node := do
  let (name, pos) ← name
  if ← rejectTypeName name pos then placeholder
  else
    match ← peekKind with
    | .mark .lparen =>
      skip
      expect .rparen
      match ← lookupFunction name pos with
      | some func => build (.call · func)
      | none => placeholder
    | kind =>
      match direction? kind with
      | some direction =>
        skip
        let var ← lookupVariable name pos
        stepNode direction .after var
      | none =>
        let var ← lookupVariable name pos
        assignmentOf expression var

def steppedVariable : Parser (Option VarId) := do
  let (name, pos) ← name
  if ← rejectTypeName name pos then pure none else lookupVariable name pos

def unaryOf (op : UnaryOp) (primary : Parser Node) : Parser Node := do
  skip
  let operand ← primary
  build (.unary · op operand)

def primaryOf (expression primary : Parser Node) : Parser Node := do
  match ← peekKind with
  | .mark .lparen =>
    skip
    let inner ← expression
    expect .rparen
    pure inner
  | .mark .minus => unaryOf .neg primary
  | .mark .bang => unaryOf .not primary
  | .mark .plusPlus =>
    skip
    stepNode .up .before (← steppedVariable)
  | .mark .minusMinus =>
    skip
    stepNode .down .before (← steppedVariable)
  | .integer text =>
    skip
    build (.integer · text)
  | .float text =>
    skip
    build (.float · text)
  | .ident _ =>
    if ← observe State.atDeclaration then declarationOf expression else nameOf expression
  | _ => unexpected "expression"

def primary : Nat → Parser Node
  | 0 => throw .exhausted
  | depth + 1 => fun s => primaryOf (expressionOf (primary depth)) (primary depth) s

/-- An expression. It is no deeper than there are unread tokens. -/
def expression : Parser Node := fun s => expressionOf (primary (s.unread.length + 1)) s

end IonLang.Grammar
