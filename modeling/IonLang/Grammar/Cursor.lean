import IonLang.Symbols

/-!
# Reading tokens

The state of a parse and the steps that read tokens. Comments are left out from the start. The end
of the file is never consumed, and a token list that is used up reads as the end of the file at
the last consumed token. A mismatch is recorded, the offending token is skipped, and the parse
goes on; a parse that cannot go on stops with a fatal diagnostic.
-/

namespace IonLang.Grammar

/-- Everything a parse knows between two tokens. -/
structure State where
  unread : List Token
  /-- The position of the last consumed token. -/
  last : Position := ⟨"", 1, 1⟩
  /-- The diagnostics recorded so far. -/
  errors : List Diagnostic := []
  /-- The number of the next node. -/
  nodes : Nat := 0
  types : TypeTable := {}
  symbols : Symbols := {}

def State.ofTokens (tokens : List Token) : State :=
  { unread := tokens.filter fun token => !token.kind.isComment }

/-- Why a parse stops before the end of the file. -/
inductive Stop where
  | fatal (diagnostic : Diagnostic)
  /-- More rounds were taken than there are tokens. -/
  | exhausted
  deriving Repr

/-- A step of the parse. A stop keeps the state reached so far. -/
abbrev Parser := EStateM Stop State

namespace State

def peek? (s : State) : Option Token := s.unread.head?

/-- The token `n` places ahead; the next token is at place 0. -/
def peekAt? (s : State) (n : Nat) : Option Token := s.unread[n]?

/-- The next token, or the end of the file at the last consumed token. -/
def current (s : State) : Token := s.unread.head?.getD ⟨.eof, s.last⟩

def kind (s : State) : Token.Kind := s.current.kind

def position (s : State) : Position := s.current.pos

/-- Consumes the next token, which is given back. The end of the file stays where it is. -/
def next (s : State) : Option Token × State :=
  match s.unread with
  | [] => (none, s)
  | token :: rest =>
    if token.kind = .eof then (some token, s)
    else (some token, { s with unread := rest, last := token.pos })

/-- Whether there is a next token and its kind is accepted. -/
def check (s : State) (accept : Token.Kind → Bool) : Bool :=
  match s.unread with
  | [] => false
  | token :: _ => accept token.kind

/-- Consumes the next token if its kind is accepted and is not the end of the file. -/
def consumeIf (s : State) (accept : Token.Kind → Bool) : Option Token × State :=
  if s.check fun kind => kind != .eof && accept kind then s.next else (none, s)

def record (s : State) (diagnostic : Diagnostic) : State :=
  { s with errors := s.errors ++ [diagnostic] }

/-- Consumes the next token if its kind is accepted. Otherwise the token is reported and
skipped. -/
def expectOr (s : State) (accept : Token.Kind → Bool) (complaint : Token → Diagnostic) :
    Option Token × State :=
  match s.consumeIf accept with
  | (some token, s) => (some token, s)
  | (none, s) => (none, ((s.record (complaint s.current)).next).2)

end State

/-- A step that cannot stop. -/
def lift {α : Type} (f : State → α × State) : Parser α := fun s => .ok (f s).1 (f s).2

def observe {α : Type} (f : State → α) : Parser α := fun s => .ok (f s) s

def peekKind : Parser Token.Kind := observe State.kind

def position : Parser Position := observe State.position

def current : Parser Token := observe State.current

def skip : Parser Unit := lift fun s => ((), s.next.2)

/-- Consumes the next token if it is the given mark or keyword, and says whether it was. -/
def accept (kind : Token.Kind) : Parser Bool :=
  lift fun s => let (token, s) := s.consumeIf (· == kind); (token.isSome, s)

/-- How messages call a mark that a rule requires. -/
def requiredName : Mark → String
  | .lparen => "LParen"
  | .rparen => "RParen"
  | .lcurly => "LCurly"
  | .colon => "Colon"
  | .semicolon => "Semicolon"
  | mark => mark.spelling

def expect (mark : Mark) : Parser Unit :=
  lift fun s => ((), (s.expectOr (· == .mark mark) (.expectedToken (requiredName mark))).2)

def expectWord (keyword : Keyword) : Parser Unit :=
  lift fun s =>
    ((), (s.expectOr (· == .keyword keyword) (.expectedWord keyword.spelling)).2)

def record (diagnostic : Diagnostic) : Parser Unit := lift fun s => ((), s.record diagnostic)

/-- Records the diagnostic of a failed look-up and goes on without a value. -/
def recover {α : Type} : Except Diagnostic α → Parser (Option α)
  | .ok value => pure (some value)
  | .error diagnostic => do record diagnostic; pure none

def stop {α : Type} (diagnostic : Diagnostic) : Parser α := throw (.fatal diagnostic)

def unexpected {α : Type} (expected : String) : Parser α := do
  stop (.unexpectedToken (← current) expected)

/-- Builds a node with the next free number. -/
def build (node : Nat → Node) : Parser Node :=
  lift fun s => (node s.nodes, { s with nodes := s.nodes + 1 })

/-- The node that stands for an expression that did not resolve. -/
def placeholder : Parser Node := build (.integer · "0")

/-- Repeats a step until it says that it is done, for at most `rounds` rounds. -/
def iterate {β : Type} (step : β → Parser (ForInStep β)) : Nat → β → Parser β
  | 0, _ => throw .exhausted
  | rounds + 1, value => fun s =>
    match step value s with
    | .ok (.done value) s => .ok value s
    | .ok (.yield value) s => iterate step rounds value s
    | .error stop s => .error stop s

/-- Repeats a step until it says that it is done. Every round but the last consumes a token, so
there are no more rounds than unread tokens and one. -/
def repeatUntilDone {β : Type} (step : β → Parser (ForInStep β)) (value : β) : Parser β := fun s =>
  iterate step (s.unread.length + 1) value s

end IonLang.Grammar
