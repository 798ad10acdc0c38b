import IonLang.Grammar.Statement
import IonLang.Proofs.Grammar.Derivation

/-!
# What a derivation begins with

One token tells which form a phrase has. The grammar is ambiguous in two places: a value that is
assigned can end before an operator or go on behind it, and an `else` can belong to any open `if`.
In both a derivation can be changed so that the inner phrase takes what follows:
`AfterExpression` and `AfterStatement` say so of the symbols behind a phrase, and all symbols that
can stand behind an expression or a statement have these properties.
-/

namespace IonLang.Grammar

variable {stack : List Symbol} {names : Names} {kinds rest : List Token.Kind} {kind : Token.Kind}

/-! ### Expressions -/

def startsExpression : Token.Kind → Bool
  | .mark .lparen | .mark .minus | .mark .bang | .mark .plusPlus | .mark .minusMinus => true
  | .integer _ | .float _ | .ident _ => true
  | _ => false

theorem head_type {isVoid : Bool} (h : Derives (.phrase (.type isVoid) :: stack) names kinds) :
    ∃ name rest, kinds = .ident name :: rest := by
  obtain ⟨form, production, derives⟩ := h.of_phrase
  cases production with
  | void | plainType | pointer =>
    obtain ⟨rest, rfl, _⟩ := derives.of_token
    exact ⟨_, rest, rfl⟩

theorem head_primary (h : Derives (.phrase .primary :: stack) names kinds) :
    ∃ kind rest, kinds = kind :: rest ∧ startsExpression kind = true := by
  obtain ⟨form, production, derives⟩ := h.of_phrase
  cases production with
  | parenthesized | negation | not | integer | float | call | assigned | stepAfter | access =>
    obtain ⟨rest, rfl, _⟩ := derives.of_token
    exact ⟨_, rest, rfl, rfl⟩
  | stepBefore m n step =>
    obtain ⟨rest, rfl, _⟩ := derives.of_token
    have starts : ∀ m ∈ steps, startsExpression (.mark m) = true := by decide
    exact ⟨_, rest, rfl, starts m step⟩
  | declared =>
    obtain ⟨form, production, derives⟩ := derives.of_phrase
    cases production with
    | declaration n =>
      obtain ⟨name, rest, rfl⟩ := head_type derives
      exact ⟨_, rest, rfl, rfl⟩

theorem head_expression (h : Derives (.phrase .expression :: stack) names kinds) :
    ∃ kind rest, kinds = kind :: rest ∧ startsExpression kind = true := by
  obtain ⟨form, production, derives⟩ := h.of_phrase
  cases production with
  | expression => exact head_primary derives

def closers : List Mark := [.semicolon, .rparen, .colon]

/-- An expression in front of the stack can take all operators that follow it. -/
structure AfterExpression (stack : List Symbol) : Prop where
  head : ∀ {names kinds}, Derives stack names kinds →
    ∃ m rest, kinds = .mark m :: rest ∧ (m ∈ operators ∨ m ∈ closers)
  absorb : ∀ {names m rest}, m ∈ operators → Derives stack names (.mark m :: rest) →
    Derives (.phrase .primary :: .phrase .operations :: stack) names rest

namespace AfterExpression

theorem closer {m : Mark} (closes : m ∈ closers) : AfterExpression (.mark m :: stack) where
  head h := by
    obtain ⟨rest, rfl, _⟩ := h.of_token
    exact ⟨m, rest, rfl, .inr closes⟩
  absorb operator h := by
    obtain ⟨rest, same, _⟩ := h.of_token
    cases same
    have apart : ∀ m ∈ closers, m ∉ operators := by decide
    exact absurd operator (apart m closes)

theorem operation (after : AfterExpression stack) {m : Mark} (operator : m ∈ operators)
    (h : Derives (.phrase .operations :: stack) names (.mark m :: rest)) :
    Derives (.phrase .primary :: .phrase .operations :: stack) names rest := by
  obtain ⟨form, production, derives⟩ := h.of_phrase
  cases production with
  | noOperation => exact after.absorb operator derives
  | operation m _ =>
    obtain ⟨rest, same, derives⟩ := derives.of_token
    cases same
    exact derives

theorem noOperation {m : Mark} (other : m ∉ operators)
    (h : Derives (.phrase .operations :: stack) names (.mark m :: rest)) :
    Derives stack names (.mark m :: rest) := by
  obtain ⟨form, production, derives⟩ := h.of_phrase
  cases production with
  | noOperation => exact derives
  | operation m operator =>
    obtain ⟨rest, same, _⟩ := derives.of_token
    cases same
    exact absurd operator other

theorem operations (after : AfterExpression stack) :
    AfterExpression (.phrase .operations :: stack) where
  head h := by
    obtain ⟨form, production, derives⟩ := h.of_phrase
    cases production with
    | noOperation => exact after.head derives
    | operation m operator =>
      obtain ⟨rest, rfl, _⟩ := derives.of_token
      exact ⟨m, rest, rfl, .inl operator⟩
  absorb operator h := by
    -- The second list of operations is empty once the first has taken everything.
    exact (after.operation operator h).insert .noOperation [.phrase .primary, .phrase .operations]

end AfterExpression

/-! ### Statements -/

def startsStatement : Token.Kind → Bool
  | .mark .semicolon | .mark .lcurly => true
  | .keyword .ifWord | .keyword .whileWord | .keyword .doWord | .keyword .switchWord
  | .keyword .putcWord => true
  | kind => startsExpression kind

/-- A statement or block is a block in braces or has a form of its own. -/
theorem statement_cases {phrase : Phrase} (h : Derives (.phrase phrase :: stack) names kinds)
    (either : phrase = .statement ∨ phrase = .block) :
    Derives (.mark .lcurly :: .phrase .statements :: .mark .rcurly :: stack) names kinds ∨
    ∃ form, Production .statement form ∧ form ≠ [.phrase .block] ∧
      Derives (form ++ stack) names kinds := by
  generalize whole : .phrase phrase :: stack = symbols at h
  -- Blocks and statements can stand for each other, but a derivation does so only finitely often.
  induction h generalizing phrase with
  | done | token | rule => cases whole
  | @phrase _ form _ _ _ production derives ih =>
    cases whole
    rcases either with rfl | rfl
    · by_cases isBlock : form = [.phrase .block]
      · subst isBlock
        exact ih (.inr rfl) rfl
      · exact .inr ⟨form, production, isBlock, derives⟩
    · cases production with
      | braces => exact .inl derives
      | single => exact ih (.inl rfl) rfl

theorem startsStatement_of_startsExpression (starts : startsExpression kind = true) :
    startsStatement kind = true := by
  unfold startsStatement
  split
  · rfl
  · rfl
  · rfl
  · rfl
  · rfl
  · rfl
  · rfl
  · exact starts

/-- Only a block in braces begins with a brace. -/
theorem head_form {form : List Symbol} (production : Production .statement form)
    (notBlock : form ≠ [.phrase .block]) (h : Derives (form ++ stack) names kinds) :
    ∃ kind rest, kinds = kind :: rest ∧ startsStatement kind = true ∧ kind ≠ .mark .lcurly := by
  cases production with
  | empty =>
    obtain ⟨rest, rfl, _⟩ := h.of_token
    exact ⟨_, rest, rfl, rfl, nofun⟩
  | block => exact absurd rfl notBlock
  | ifForm | whileForm | doForm | switchForm | putcForm =>
    obtain ⟨form, production, derives⟩ := h.of_phrase
    cases production
    obtain ⟨rest, rfl, _⟩ := derives.of_token
    exact ⟨_, rest, rfl, rfl, nofun⟩
  | value =>
    obtain ⟨kind, rest, rfl, starts⟩ := head_expression h
    refine ⟨kind, rest, rfl, startsStatement_of_startsExpression starts, ?_⟩
    rintro rfl
    cases starts

theorem head_statement (h : Derives (.phrase .statement :: stack) names kinds) :
    ∃ kind rest, kinds = kind :: rest ∧ startsStatement kind = true := by
  rcases statement_cases h (.inl rfl) with braced | ⟨form, production, notBlock, derives⟩
  · obtain ⟨rest, rfl, _⟩ := braced.of_token
    exact ⟨_, rest, rfl, rfl⟩
  · obtain ⟨kind, rest, rfl, starts, _⟩ := head_form production notBlock derives
    exact ⟨kind, rest, rfl, starts⟩

/-- No statement begins with a token that ends a list of statements. -/
theorem not_startsStatement_of_endsCase (ends : endsCase kind = true) : startsStatement kind = false := by
  unfold endsCase at ends
  split at ends
  · rfl
  · rfl
  · rfl
  · rfl
  · cases ends

/-- A list of statements in front of the stack knows where it ends. -/
def AfterStatements (stack : List Symbol) : Prop :=
  ∀ ⦃names kinds⦄, Derives stack names kinds → ∃ kind rest, kinds = kind :: rest ∧ endsCase kind = true

theorem AfterStatements.brace : AfterStatements (.mark .rcurly :: stack) := by
  intro names kinds h
  obtain ⟨rest, rfl, _⟩ := h.of_token
  exact ⟨_, rest, rfl, rfl⟩

theorem AfterStatements.cases :
    AfterStatements (.phrase .cases :: .phrase .defaultOption :: .mark .rcurly :: stack) := by
  intro names kinds h
  obtain ⟨form, production, derives⟩ := h.of_phrase
  cases production with
  | caseFirst =>
    obtain ⟨rest, rfl, _⟩ := derives.of_token
    exact ⟨_, rest, rfl, rfl⟩
  | noCase =>
    obtain ⟨form, production, derives⟩ := derives.of_phrase
    cases production with
    | defaultPart =>
      obtain ⟨rest, rfl, _⟩ := derives.of_token
      exact ⟨_, rest, rfl, rfl⟩
    | noDefault => exact AfterStatements.brace derives

/-- What the braces of a switch can still hold: nothing behind a default. -/
def remaining (cases : Cases) (stack : List Symbol) : List Symbol :=
  if cases.fallback.isSome then .mark .rcurly :: stack
  else .phrase .cases :: .phrase .defaultOption :: .mark .rcurly :: stack

theorem statements_end (h : Derives (.phrase .statements :: stack) names (kind :: rest))
    (ends : endsCase kind = true) : Derives stack names (kind :: rest) := by
  obtain ⟨form, production, derives⟩ := h.of_phrase
  cases production with
  | noStatement => exact derives
  | statementFirst =>
    obtain ⟨kind, rest, same, starts⟩ := head_statement derives
    cases same
    rw [not_startsStatement_of_endsCase ends] at starts
    cases starts

theorem statements_more (after : AfterStatements stack)
    (h : Derives (.phrase .statements :: stack) names (kind :: rest)) (goesOn : endsCase kind = false) :
    Derives (.phrase .statement :: .phrase .statements :: stack) names (kind :: rest) := by
  obtain ⟨form, production, derives⟩ := h.of_phrase
  cases production with
  | noStatement =>
    obtain ⟨kind, rest, same, ends⟩ := after derives
    cases same
    rw [ends] at goesOn
    cases goesOn
  | statementFirst => exact derives

theorem head_statements (after : AfterStatements stack)
    (h : Derives (.phrase .statements :: stack) names kinds) :
    ∃ kind rest, kinds = kind :: rest ∧ (endsCase kind = true ∨ startsStatement kind = true) := by
  obtain ⟨form, production, derives⟩ := h.of_phrase
  cases production with
  | noStatement =>
    obtain ⟨kind, rest, rfl, ends⟩ := after derives
    exact ⟨kind, rest, rfl, .inl ends⟩
  | statementFirst =>
    obtain ⟨kind, rest, rfl, starts⟩ := head_statement derives
    exact ⟨kind, rest, rfl, .inr starts⟩

/-- A statement in front of the stack can take an `else` that follows it. -/
def AfterStatement (stack : List Symbol) : Prop :=
  ∀ ⦃names rest⦄, Derives stack names (.keyword .elseWord :: rest) →
    Derives (.phrase .block :: stack) names rest

namespace AfterStatement

theorem statements (after : AfterStatements stack) : AfterStatement (.phrase .statements :: stack) := by
  intro names rest h
  obtain ⟨kind, rest, same, ends | starts⟩ := head_statements after h
  · cases same
    cases ends
  · cases same
    cases starts

theorem word {keyword : Keyword} (other : keyword ≠ .elseWord) : AfterStatement (.word keyword :: stack) := by
  intro names rest h
  obtain ⟨_, same, _⟩ := h.of_token
  cases same
  exact absurd rfl other

theorem elsePart (after : AfterStatement stack)
    (h : Derives (.phrase .elseOption :: stack) names (.keyword .elseWord :: rest)) :
    Derives (.phrase .block :: stack) names rest := by
  obtain ⟨form, production, derives⟩ := h.of_phrase
  cases production with
  | noElse => exact after derives
  | elsePart =>
    obtain ⟨rest, same, derives⟩ := derives.of_token
    cases same
    exact derives

theorem noElse (h : Derives (.phrase .elseOption :: stack) names kinds)
    (other : ∀ rest, kinds ≠ .keyword .elseWord :: rest) : Derives stack names kinds := by
  obtain ⟨form, production, derives⟩ := h.of_phrase
  cases production with
  | noElse => exact derives
  | elsePart =>
    obtain ⟨rest, same, _⟩ := derives.of_token
    exact absurd same (other rest)

theorem elseOption (after : AfterStatement stack) : AfterStatement (.phrase .elseOption :: stack) :=
  fun _ _ h => (after.elsePart h).insert .noElse [.phrase .block]

end AfterStatement

/-! ### Definitions -/

def startsDefinition : Token.Kind → Bool
  | .keyword .structWord | .keyword .classWord | .ident _ => true
  | _ => false

theorem head_global (h : Derives (.phrase .global :: stack) names kinds) :
    ∃ name rest, kinds = .ident name :: rest := by
  obtain ⟨form, production, derives⟩ := h.of_phrase
  cases production with
  | globalFunction | globalVariable => exact head_type derives

theorem head_definitions (h : Derives [.phrase .definitions, .token .eof] names kinds) :
    ∃ kind rest, kinds = kind :: rest ∧ (kind = .eof ∨ startsDefinition kind) := by
  obtain ⟨form, production, derives⟩ := h.of_phrase
  cases production with
  | noDefinition =>
    obtain ⟨rest, same, _⟩ := derives.of_token
    exact ⟨_, rest, same, .inl rfl⟩
  | structFirst | classFirst =>
    obtain ⟨form, production, derives⟩ := derives.of_phrase
    cases production
    obtain ⟨rest, same, _⟩ := derives.of_token
    exact ⟨_, rest, same, .inr rfl⟩
  | globalFirst =>
    obtain ⟨name, rest, same⟩ := head_global derives
    exact ⟨_, rest, same, .inr rfl⟩

/-- Behind the body of a function. -/
theorem AfterStatement.definitions : AfterStatement [.phrase .definitions, .token .eof] := by
  intro names rest h
  obtain ⟨kind, rest, same, ends | starts⟩ := head_definitions h
  · cases same
    cases ends
  · cases same
    cases starts

end IonLang.Grammar
