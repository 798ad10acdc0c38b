import IonLang.Token
import Mathlib.Data.Set.Insert

/-!
# The language of programs

    program     = { struct | class | global } end-of-file
    struct      = "struct" name "{" { type name ";" } "}" [ ";" ]
    class       = "class" name ";"
    global      = type name ( "(" ")" block | ";" )
    type        = name { "*" }
    block       = "{" { statement } "}" | statement
    statement   = ";" | block | if | while | do | switch | putc | expression ";"
    if          = "if" "(" expression ")" block [ "else" block ]
    while       = "while" "(" expression ")" block
    do          = "do" block "while" "(" expression ")" ";"
    switch      = "switch" "(" expression ")" "{" { "case" expression ":" { statement } }
                  [ "default" ":" { statement } ] "}"
    putc        = "putc" "(" expression ")" ";"
    expression  = primary { operator primary }
    primary     = "(" expression ")" | "-" primary | "!" primary | ( "++" | "--" ) name
                | integer | float | declaration | name "(" ")" | name assignment expression
                | name ( "++" | "--" ) | name
    declaration = type name [ assignment expression ]

`Production` is this grammar, with a phrase of its own for everything in braces or brackets. Which
names may stand where depends on what has been declared to the left, so a form also holds rules
about names, which are applied in the order in which a text is read. `Derives stack names kinds`
says that the symbols of a stack, from the first to the last, spell a list of tokens.
-/

namespace IonLang.Grammar

/-! ### Rules about names -/

structure Names where
  types : Set String
  vars : Set String
  functions : Set String

def Names.initial : Names := ⟨{"void", "bool", "uint64"}, ∅, ∅⟩

inductive NameRule where
  | knownType (name : String)
  | knownVariable (name : String)
  | knownFunction (name : String)
  | newField (name : String)
  | newVariable (name : String)
  | newFunction (name : String)
  | newType (name : String)

namespace NameRule

def Permits (names : Names) : NameRule → Prop
  | knownType name => name ∈ names.types
  | knownVariable name => name ∉ names.types ∧ name ∈ names.vars
  | knownFunction name => name ∉ names.types ∧ name ∈ names.functions
  | newField name => name ∉ names.types
  | newVariable name | newFunction name =>
    name ∉ names.types ∧ name ∉ names.vars ∧ name ∉ names.functions
  | newType _ => True

def after (names : Names) : NameRule → Names
  | newVariable name => { names with vars := insert name names.vars }
  | newFunction name => { names with functions := insert name names.functions }
  | newType name => { names with types := insert name names.types }
  | knownType _ | knownVariable _ | knownFunction _ | newField _ => names

end NameRule

/-! ### Forms of phrases -/

inductive Phrase where
  | program | definitions | structDefinition | classDefinition | global
  /-- The fields of a struct behind those with the given names. -/
  | fields (seen : List String)
  | semicolonOption
  /-- The type `void` is told apart from all others. -/
  | type (isVoid : Bool)
  | stars
  | block | statement | statements
  | ifStatement | elseOption | whileStatement | doStatement
  | switchStatement | cases | defaultOption | putcStatement
  | expression | operations | primary | declaration | assignmentOption

inductive Symbol where
  | token (kind : Token.Kind)
  | phrase (phrase : Phrase)
  | rule (rule : NameRule)

namespace Symbol

abbrev mark (mark : Mark) : Symbol := .token (.mark mark)

abbrev word (keyword : Keyword) : Symbol := .token (.keyword keyword)

abbrev name (name : String) : Symbol := .token (.ident name)

end Symbol

/-- The operators between two operands. Division is not one of them. -/
def operators : List Mark :=
  [.equalEqual, .bangEqual, .langle, .rangle, .langleEqual, .rangleEqual, .plus, .minus, .star]

def assignments : List Mark := [.equal, .plusEqual, .minusEqual, .starEqual]

def steps : List Mark := [.plusPlus, .minusMinus]

open IonLang.Grammar.Symbol in
inductive Production : Phrase → List Symbol → Prop where
  | program : Production .program [phrase .definitions, token .eof]
  | noDefinition : Production .definitions []
  | structFirst : Production .definitions [phrase .structDefinition, phrase .definitions]
  | classFirst : Production .definitions [phrase .classDefinition, phrase .definitions]
  | globalFirst : Production .definitions [phrase .global, phrase .definitions]
  | structDefinition (n : String) : Production .structDefinition
    [word .structWord, name n, mark .lcurly, phrase (.fields []), mark .rcurly,
      phrase .semicolonOption, rule (.newType n)]
  | noField (seen : List String) : Production (.fields seen) []
  | field (seen : List String) (isVoid : Bool) (n : String) (fresh : n ∉ seen) :
    Production (.fields seen)
      [phrase (.type isVoid), name n, rule (.newField n), mark .semicolon,
        phrase (.fields (seen ++ [n]))]
  | noSemicolon : Production .semicolonOption []
  | semicolon : Production .semicolonOption [mark .semicolon]
  | classDefinition (n : String) : Production .classDefinition
    [word .classWord, name n, mark .semicolon, rule (.newType n)]
  | globalFunction (isVoid : Bool) (n : String) : Production .global
    [phrase (.type isVoid), name n, mark .lparen, mark .rparen, rule (.newFunction n),
      phrase .block]
  | globalVariable (n : String) : Production .global
    [phrase (.type false), name n, mark .semicolon, rule (.newVariable n)]
  | void : Production (.type true) [name "void", rule (.knownType "void")]
  | plainType (n : String) (solid : n ≠ "void") : Production (.type false)
    [name n, rule (.knownType n)]
  | pointer (n : String) : Production (.type false)
    [name n, rule (.knownType n), mark .star, phrase .stars]
  | noStar : Production .stars []
  | star : Production .stars [mark .star, phrase .stars]
  | braces : Production .block [mark .lcurly, phrase .statements, mark .rcurly]
  | single : Production .block [phrase .statement]
  | noStatement : Production .statements []
  | statementFirst : Production .statements [phrase .statement, phrase .statements]
  | empty : Production .statement [mark .semicolon]
  | block : Production .statement [phrase .block]
  | ifForm : Production .statement [phrase .ifStatement]
  | whileForm : Production .statement [phrase .whileStatement]
  | doForm : Production .statement [phrase .doStatement]
  | switchForm : Production .statement [phrase .switchStatement]
  | putcForm : Production .statement [phrase .putcStatement]
  | value : Production .statement [phrase .expression, mark .semicolon]
  | ifStatement : Production .ifStatement
    [word .ifWord, mark .lparen, phrase .expression, mark .rparen, phrase .block,
      phrase .elseOption]
  | noElse : Production .elseOption []
  | elsePart : Production .elseOption [word .elseWord, phrase .block]
  | whileStatement : Production .whileStatement
    [word .whileWord, mark .lparen, phrase .expression, mark .rparen, phrase .block]
  | doStatement : Production .doStatement
    [word .doWord, phrase .block, word .whileWord, mark .lparen, phrase .expression, mark .rparen,
      mark .semicolon]
  | switchStatement : Production .switchStatement
    [word .switchWord, mark .lparen, phrase .expression, mark .rparen, mark .lcurly, phrase .cases,
      phrase .defaultOption, mark .rcurly]
  | noCase : Production .cases []
  | caseFirst : Production .cases
    [word .caseWord, phrase .expression, mark .colon, phrase .statements, phrase .cases]
  | noDefault : Production .defaultOption []
  | defaultPart : Production .defaultOption
    [word .defaultWord, mark .colon, phrase .statements]
  | putcStatement : Production .putcStatement
    [word .putcWord, mark .lparen, phrase .expression, mark .rparen, mark .semicolon]
  | expression : Production .expression [phrase .primary, phrase .operations]
  | noOperation : Production .operations []
  | operation (m : Mark) (operator : m ∈ operators) : Production .operations
    [mark m, phrase .primary, phrase .operations]
  | parenthesized : Production .primary [mark .lparen, phrase .expression, mark .rparen]
  | negation : Production .primary [mark .minus, phrase .primary]
  | not : Production .primary [mark .bang, phrase .primary]
  | stepBefore (m : Mark) (n : String) (step : m ∈ steps) : Production .primary
    [mark m, name n, rule (.knownVariable n)]
  | integer (text : String) : Production .primary [token (.integer text)]
  | float (text : String) : Production .primary [token (.float text)]
  | declared : Production .primary [phrase .declaration]
  | call (n : String) : Production .primary
    [name n, rule (.knownFunction n), mark .lparen, mark .rparen]
  | assigned (m : Mark) (n : String) (assignment : m ∈ assignments) : Production .primary
    [name n, rule (.knownVariable n), mark m, phrase .expression]
  | stepAfter (m : Mark) (n : String) (step : m ∈ steps) : Production .primary
    [name n, rule (.knownVariable n), mark m]
  | access (n : String) : Production .primary [name n, rule (.knownVariable n)]
  | declaration (n : String) : Production .declaration
    [phrase (.type false), name n, rule (.newVariable n), phrase .assignmentOption]
  | noAssignment : Production .assignmentOption []
  | assignment (m : Mark) (assignment : m ∈ assignments) : Production .assignmentOption
    [mark m, phrase .expression]

/-! ### Derivations -/

/-- A stack of symbols spells a list of tokens, with the given names in use before it. -/
inductive Derives : List Symbol → Names → List Token.Kind → Prop where
  | done (names : Names) : Derives [] names []
  | token {stack : List Symbol} {names : Names} {kinds : List Token.Kind} (kind : Token.Kind)
    (rest : Derives stack names kinds) : Derives (.token kind :: stack) names (kind :: kinds)
  | phrase {stack form : List Symbol} {names : Names} {kinds : List Token.Kind} {phrase : Phrase}
    (production : Production phrase form) (rest : Derives (form ++ stack) names kinds) :
    Derives (.phrase phrase :: stack) names kinds
  | rule {stack : List Symbol} {names : Names} {kinds : List Token.Kind} {rule : NameRule}
    (permitted : rule.Permits names) (rest : Derives stack (rule.after names) kinds) :
    Derives (.rule rule :: stack) names kinds

namespace Derives

variable {stack : List Symbol} {names : Names} {kinds : List Token.Kind}

theorem of_token {kind : Token.Kind} (h : Derives (.token kind :: stack) names kinds) :
    ∃ rest, kinds = kind :: rest ∧ Derives stack names rest := by
  cases h with
  | token _ rest => exact ⟨_, rfl, rest⟩

theorem of_phrase {phrase : Phrase} (h : Derives (.phrase phrase :: stack) names kinds) :
    ∃ form, Production phrase form ∧ Derives (form ++ stack) names kinds := by
  cases h with
  | phrase production rest => exact ⟨_, production, rest⟩

theorem of_rule {rule : NameRule} (h : Derives (.rule rule :: stack) names kinds) :
    rule.Permits names ∧ Derives stack (rule.after names) kinds := by
  cases h with
  | rule permitted rest => exact ⟨permitted, rest⟩

/-- A phrase that may be empty can be put in anywhere. -/
theorem insert {phrase : Phrase} (nullable : Production phrase []) (front : List Symbol)
    {back : List Symbol} (h : Derives (front ++ back) names kinds) :
    Derives (front ++ .phrase phrase :: back) names kinds := by
  generalize whole : front ++ back = stack at h
  -- The induction follows the derivation, which uses up `front` from the left.
  induction h generalizing front with
  | done names =>
    obtain ⟨rfl, rfl⟩ := List.append_eq_nil_iff.mp whole
    exact .phrase nullable (.done names)
  | token kind rest ih =>
    cases front with
    | nil => exact .phrase nullable (whole ▸ .token kind rest)
    | cons symbol front =>
      simp only [List.cons_append, List.cons.injEq] at whole
      obtain ⟨rfl, rfl⟩ := whole
      exact .token kind (ih front rfl)
  | phrase production rest ih =>
    cases front with
    | nil => exact .phrase nullable (whole ▸ .phrase production rest)
    | cons symbol front =>
      simp only [List.cons_append, List.cons.injEq] at whole
      obtain ⟨rfl, rfl⟩ := whole
      have inside := ih _ (List.append_assoc _ front back)
      rw [List.append_assoc] at inside
      exact .phrase production inside
  | rule permitted rest ih =>
    cases front with
    | nil => exact .phrase nullable (whole ▸ .rule permitted rest)
    | cons symbol front =>
      simp only [List.cons_append, List.cons.injEq] at whole
      obtain ⟨rfl, rfl⟩ := whole
      exact .rule permitted (ih front rfl)

end Derives

end IonLang.Grammar
