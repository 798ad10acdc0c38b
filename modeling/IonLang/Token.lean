import IonLang.Position

/-!
# Tokens

A token is a kind with the position at which its text begins. Kinds are punctuation marks,
keywords, identifiers, number literals, comments and the end of the file.
-/

namespace IonLang

inductive Mark where
  | equalEqual | bangEqual | rangleEqual | langleEqual | plusPlus | minusMinus
  | plusEqual | minusEqual | starEqual | slashEqual
  | equal | plus | minus | star | slash | bang | colon | semicolon
  | lparen | rparen | lcurly | rcurly | langle | rangle
  deriving DecidableEq, Repr

namespace Mark

def chars : Mark → List Char
  | equalEqual => ['=', '=']
  | bangEqual => ['!', '=']
  | rangleEqual => ['>', '=']
  | langleEqual => ['<', '=']
  | plusPlus => ['+', '+']
  | minusMinus => ['-', '-']
  | plusEqual => ['+', '=']
  | minusEqual => ['-', '=']
  | starEqual => ['*', '=']
  | slashEqual => ['/', '=']
  | equal => ['=']
  | plus => ['+']
  | minus => ['-']
  | star => ['*']
  | slash => ['/']
  | bang => ['!']
  | colon => [':']
  | semicolon => [';']
  | lparen => ['(']
  | rparen => [')']
  | lcurly => ['{']
  | rcurly => ['}']
  | langle => ['<']
  | rangle => ['>']

def spelling (mark : Mark) : String := String.ofList mark.chars

def ofPair? : Char → Char → Option Mark
  | '=', '=' => some equalEqual
  | '!', '=' => some bangEqual
  | '<', '=' => some langleEqual
  | '>', '=' => some rangleEqual
  | '+', '+' => some plusPlus
  | '-', '-' => some minusMinus
  | '+', '=' => some plusEqual
  | '-', '=' => some minusEqual
  | '*', '=' => some starEqual
  | '/', '=' => some slashEqual
  | _, _ => none

def ofChar? : Char → Option Mark
  | '=' => some equal
  | '+' => some plus
  | '-' => some minus
  | '*' => some star
  | '/' => some slash
  | '!' => some bang
  | ':' => some colon
  | ';' => some semicolon
  | '(' => some lparen
  | ')' => some rparen
  | '{' => some lcurly
  | '}' => some rcurly
  | '<' => some langle
  | '>' => some rangle
  | _ => none

end Mark

inductive Keyword where
  | ifWord | elseWord | whileWord | doWord | switchWord | caseWord | defaultWord
  | structWord | classWord | putcWord
  deriving DecidableEq, Repr

namespace Keyword

def spelling : Keyword → String
  | ifWord => "if"
  | elseWord => "else"
  | whileWord => "while"
  | doWord => "do"
  | switchWord => "switch"
  | caseWord => "case"
  | defaultWord => "default"
  | structWord => "struct"
  | classWord => "class"
  | putcWord => "putc"

def ofString? (word : String) : Option Keyword :=
  [ifWord, elseWord, whileWord, doWord, switchWord, caseWord, defaultWord, structWord, classWord,
    putcWord].find? fun keyword => keyword.spelling == word

end Keyword

namespace Token

/-- What a token is. Literals and comments keep their text as written. -/
inductive Kind where
  | mark (m : Mark)
  | keyword (k : Keyword)
  | ident (name : String)
  | integer (text : String)
  | float (text : String)
  | comment (text : String)
  | eof
  deriving DecidableEq, Repr

def Kind.describe : Kind → String
  | .mark m => "`" ++ m.spelling ++ "`"
  | .keyword k => "`" ++ k.spelling ++ "`"
  | .ident name => "identifier `" ++ name ++ "`"
  | .integer text => "integer `" ++ text ++ "`"
  | .float text => "float `" ++ text ++ "`"
  | .comment _ => "`comment`"
  | .eof => "`end of file`"

def Kind.isComment : Kind → Bool
  | .comment _ => true
  | _ => false

end Token

/-- A token and the position of its first character. -/
structure Token where
  kind : Token.Kind
  pos : Position
  deriving DecidableEq, Repr

def Token.describe (token : Token) : String :=
  token.kind.describe ++ " at " ++ token.pos.render

end IonLang
