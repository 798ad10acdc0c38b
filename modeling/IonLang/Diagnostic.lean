import IonLang.Token
import IonLang.Directory

/-!
# Diagnostics

Everything a compilation can complain about, with its message, its position in the source and
whether it ends the pass. Only three causes are fatal: a token that no rule admits, a construct
without an implementation, and a file that cannot be accessed.
-/

namespace IonLang

inductive Diagnostic where
  | fileAccess (fault : Directory.Fault)
  | settingsAccess (fault : Directory.Fault)
  | invalidSettings
  | strayCharacter (c : Char) (pos : Position)
  | extraDot (pos : Position)
  | expectedToken (expected : String) (found : Token)
  | expectedWord (expected : String) (found : Token)
  | missingCharacter (c : Char) (pos : Position)
  | unknownFunction (name : String) (pos : Position)
  | unknownVariable (name : String) (pos : Position)
  | unexpectedToken (found : Token) (expected : String)
  | unknownType (name : String) (pos : Position)
  | variableRedeclared (name : String) (pos : Position)
  | functionRedeclared (name : String) (pos : Position)
  | typeNotAllowed (name : String) (pos : Position)
  | notImplemented (construct : String) (pos : Position)
  | missingEntryPoint
  | unsupported (construct : String)
  deriving DecidableEq, Repr

namespace Diagnostic

def quoteAt (name : String) (pos : Position) : String :=
  "'" ++ name ++ "' at " ++ pos.render

def message : Diagnostic → String
  | fileAccess fault => "IO error: " ++ fault.message
  | settingsAccess fault => "Config error: " ++ fault.message
  | invalidSettings => "Config error: malformed document"
  | strayCharacter c pos => "Invalid character: " ++ quoteAt (String.singleton c) pos
  | extraDot pos => "Multiple dots in number: beginning at " ++ pos.render
  | expectedToken expected found =>
    "Unexpected token " ++ found.describe ++ ", expected " ++ expected
  | expectedWord expected found =>
    "Unexpected token " ++ found.describe ++ ", expected '" ++ expected ++ "'"
  | missingCharacter c pos => "Missing character: " ++ quoteAt (String.singleton c) pos
  | unknownFunction name pos => "Unknown function: " ++ quoteAt name pos
  | unknownVariable name pos => "Unknown variable: " ++ quoteAt name pos
  | unexpectedToken found expected =>
    "Unexpected token: " ++ found.describe ++ ", expected: " ++ expected
  | unknownType name pos => "Unknown DataType: " ++ quoteAt name pos
  | variableRedeclared name pos => "Trying to redeclare variable: " ++ quoteAt name pos
  | functionRedeclared name pos => "Trying to redeclare function: " ++ quoteAt name pos
  | typeNotAllowed name pos =>
    "'" ++ name ++ "' is a type, which is not valid in the given context (" ++ pos.render ++ ")"
  | notImplemented construct pos => "Not implemented: " ++ construct ++ " at " ++ pos.render
  | missingEntryPoint => "Missing entry point: main"
  | unsupported construct => "Unsupported in code generation: " ++ construct

/-- Fatal diagnostics end the pass; all others are collected. -/
def isFatal : Diagnostic → Bool
  | notImplemented .. | unexpectedToken .. | fileAccess _ => true
  | _ => false

def position? : Diagnostic → Option Position
  | strayCharacter _ pos | extraDot pos | missingCharacter _ pos | unknownFunction _ pos
  | unknownVariable _ pos | unknownType _ pos | variableRedeclared _ pos
  | functionRedeclared _ pos | typeNotAllowed _ pos | notImplemented _ pos => some pos
  | expectedToken _ found | expectedWord _ found | unexpectedToken found _ => some found.pos
  | fileAccess _ | settingsAccess _ | invalidSettings | missingEntryPoint | unsupported _ => none

end Diagnostic

end IonLang
