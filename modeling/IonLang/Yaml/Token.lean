/-!
# YAML tokens

What a YAML text is made of once blanks and comments are gone. The beginnings and ends of block
collections, which the text shows by indentation only, are tokens of their own.
-/

namespace IonLang.Yaml

inductive Style where
  | plain | singleQuoted | doubleQuoted | literal | folded
  deriving DecidableEq, Repr

/-- A tag as it is written: a handle, which may be empty, and the bytes behind it. -/
structure TagName where
  handle : String
  suffix : List UInt8
  deriving DecidableEq, Repr

inductive Token where
  | streamEnd
  | version (major minor : Nat)
  | tagDirective (handle : String) (expansion : List UInt8)
  | documentStart | documentEnd
  | blockSequenceStart | blockMappingStart | blockEnd
  | flowSequenceStart | flowSequenceEnd | flowMappingStart | flowMappingEnd
  | blockEntry | flowEntry | key | value
  | aliasOf (name : String)
  | anchor (name : String)
  | tag (name : TagName)
  | scalar (text : String) (style : Style)
  deriving DecidableEq, Repr

end IonLang.Yaml
