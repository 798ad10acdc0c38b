/-!
# Positions in a source file
-/

namespace IonLang

/-- A place in a source file. Lines and columns count from one, and columns count bytes. -/
structure Position where
  file : String
  line : Nat
  column : Nat
  deriving DecidableEq, Repr

/-- A position as `file:line:column`. -/
def Position.render (pos : Position) : String :=
  pos.file ++ ":" ++ toString pos.line ++ ":" ++ toString pos.column

end IonLang
