import IonLang.Program
import IonLang.Yaml.Scalar.Written

/-!
# Symbol maps

A symbol map gives for each name of a program the label that stands for it, and for variables the
type. It is written as a YAML document in block style.
-/

namespace IonLang

structure VariableEntry where
  label : String
  type : String
  deriving DecidableEq, Repr

/-- Labels by name, in the order of declaration. -/
structure SymbolMap where
  functions : Dictionary String := {}
  vars : Dictionary VariableEntry := {}

namespace SymbolMap

/-- The symbol map of a program. Of several symbols with one name the last counts. -/
def ofProgram (program : Program) : SymbolMap where
  functions := .ofList (program.functions.map fun func => (func.name, func.id.label))
  vars :=
    .ofList (program.vars.map fun var => (var.name, ⟨var.id.label, var.type.render⟩))

/-- An entry of a map at the second level, with its fields. A key that is not simple is marked as
such, and the first field then follows the colon. -/
def renderEntry (key : String) (fields : List (String × String)) : String :=
  let lines := fields.map fun field =>
    Yaml.endLine (field.1 ++ ": " ++ Yaml.writeScalar 6 field.2)
  if Yaml.isSimpleKey key then
    "  " ++ Yaml.writeScalar 4 key ++ ":\n" ++ String.join (lines.map ("    " ++ ·))
  else "  ? " ++ Yaml.endLine (Yaml.writeScalar 4 key) ++ "  : " ++ "    ".intercalate lines

/-- A named map; an empty one is written as a pair of braces. -/
def renderSection {α : Type} (name : String) (fields : α → List (String × String))
    (dict : Dictionary α) : String :=
  if dict.entries.isEmpty then name ++ ": " ++ Text.braced "" ++ "\n"
  else name ++ ":\n" ++
    String.join (dict.entries.map fun entry => renderEntry entry.1 (fields entry.2))

def render (map : SymbolMap) : String :=
  renderSection "functions" (fun label => [("label", label)]) map.functions ++
    renderSection "variables" (fun entry => [("label", entry.label), ("type", entry.type)])
      map.vars

end SymbolMap

end IonLang
