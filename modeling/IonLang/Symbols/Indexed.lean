import IonLang.Dictionary
import IonLang.Symbols

/-!
# Symbols with indexes by name

A table that holds, beside the symbols, an index by name for each kind of symbol. Names are looked up
in the indexes alone, and numbers in the lists alone. A declaration that succeeds adds to a list and
to the index of its kind; every operation gives back the table behind it, also when it fails.
-/

namespace IonLang.Symbols

structure Indexed extends Symbols where
  variableNames : Dictionary VarId := {}
  functionNames : Dictionary FuncId := {}

namespace Indexed

def isDeclared (table : Indexed) (name : String) : Bool :=
  table.variableNames.contains name || table.functionNames.contains name

def declareVariable (table : Indexed) (name : String) (type : DataType) (pos : Position) :
    Except Diagnostic VarId × Indexed :=
  if table.isDeclared name then (.error (.variableRedeclared name pos), table)
  else
    let id : VarId := ⟨table.vars.length⟩
    (.ok id, { table with
      vars := table.vars ++ [⟨id, name, type⟩]
      variableNames := table.variableNames.insert name id })

def declareFunction (table : Indexed) (name : String) (pos : Position) :
    Except Diagnostic FuncId × Indexed :=
  if table.isDeclared name then (.error (.functionRedeclared name pos), table)
  else
    let id : FuncId := ⟨table.functions.length⟩
    (.ok id, { table with
      functions := table.functions ++ [⟨id, name, none⟩]
      functionNames := table.functionNames.insert name id })

/-- A number without a function changes nothing. -/
def defineFunction (table : Indexed) (func : FuncId) (body : Node) : Indexed :=
  { table with
    functions := table.functions.modify func.index fun f => { f with body := some body } }

def lookupVariable (table : Indexed) (name : String) (pos : Position) : Except Diagnostic VarId :=
  match table.variableNames.get? name with
  | some id => .ok id
  | none => .error (.unknownVariable name pos)

def lookupFunction (table : Indexed) (name : String) (pos : Position) : Except Diagnostic FuncId :=
  match table.functionNames.get? name with
  | some id => .ok id
  | none => .error (.unknownFunction name pos)

end Indexed

end IonLang.Symbols
