import IonLang.DataType
import IonLang.Node

/-!
# Symbols

The variables and functions of a program in the order of their declaration. A variable or function
is numbered by its place, and both kinds share one space of names.
-/

namespace IonLang

structure Variable where
  id : VarId
  name : String
  type : DataType
  deriving Repr

/-- A function; it has no body between its declaration and its definition. -/
structure Function where
  id : FuncId
  name : String
  body : Option Node
  deriving Repr

structure Symbols where
  vars : List Variable := []
  functions : List Function := []

namespace Symbols

def findVariable? (symbols : Symbols) (name : String) : Option VarId :=
  (symbols.vars.find? fun var => var.name == name).map Variable.id

def findFunction? (symbols : Symbols) (name : String) : Option FuncId :=
  (symbols.functions.find? fun func => func.name == name).map Function.id

def isDeclared (symbols : Symbols) (name : String) : Bool :=
  (symbols.findVariable? name).isSome || (symbols.findFunction? name).isSome

def declareVariable (symbols : Symbols) (name : String) (type : DataType) (pos : Position) :
    Except Diagnostic (VarId × Symbols) :=
  if symbols.isDeclared name then .error (.variableRedeclared name pos)
  else
    let id : VarId := ⟨symbols.vars.length⟩
    .ok (id, { symbols with vars := symbols.vars ++ [⟨id, name, type⟩] })

/-- Declares a function under a name that is not in use. Its body comes later, so that the body
can refer to the function. -/
def declareFunction (symbols : Symbols) (name : String) (pos : Position) :
    Except Diagnostic (FuncId × Symbols) :=
  if symbols.isDeclared name then .error (.functionRedeclared name pos)
  else
    let id : FuncId := ⟨symbols.functions.length⟩
    .ok (id, { symbols with functions := symbols.functions ++ [⟨id, name, none⟩] })

/-- Gives a function its body. A number without a function changes nothing. -/
def defineFunction (symbols : Symbols) (func : FuncId) (body : Node) : Symbols :=
  { symbols with
    functions := symbols.functions.modify func.index fun f => { f with body := some body } }

def lookupVariable (symbols : Symbols) (name : String) (pos : Position) :
    Except Diagnostic VarId :=
  match symbols.findVariable? name with
  | some id => .ok id
  | none => .error (.unknownVariable name pos)

def lookupFunction (symbols : Symbols) (name : String) (pos : Position) :
    Except Diagnostic FuncId :=
  match symbols.findFunction? name with
  | some id => .ok id
  | none => .error (.unknownFunction name pos)

def variableAt? (symbols : Symbols) (var : VarId) : Option Variable :=
  symbols.vars[var.index]?

def functionAt? (symbols : Symbols) (func : FuncId) : Option Function :=
  symbols.functions[func.index]?

end Symbols

end IonLang
