import IonLang.Symbols

/-!
# Programs

A program is the functions and variables of one source file in the order of their declaration.
-/

namespace IonLang

structure Program where
  functions : List Function := []
  vars : List Variable := []
  deriving Repr

namespace Program

def findFunction? (program : Program) (name : String) : Option Function :=
  program.functions.find? fun func => func.name == name

def findVariable? (program : Program) (name : String) : Option Variable :=
  program.vars.find? fun var => var.name == name

/-- The body of a function as text, with a dash for a missing one. -/
def bodyText : Option Node → String
  | some body => body.render
  | none => "-"

def renderFunction (func : Function) : String :=
  "  " ++ func.id.label ++ " " ++ func.name ++ ": " ++ bodyText func.body ++ "\n"

def renderVariable (var : Variable) : String :=
  "  " ++ var.id.label ++ " " ++ var.name ++ ": " ++ var.type.render ++ "\n"

def render (program : Program) : String :=
  "functions:\n" ++ String.join (program.functions.map renderFunction) ++
    "variables:\n" ++ String.join (program.vars.map renderVariable)

end Program

end IonLang
