import IonLang.Assembly.Line
import IonLang.Program

/-!
# Listing of a program

A program as a coloured table: functions with their bodies, then variables with their types.
-/

namespace IonLang.Program

def listFunction (func : Function) : String :=
  "+--------+ " ++ Text.paint .green func.name ++ " : " ++ func.id.label ++ "\n" ++
    "|          " ++ bodyText func.body ++ "\n"

def listVariable (var : Variable) : String :=
  "| " ++ Text.paint .cyan var.id.label ++ " | " ++ var.name ++ " : " ++ var.type.render ++ "\n"

def listing (program : Program) : String :=
  Assembly.listingRule "-[Func]-" ++ String.join (program.functions.map listFunction) ++
    Assembly.listingRule "-[Vars]-" ++ String.join (program.vars.map listVariable) ++
    Assembly.listingRule "--------"

end IonLang.Program
