import IonLang.Machine.Step
import IonLang.Settings
import IonLang.Text.Quoted

/-!
# Watch points

A watch shows the state of the machine after an instruction that carries a watched label, or after
every instruction. A watch list is a YAML mapping from labels to what is shown there.
-/

namespace IonLang.Monitor

/-- What is shown at a label: some registers, or all of them if none is named, and maybe the
variables. -/
structure WatchPoint where
  registers : List Register := []
  vars : Bool := false
  deriving DecidableEq, Repr

abbrev WatchList := Dictionary WatchPoint

/-- A watch point as a mapping; the registers go by their lower-case names. -/
def WatchPoint.ofYaml (node : Yaml) : Yaml.Decode WatchPoint := do
  let fields ← Yaml.Decode.fields ["regs", "vars"] node
  let registers ← Yaml.Decode.field fields "regs" [] fun node => do
    (← Yaml.Decode.items node).mapM (Yaml.Decode.choice Register.ofName?)
  return { registers, vars := ← Yaml.Decode.field fields "vars" false Yaml.Decode.bool }

/-- A watch list as a mapping. Of several entries for one label the last counts. -/
def WatchList.ofYaml (node : Yaml) : Yaml.Decode WatchList := do
  let pairs ← (← Yaml.Decode.entries node).mapM fun entry => do
    return (← Yaml.Decode.text entry.1, ← WatchPoint.ofYaml entry.2)
  return .ofList pairs

def WatchList.parse? (text : String) : Option WatchList := Yaml.decode? ofYaml text

structure Watch where
  /-- The file that the watch list comes from. -/
  file : Option String := none
  points : WatchList := {}
  /-- Whether every instruction is shown. -/
  all : Bool := false

namespace Watch

def announcement (watch : Watch) : String :=
  (if watch.all then " * Dump all\n" else "") ++
    match watch.file with
    | some file =>
      " * Dump[" ++ toString watch.points.size ++ "] " ++ Text.quote file ++ "\n"
    | none => ""

/-- The watch point of an instruction: that of its first label that is watched. -/
def point? (watch : Watch) (m : Machine) (pc : Nat) : Option WatchPoint :=
  (m.labelsAt pc).findSome? watch.points.get?

def tableRule : String := " +" ++ Text.fill 29 '-' ++ "+" ++ Text.fill 29 '-' ++ "+\n"

def listRule : String := " +" ++ Text.fill 59 '-' ++ "+\n"

def word (value : UInt64) : String := Text.hexUpper 16 value.toNat

def tableRow (m : Machine) (a b : Register) : String :=
  " | " ++ a.name ++ ": " ++ word (m.get a) ++ "       | " ++ b.name ++ ": " ++ word (m.get b) ++
    "       |\n"

def flagText (flag : Bool) : String := Text.padEnd 5 (if flag then "true" else "false")

def table (m : Machine) : String :=
  tableRule ++ tableRow m .rax .rbx ++ tableRow m .rcx .rdx ++ tableRow m .rsi .rdi ++
    " |  pc: " ++ Text.padStart 16 ' ' (toString m.pc) ++ "       |  zf: " ++ flagText m.zero ++
    " cf: " ++ flagText m.carry ++ "           |\n" ++ tableRule

def registerList (m : Machine) (registers : List Register) : String :=
  String.join (registers.map fun reg =>
    " | " ++ Text.padStart 3 ' ' reg.name ++ ": " ++ word (m.get reg) ++ "\n") ++ listRule

def variableList (m : Machine) : String :=
  String.join (m.symbols.entries.map fun (name, address) =>
    " | " ++ Text.hexUpper 4 address ++ " " ++ Text.padEnd 12 name ++ " : " ++
      ((m.quadword? name).elim "-" word) ++ "\n") ++ listRule

/-- A number in at least six digits. -/
def timeText (time : Nat) : String := Text.padStart 6 '0' (toString time)

def heading (time pc : Nat) (inst : Instruction) : String :=
  "[" ++ timeText time ++ "] " ++ Text.padStart 5 ' ' (toString pc) ++ " : " ++
    inst.renderStyled ++ "\n"

def pointText (m : Machine) (point : WatchPoint) : String :=
  (if point.registers.isEmpty then table m else registerList m point.registers) ++
    if point.vars then variableList m else ""

def report (watch : Watch) (time pc : Nat) (inst : Instruction) (m : Machine) : String :=
  match watch.point? m pc with
  | some point => heading time pc inst ++ pointText m point
  | none => if watch.all then heading time pc inst ++ table m else ""

end Watch

end IonLang.Monitor
