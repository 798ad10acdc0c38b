import IonLang.Assembly.Instruction

/-!
# Assembly units

An assembly unit is a list of lines: directives, reservations of storage, labels and instructions.
-/

namespace IonLang

/-- The unit of a reservation. -/
inductive Width where
  | byte | qword
  deriving DecidableEq, Repr

namespace Width

def bytes : Width → Nat
  | byte => 1
  | qword => 8

def directive : Width → String
  | byte => "resb"
  | qword => "resq"

end Width

inductive Line where
  | directive (text : String)
  /-- Storage for `count` units at a label. -/
  | reserve (name : String) (width : Width) (count : Nat)
  /-- A code label, with a comment behind it if there is one. -/
  | label (name : String) (comment : Option String)
  | inst (inst : Instruction)
  deriving DecidableEq, Repr

namespace Line

/-- What follows the name in a reservation. -/
def reservation (width : Width) (count : Nat) : String :=
  ": " ++ width.directive ++ " " ++ toString count

def render : Line → String
  | directive text => text
  | reserve name width count => "    " ++ name ++ reservation width count
  | label name (some comment) => name ++ ": ;; " ++ comment
  | label name none => name ++ ":"
  | inst i => "    " ++ i.render

def renderStyled : Line → String
  | directive text => Text.paint .magenta text
  | reserve name width count => "    " ++ Text.paint .cyan name ++ reservation width count
  | label name (some comment) =>
    Text.paint .green (name ++ ":") ++ " " ++ Text.paint .yellow (";; " ++ comment)
  | label name none => Text.paint .green (name ++ ":")
  | inst i => "    " ++ i.renderStyled

/-- The name that a line defines, as data or as code. -/
def defines? : Line → Option String
  | label name _ | reserve name _ _ => some name
  | directive _ | inst _ => none

end Line

structure Assembly where
  lines : List Line := []
  deriving DecidableEq, Repr

namespace Assembly

/-- The text of a unit: each line ends with a line feed. -/
def render (code : Assembly) : String :=
  String.join (code.lines.map fun line => line.render ++ "\n")

def labels (code : Assembly) : List String := code.lines.filterMap Line.defines?

def listingRule (title : String) : String :=
  "+" ++ title ++ "+" ++ Text.fill 72 '-' ++ "\n"

/-- The rows of a listing; instructions are numbered from `count`. -/
def listingRows (count : Nat) : List Line → String
  | [] => ""
  | .inst i :: rest =>
    "| " ++ Text.padStart 6 ' ' (toString count) ++ " | " ++ (Line.inst i).renderStyled ++ "\n" ++
      listingRows (count + 1) rest
  | line :: rest => "|        | " ++ line.renderStyled ++ "\n" ++ listingRows count rest

def listing (code : Assembly) : String :=
  listingRule "-[Code]-" ++ listingRows 0 code.lines ++ listingRule "--------"

end Assembly

end IonLang
