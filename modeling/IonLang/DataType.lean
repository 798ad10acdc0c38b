import IonLang.Diagnostic
import IonLang.Dictionary
import IonLang.Text.Layout

/-!
# Data types

The types of variables and the table that resolves type names. Primitive names come first, then
structs, then classes; a later definition of a struct or class takes the place of an earlier one
of the same name.
-/

namespace IonLang

inductive DataType where
  | void
  | bool
  | uint64
  | pointer (base : DataType) (depth : Nat)
  | structType (name : String) (fields : List (String × DataType))
  | classType (name : String)
  deriving Repr, Inhabited

namespace DataType

/-- Adds levels of indirection. A pointer stays one pointer with a greater depth. -/
def pointTo : DataType → Nat → DataType
  | type, 0 => type
  | pointer base n, depth => pointer base (n + depth)
  | type, depth => pointer type depth

def render : DataType → String
  | void => "void"
  | bool => "bool"
  | uint64 => "uint64"
  | pointer base depth => base.render ++ Text.fill depth '*'
  | structType name _ => "struct " ++ name
  | classType name => "class " ++ name

def isVoid : DataType → Bool
  | void => true
  | _ => false

/-- The types whose names are always known. -/
def primitive? : String → Option DataType
  | "void" => some void
  | "bool" => some bool
  | "uint64" => some uint64
  | _ => none

end DataType

/-- The structs and classes that have been defined so far. -/
structure TypeTable where
  structs : Dictionary DataType := {}
  classes : Dictionary DataType := {}

namespace TypeTable

def find? (table : TypeTable) (name : String) : Option DataType :=
  (DataType.primitive? name).or ((table.structs.get? name).or (table.classes.get? name))

def contains (table : TypeTable) (name : String) : Bool := (table.find? name).isSome

/-- The type with a given name; an unknown name is reported at `pos`. -/
def resolve (table : TypeTable) (name : String) (pos : Position) : Except Diagnostic DataType :=
  match table.find? name with
  | some type => .ok type
  | none => .error (.unknownType name pos)

/-- Enters a struct or class under its name. Other types have no name to enter. -/
def register (table : TypeTable) : DataType → TypeTable
  | .structType name fields =>
    { table with structs := table.structs.insert name (.structType name fields) }
  | .classType name => { table with classes := table.classes.insert name (.classType name) }
  | _ => table

end TypeTable

end IonLang
