import IonLang.Yaml.Token

/-!
# YAML documents

A document is a tree of scalars, sequences and mappings. A node may be anchored, and an alias stands
for an anchored node. A scalar keeps its style and its tag, because both bear on what it is read as.
-/

namespace IonLang

inductive Yaml where
  | scalar (text : String) (style : Yaml.Style) (tag : Option (List UInt8))
  | sequence (items : List Yaml)
  | mapping (entries : List (Yaml × Yaml))
  | aliasOf (id : Nat)
  deriving Repr, Inhabited

namespace Yaml

def empty : Yaml := scalar "" .plain none

/-- Whether nothing is written, a tag apart. -/
def isEmpty : Yaml → Bool
  | scalar "" .plain _ => true
  | _ => false

mutual

/-- The size of a tree, in which a collection counts once for its beginning and once for its end. -/
def size : Yaml → Nat
  | scalar _ _ _ => 1
  | aliasOf _ => 1
  | sequence items => 2 + itemsSize items
  | mapping entries => 2 + entriesSize entries

def itemsSize : List Yaml → Nat
  | [] => 0
  | item :: items => item.size + itemsSize items

def entriesSize : List (Yaml × Yaml) → Nat
  | [] => 0
  | (key, value) :: entries => key.size + value.size + entriesSize entries

end

structure Document where
  root : Yaml := empty
  anchored : List (Nat × Yaml) := []
  deriving Repr

end Yaml

end IonLang
