import IonLang.Dictionary
import IonLang.Yaml.Document

/-!
# Reading values out of YAML

Truth values, texts, lists, choices and records as nodes of a document. Wherever a value is asked
for, an alias stands for its node. The number of aliases that are followed is bounded, since aliases
let a short text stand for a huge value.
-/

namespace IonLang.Yaml

/-- Reading from a document, with the number of aliases followed so far. -/
abbrev Decode := ReaderT Document (StateT Nat Option)

def Document.aliasLimit (document : Document) : Nat := 100 * document.root.size

namespace Decode

def resolve : Yaml → Decode Yaml
  | .aliasOf id => do
    let document ← read
    let followed := (← get) + 1
    set followed
    if document.aliasLimit < followed then failure
    match document.anchored.lookup id with
    | some node => return node
    | none => failure
  | node => return node

/-! ### Scalars -/

def isNull (text : String) : Bool := ["null", "Null", "NULL", "~"].contains text

def nullTag : List UInt8 := "tag:yaml.org,2002:null".toUTF8.toList

def boolTag : List UInt8 := "tag:yaml.org,2002:bool".toUTF8.toList

def boolOf (text : String) : Decode Bool :=
  if ["true", "True", "TRUE"].contains text then return true
  else if ["false", "False", "FALSE"].contains text then return false
  else failure

/-- A truth value: a plain scalar, or a literal one whose tag says so. -/
def bool (node : Yaml) : Decode Bool := do
  match ← resolve node with
  | .scalar text .plain _ => boolOf text
  | .scalar text .literal tag => if tag == some boolTag then boolOf text else failure
  | _ => failure

def text (node : Yaml) : Decode String := do
  match ← resolve node with
  | .scalar text _ _ => return text
  | _ => failure

/-- A text that may be null. A plain scalar with no tag is null if it is empty or spells null, and
one with the tag of null must spell it. -/
def optionalText (node : Yaml) : Decode (Option String) := do
  match ← resolve node with
  | .scalar text .plain none => return if text.isEmpty || isNull text then none else some text
  | .scalar text .plain (some tag) =>
    if tag == nullTag then
      if isNull text then return none else failure
    else return some text
  | .scalar text _ _ => return some text
  | _ => failure

/-- The name that a tag of the document's own gives. -/
def localName? (tag : Option (List UInt8)) : Option String :=
  match tag with
  | some (mark :: name) =>
    if mark == '!'.toUInt8 then
      String.fromUTF8? ⟨(if name.isEmpty then [mark] else name).toArray⟩
    else none
  | _ => none

/-- One of several named things: its name is the text of a scalar, or the tag of a scalar that is
empty or null. -/
def choice {α : Type} (ofName? : String → Option α) (node : Yaml) : Decode α := do
  match ← resolve node with
  | .scalar text style tag =>
    let name ←
      match localName? tag with
      | none => pure text
      | some name =>
        if style == .plain && (text.isEmpty || isNull text) then pure name else failure
    match ofName? name with
    | some value => return value
    | none => failure
  | _ => failure

/-! ### Collections -/

/-- The items of a sequence. Nothing at all is an empty sequence. -/
def items (node : Yaml) : Decode (List Yaml) := do
  match ← resolve node with
  | .sequence items => return items
  | node => if node.isEmpty then return [] else failure

/-- The entries of a mapping. Nothing at all is an empty mapping. -/
def entries (node : Yaml) : Decode (List (Yaml × Yaml)) := do
  match ← resolve node with
  | .mapping entries => return entries
  | node => if node.isEmpty then return [] else failure

/-- The fields of a mapping with known keys: each is given at most once, and the values of other
keys do not matter. -/
def fields (known : List String) (node : Yaml) : Decode (Dictionary Yaml) := do
  (← entries node).foldlM (fun fields entry => do
    let key ← text entry.1
    if !known.contains key then return fields
    else if fields.contains key then failure
    else return fields.insert key entry.2) {}

def field {α : Type} (fields : Dictionary Yaml) (key : String) (default : α)
    (decode : Yaml → Decode α) : Decode α :=
  match fields.get? key with
  | some node => decode node
  | none => return default

end Decode

/-- Reads a value from a text that holds at most one document. -/
def decode? {α : Type} (value : Yaml → Decode α) (text : String) : Option α := do
  let document ← Document.parse? text
  let (result, _) ← ((value document.root).run document).run 0
  some result

end IonLang.Yaml
