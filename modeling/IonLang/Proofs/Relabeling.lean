import IonLang.Grammar.Definition
import Mathlib.Logic.Function.Basic

/-!
# Relabelings

A relabeling changes the identifiers and the positions of a text. Different identifiers stay
different, and the few with a meaning of their own stay as they are. `relabel` carries this over to
tokens and diagnostics, and `rename` to what holds names but no positions: types and symbols. The
lemmas say that the tables answer questions about new names as they did about the old ones.
-/

namespace IonLang

/-- The identifiers with a meaning of their own. -/
def reservedNames : List String := ["void", "bool", "uint64", "main"]

structure Relabeling where
  name : String → String
  position : Position → Position
  injective : Function.Injective name
  reserved : ∀ word ∈ reservedNames, name word = word
  /-- The position before the first token. -/
  origin : position ⟨"", 1, 1⟩ = ⟨"", 1, 1⟩

namespace Relabeling

def ofNames (name : String → String) (injective : Function.Injective name)
    (reserved : ∀ word ∈ reservedNames, name word = word) : Relabeling :=
  ⟨name, id, injective, reserved, rfl⟩

def unplaced : Relabeling where
  name := id
  position _ := ⟨"", 1, 1⟩
  injective := Function.injective_id
  reserved _ _ := rfl
  origin := rfl

def thenUnplaced (f : Relabeling) : Relabeling where
  name := f.name
  position _ := ⟨"", 1, 1⟩
  injective := f.injective
  reserved := f.reserved
  origin := rfl

theorem name_eq_reserved (f : Relabeling) {word : String} (member : word ∈ reservedNames)
    (text : String) : f.name text = word ↔ text = word := by
  constructor
  · intro same
    exact f.injective (same.trans (f.reserved word member).symm)
  · rintro rfl
    exact f.reserved text member

theorem name_beq (f : Relabeling) (first second : String) :
    (f.name first == f.name second) = (first == second) := by
  rw [Bool.eq_iff_iff, beq_iff_eq, beq_iff_eq, f.injective.eq_iff]

end Relabeling

/-! ### Tokens and diagnostics -/

def Token.Kind.relabel (f : Relabeling) : Kind → Kind
  | .ident name => .ident (f.name name)
  | kind => kind

def Token.relabel (f : Relabeling) (token : Token) : Token :=
  ⟨token.kind.relabel f, f.position token.pos⟩

theorem Token.Kind.relabel_of_not_ident (f : Relabeling) {kind : Kind}
    (other : ∀ name, kind ≠ .ident name) : kind.relabel f = kind := by
  cases kind with
  | ident name => exact absurd rfl (other name)
  | _ => rfl

theorem Token.Kind.relabel_eq_iff (f : Relabeling) {kind other : Kind}
    (notName : ∀ name, other ≠ .ident name) : kind.relabel f = other ↔ kind = other := by
  cases kind with
  | ident name =>
    constructor
    · exact fun same => absurd same.symm (notName _)
    · exact fun same => absurd same.symm (notName _)
  | _ => rfl

theorem Token.Kind.isComment_relabel (f : Relabeling) (kind : Kind) :
    (kind.relabel f).isComment = kind.isComment := by
  cases kind <;> rfl

namespace Diagnostic

def relabel (f : Relabeling) : Diagnostic → Diagnostic
  | strayCharacter c pos => strayCharacter c (f.position pos)
  | extraDot pos => extraDot (f.position pos)
  | expectedToken expected found => expectedToken expected (found.relabel f)
  | expectedWord expected found => expectedWord expected (found.relabel f)
  | missingCharacter c pos => missingCharacter c (f.position pos)
  | unknownFunction name pos => unknownFunction (f.name name) (f.position pos)
  | unknownVariable name pos => unknownVariable (f.name name) (f.position pos)
  | unexpectedToken found expected => unexpectedToken (found.relabel f) expected
  | unknownType name pos => unknownType (f.name name) (f.position pos)
  | variableRedeclared name pos => variableRedeclared (f.name name) (f.position pos)
  | functionRedeclared name pos => functionRedeclared (f.name name) (f.position pos)
  | typeNotAllowed name pos => typeNotAllowed (f.name name) (f.position pos)
  | notImplemented construct pos => notImplemented construct (f.position pos)
  | fileAccess fault => fileAccess fault
  | settingsAccess fault => settingsAccess fault
  | invalidSettings => invalidSettings
  | missingEntryPoint => missingEntryPoint
  | unsupported construct => unsupported construct

end Diagnostic

def relabelExcept {α β : Type} (f : Relabeling) (g : α → β) (result : Except Diagnostic α) :
    Except Diagnostic β :=
  (result.map g).mapError (Diagnostic.relabel f)

/-! ### Types -/

namespace DataType

mutual

def rename (r : String → String) : DataType → DataType
  | void => void
  | bool => bool
  | uint64 => uint64
  | pointer base depth => pointer (base.rename r) depth
  | structType name fields => structType (r name) (renameFields r fields)
  | classType name => classType (r name)

def renameFields (r : String → String) : List (String × DataType) → List (String × DataType)
  | [] => []
  | (name, type) :: rest => (r name, type.rename r) :: renameFields r rest

end

theorem renameFields_append (r : String → String) (front back : List (String × DataType)) :
    renameFields r (front ++ back) = renameFields r front ++ renameFields r back := by
  induction front with
  | nil => simp [renameFields]
  | cons field rest ih =>
    obtain ⟨name, type⟩ := field
    simp [renameFields, ih]

theorem rename_pointTo (r : String → String) (type : DataType) (depth : Nat) :
    (type.pointTo depth).rename r = (type.rename r).pointTo depth := by
  cases depth with
  | zero => cases type <;> rfl
  | succ depth => cases type <;> rfl

theorem isVoid_rename (r : String → String) (type : DataType) :
    (type.rename r).isVoid = type.isVoid := by
  cases type <;> rfl

mutual

theorem rename_id : ∀ type : DataType, type.rename id = type
  | void | bool | uint64 | classType _ => rfl
  | pointer base depth => by rw [rename, rename_id base]
  | structType name fields => by rw [rename, renameFields_id fields, id]

theorem renameFields_id : ∀ fields : List (String × DataType), renameFields id fields = fields
  | [] => rfl
  | (name, type) :: rest => by rw [renameFields, rename_id type, renameFields_id rest, id]

end

variable (f : Relabeling)

theorem any_renameFields (fields : List (String × DataType)) (name : String) :
    ((renameFields f.name fields).any fun field => field.1 == f.name name) =
      fields.any fun field => field.1 == name := by
  induction fields with
  | nil => simp [renameFields]
  | cons field rest ih =>
    obtain ⟨first, type⟩ := field
    simp only [renameFields, List.any_cons, ih, f.name_beq]

theorem primitive?_rename (name : String) :
    primitive? (f.name name) = (primitive? name).map (rename f.name) := by
  have void := f.name_eq_reserved (show "void" ∈ reservedNames by decide) name
  have bool := f.name_eq_reserved (show "bool" ∈ reservedNames by decide) name
  have uint64 := f.name_eq_reserved (show "uint64" ∈ reservedNames by decide) name
  unfold primitive?
  split
  · next same => rw [void.mp same]; rfl
  · next same => rw [bool.mp same]; rfl
  · next same => rw [uint64.mp same]; rfl
  · next noVoid noBool noWord =>
    split
    · exact absurd (void.mpr rfl) noVoid
    · exact absurd (bool.mpr rfl) noBool
    · exact absurd (uint64.mpr rfl) noWord
    · rfl

end DataType

/-! ### Tables -/

namespace Dictionary

variable {α : Type} (f : Relabeling) (g : α → α)

def rename (r : String → String) (dict : Dictionary α) : Dictionary α :=
  ⟨dict.entries.map fun entry => (r entry.1, g entry.2)⟩

theorem get?_rename (dict : Dictionary α) (key : String) :
    (dict.rename g f.name).get? (f.name key) = (dict.get? key).map g := by
  obtain ⟨entries⟩ := dict
  simp only [get?, rename]
  induction entries with
  | nil => rfl
  | cons entry rest ih =>
    obtain ⟨first, held⟩ := entry
    simp only [List.map_cons, List.lookup_cons, f.name_beq, ih]
    cases key == first <;> rfl

theorem insert_rename (dict : Dictionary α) (key : String) (value : α) :
    (dict.rename g f.name).insert (f.name key) (g value) = (dict.insert key value).rename g f.name := by
  obtain ⟨entries⟩ := dict
  simp only [insert, rename, mk.injEq]
  induction entries with
  | nil => rfl
  | cons entry rest ih =>
    simp only [List.map_cons, put, f.injective.eq_iff]
    by_cases found : entry.1 = key
    · simp [found]
    · simp [found, ih]

end Dictionary

namespace TypeTable

def rename (r : String → String) (table : TypeTable) : TypeTable where
  structs := table.structs.rename (DataType.rename r) r
  classes := table.classes.rename (DataType.rename r) r

variable (f : Relabeling)

theorem find?_rename (table : TypeTable) (name : String) :
    (table.rename f.name).find? (f.name name) = (table.find? name).map (DataType.rename f.name) := by
  simp only [find?, rename, Dictionary.get?_rename, DataType.primitive?_rename]
  cases DataType.primitive? name with
  | some type => rfl
  | none => cases table.structs.get? name <;> rfl

theorem contains_rename (table : TypeTable) (name : String) :
    (table.rename f.name).contains (f.name name) = table.contains name := by
  simp [contains, find?_rename]

theorem resolve_rename (table : TypeTable) (name : String) (pos : Position) :
    (table.rename f.name).resolve (f.name name) (f.position pos) =
      relabelExcept f (DataType.rename f.name) (table.resolve name pos) := by
  simp only [resolve, find?_rename]
  cases table.find? name <;> rfl

theorem register_rename (table : TypeTable) (type : DataType) :
    (table.rename f.name).register (type.rename f.name) = (table.register type).rename f.name := by
  cases type with
  | structType name fields =>
    have entered :=
      table.structs.insert_rename f (DataType.rename f.name) name (.structType name fields)
    simp only [DataType.rename] at entered
    simp only [DataType.rename, register, rename, entered]
  | classType name =>
    have entered := table.classes.insert_rename f (DataType.rename f.name) name (.classType name)
    simp only [DataType.rename] at entered
    simp only [DataType.rename, register, rename, entered]
  | _ => rfl

end TypeTable

/-! ### Symbols and programs -/

def Variable.rename (r : String → String) (var : Variable) : Variable :=
  { var with name := r var.name, type := var.type.rename r }

/-- A body holds no names. -/
def Function.rename (r : String → String) (func : Function) : Function :=
  { func with name := r func.name }

namespace Symbols

def rename (r : String → String) (symbols : Symbols) : Symbols :=
  ⟨symbols.vars.map (Variable.rename r), symbols.functions.map (Function.rename r)⟩

variable (f : Relabeling)

theorem findVariable?_rename (symbols : Symbols) (name : String) :
    (symbols.rename f.name).findVariable? (f.name name) = symbols.findVariable? name := by
  simp only [findVariable?, rename, List.find?_map, Option.map_map, Function.comp_def,
    Variable.rename, f.name_beq]

theorem findFunction?_rename (symbols : Symbols) (name : String) :
    (symbols.rename f.name).findFunction? (f.name name) = symbols.findFunction? name := by
  simp only [findFunction?, rename, List.find?_map, Option.map_map, Function.comp_def,
    Function.rename, f.name_beq]

theorem isDeclared_rename (symbols : Symbols) (name : String) :
    (symbols.rename f.name).isDeclared (f.name name) = symbols.isDeclared name := by
  simp only [isDeclared, findVariable?_rename, findFunction?_rename]

theorem declareVariable_rename (symbols : Symbols) (name : String) (type : DataType)
    (pos : Position) :
    (symbols.rename f.name).declareVariable (f.name name) (type.rename f.name) (f.position pos) =
      relabelExcept f (Prod.map id (rename f.name)) (symbols.declareVariable name type pos) := by
  unfold declareVariable
  rw [isDeclared_rename]
  split
  · rfl
  · show Except.ok _ = Except.ok (Prod.map id (rename f.name) _)
    simp [rename, Variable.rename]

theorem declareFunction_rename (symbols : Symbols) (name : String) (pos : Position) :
    (symbols.rename f.name).declareFunction (f.name name) (f.position pos) =
      relabelExcept f (Prod.map id (rename f.name)) (symbols.declareFunction name pos) := by
  unfold declareFunction
  rw [isDeclared_rename]
  split
  · rfl
  · show Except.ok _ = Except.ok (Prod.map id (rename f.name) _)
    simp [rename, Function.rename]

theorem defineFunction_rename (r : String → String) (symbols : Symbols) (func : FuncId)
    (body : Node) :
    (symbols.rename r).defineFunction func body = (symbols.defineFunction func body).rename r := by
  simp only [defineFunction, rename, mk.injEq, true_and]
  apply List.ext_getElem?
  intro i
  simp only [List.getElem?_modify, List.getElem?_map]
  by_cases here : func.index = i
  · simp [here, Function.comp_def, Function.rename]
  · simp [here]

theorem lookupVariable_rename (symbols : Symbols) (name : String) (pos : Position) :
    (symbols.rename f.name).lookupVariable (f.name name) (f.position pos) =
      relabelExcept f id (symbols.lookupVariable name pos) := by
  simp only [lookupVariable, findVariable?_rename]
  cases symbols.findVariable? name <;> rfl

theorem lookupFunction_rename (symbols : Symbols) (name : String) (pos : Position) :
    (symbols.rename f.name).lookupFunction (f.name name) (f.position pos) =
      relabelExcept f id (symbols.lookupFunction name pos) := by
  simp only [lookupFunction, findFunction?_rename]
  cases symbols.findFunction? name <;> rfl

end Symbols

end IonLang
