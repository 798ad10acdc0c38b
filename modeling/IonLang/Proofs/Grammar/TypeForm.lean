import IonLang.Proofs.Grammar.WellFormed

/-!
# The form of types

A type is read as a name with stars, and the stars become one pointer over what the name stands for.
So no pointer points at a pointer, and none has depth zero. A type is copied out of the table when it
is read and keeps the structs as they were then, with fields that were checked when the struct was
defined. `Program.ofTokens_types_normal` says this of everything that occurs in the type of a
variable, whatever was reported.
-/

namespace IonLang

namespace DataType

/-- A type occurs in itself, in what points at it and in structs with a field in which it occurs. -/
inductive Occurs (part : DataType) : DataType → Prop where
  | self : Occurs part part
  | base {base : DataType} (depth : Nat) (inside : Occurs part base) :
    Occurs part (.pointer base depth)
  | field (name : String) {fields : List (String × DataType)} {field : String × DataType}
    (member : field ∈ fields) (inside : Occurs part field.2) : Occurs part (.structType name fields)

def isPointer : DataType → Bool
  | pointer .. => true
  | _ => false

/-- A pointer points at something else than a pointer, and the fields of a struct have names of
their own. -/
def InForm : DataType → Prop
  | pointer base depth => depth ≠ 0 ∧ base.isPointer = false
  | structType _ fields => (fields.map Prod.fst).Nodup
  | void | bool | uint64 | classType _ => True

def Normal (type : DataType) : Prop := ∀ part : DataType, part.Occurs type → part.InForm

theorem normal_void : void.Normal := by
  intro part occurs
  cases occurs
  trivial

theorem normal_bool : bool.Normal := by
  intro part occurs
  cases occurs
  trivial

theorem normal_uint64 : uint64.Normal := by
  intro part occurs
  cases occurs
  trivial

theorem normal_classType (name : String) : (classType name).Normal := by
  intro part occurs
  cases occurs
  trivial

theorem normal_pointer_iff {base : DataType} {depth : Nat} :
    (pointer base depth).Normal ↔ depth ≠ 0 ∧ base.isPointer = false ∧ base.Normal := by
  constructor
  · intro normal
    obtain ⟨deep, flat⟩ := normal _ .self
    exact ⟨deep, flat, fun part inside => normal part (.base depth inside)⟩
  · rintro ⟨deep, flat, normal⟩ part occurs
    cases occurs with
    | self => exact ⟨deep, flat⟩
    | base _ inside => exact normal part inside

theorem normal_structType_iff {name : String} {fields : List (String × DataType)} :
    (structType name fields).Normal ↔
      (fields.map Prod.fst).Nodup ∧ ∀ field ∈ fields, field.2.Normal := by
  constructor
  · intro normal
    exact ⟨normal _ .self, fun field member part inside => normal part (.field name member inside)⟩
  · rintro ⟨distinct, normal⟩ part occurs
    cases occurs with
    | self => exact distinct
    | field _ member inside => exact normal _ member part inside

/-- Stars make one pointer, also over a type that is a pointer already. -/
theorem Normal.pointTo {type : DataType} (normal : type.Normal) (depth : Nat) :
    (type.pointTo depth).Normal := by
  by_cases shallow : depth = 0
  · subst shallow
    simpa [DataType.pointTo] using normal
  · cases type with
    | pointer base inner =>
      obtain ⟨_, flat, baseNormal⟩ := normal_pointer_iff.mp normal
      rw [DataType.pointTo]
      · exact normal_pointer_iff.mpr ⟨by omega, flat, baseNormal⟩
      · exact shallow
    | _ =>
      rw [DataType.pointTo]
      · exact normal_pointer_iff.mpr ⟨shallow, rfl, normal⟩
      all_goals simp [shallow]

theorem normal_of_primitive? {name : String} {type : DataType}
    (found : primitive? name = some type) : type.Normal := by
  unfold primitive? at found
  split at found
  · cases found; exact normal_void
  · cases found; exact normal_bool
  · cases found; exact normal_uint64
  · cases found

end DataType

/-! ### Tables of types -/

namespace TypeTable

def Normal (table : TypeTable) : Prop :=
  ∀ (name : String) (type : DataType), table.find? name = some type → type.Normal

variable {table : TypeTable} {type : DataType}

theorem find?_register {name : String} {found : DataType}
    (h : (table.register type).find? name = some found) :
    found = type ∨ table.find? name = some found := by
  cases type with
  | structType key fields =>
    simp only [find?, register, Dictionary.get?_insert] at h ⊢
    split at h
    · cases primitive : DataType.primitive? name with
      | some held =>
        rw [primitive] at h
        exact .inr h
      | none =>
        rw [primitive] at h
        exact .inl (Option.some.inj h).symm
    · exact .inr h
  | classType key =>
    simp only [find?, register, Dictionary.get?_insert] at h ⊢
    split at h
    · -- A struct of the name goes before the new class.
      cases before : (DataType.primitive? name).or (table.structs.get? name) with
      | some held =>
        rw [← Option.or_assoc, before] at h ⊢
        exact .inr h
      | none =>
        rw [← Option.or_assoc, before] at h
        exact .inl (Option.some.inj h).symm
    · exact .inr h
  | _ => exact .inr h

theorem Normal.register (normal : table.Normal) (typeNormal : type.Normal) :
    (table.register type).Normal := by
  intro name found known
  rcases find?_register known with rfl | old
  · exact typeNormal
  · exact normal name found old

theorem Normal.of_yields (normal : table.Normal) (yields : table.Yields type) : type.Normal := by
  obtain ⟨base, depth, known, rfl⟩ := yields
  rcases known with rfl | ⟨name, found⟩
  · exact DataType.normal_uint64.pointTo depth
  · exact (normal name base found).pointTo depth

theorem Normal.of_defines (normal : table.Normal) (defines : table.Defines type) : type.Normal := by
  cases defines with
  | structType distinct written =>
    exact DataType.normal_structType_iff.mpr
      ⟨distinct, fun field member => normal.of_yields (written field member)⟩
  | classType name => exact DataType.normal_classType name

theorem normal_empty : ({} : TypeTable).Normal := by
  intro name type found
  have primitive : DataType.primitive? name = some type := by
    simpa [find?, Dictionary.get?] using found
  exact DataType.normal_of_primitive? primitive

end TypeTable

/-! ### Parses -/

namespace Grammar

structure State.TypesNormal (s : State) : Prop where
  table : s.types.Normal
  vars : ∀ var ∈ s.symbols.vars, var.type.Normal

theorem typesNormal_relation : ProgramRelation fun s s' => s.TypesNormal → s'.TypesNormal where
  refl _ := id
  trans first second := second ∘ first
  next s normal := by
    obtain ⟨_, _, symbols, types⟩ := next_frame s
    exact ⟨types ▸ normal.table, symbols ▸ normal.vars⟩
  report _ _ _ normal := ⟨normal.table, normal.vars⟩
  number _ normal := ⟨normal.table, normal.vars⟩
  admitVariable s name type pos var symbols admitted declared normal := by
    obtain ⟨_, _, rfl⟩ := declareVariable_eq_ok declared
    refine ⟨normal.table, fun other member => ?_⟩
    rcases List.mem_append.mp member with old | new
    · exact normal.vars other old
    · rw [List.mem_singleton.mp new]
      exact normal.table.of_yields admitted.type
  admitFunction s name pos func symbols _ declared normal := by
    obtain ⟨_, _, rfl⟩ := declareFunction_eq_ok declared
    exact ⟨normal.table, normal.vars⟩
  define _ _ _ normal := ⟨normal.table, normal.vars⟩
  admitType s type defines normal :=
    ⟨normal.table.register (normal.table.of_defines defines), normal.vars⟩

end Grammar

namespace Program

/-- In the type of a variable, at any depth, no pointer has depth zero or points at a pointer, and no
struct has two fields of one name. -/
theorem ofTokens_types_normal (tokens : List Token) (program : Program) (errors : List Diagnostic)
    (parsed : ofTokens tokens = (some program, errors)) :
    ∀ var ∈ program.vars, ∀ part : DataType, part.Occurs var.type →
      (∀ base depth, part = .pointer base depth → depth ≠ 0 ∧ ∀ inner n, base ≠ .pointer inner n) ∧
        ∀ name fields, part = .structType name fields → (fields.map Prod.fst).Nodup := by
  obtain ⟨s, read, _, rfl⟩ := definitions_of_ofTokens parsed
  have start : (Grammar.State.ofTokens tokens).TypesNormal :=
    ⟨TypeTable.normal_empty, fun var member => by cases member⟩
  have normal := Grammar.typesNormal_relation.definitions.of_ok read start
  intro var member part occurs
  have form := normal.vars var member part occurs
  constructor
  · rintro base depth rfl
    obtain ⟨deep, flat⟩ := form
    refine ⟨deep, ?_⟩
    rintro inner n rfl
    cases flat
  · rintro name fields rfl
    exact form

/-- A field that is declared twice, a struct that is named inside its own definition and a struct that
is defined again, over its first definition. -/
theorem ofTokens_types_normal_redefined :
    let source := "struct P " ++ Text.braced "uint64** x; P* y; bool x;" ++
      "struct P " ++ Text.braced "P*** a;" ++ "P** v; void f() P* w;"
    ∃ program errors,
      ofTokens (Token.scan "f" source).tokens = (some program, errors) ∧ errors.length = 2 ∧
      (program.vars.map fun var => var.type.render) = ["struct P**", "struct P*"] ∧
      ∀ var ∈ program.vars, ∀ part : DataType, part.Occurs var.type →
        (∀ base depth, part = .pointer base depth → depth ≠ 0 ∧ ∀ inner n, base ≠ .pointer inner n) ∧
          ∀ name fields, part = .structType name fields → (fields.map Prod.fst).Nodup := by
  intro source
  let result := ofTokens (Token.scan "f" source).tokens
  have facts : (result.1.map fun program => program.vars.map fun var => var.type.render) =
      some ["struct P**", "struct P*"] ∧ result.2.length = 2 := by decide +kernel
  obtain ⟨program, found, types⟩ := Option.map_eq_some_iff.mp facts.1
  exact ⟨program, result.2, Prod.ext found rfl, facts.2, types,
    ofTokens_types_normal _ _ _ (Prod.ext found rfl)⟩

end Program

end IonLang
