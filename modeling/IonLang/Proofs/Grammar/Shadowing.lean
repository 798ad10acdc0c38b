import IonLang.Proofs.Grammar.Scope

/-!
# Types under the names of symbols

A variable or function under the name of a type is reported, if the type is defined in front of it.
The definition of a type does not look at the symbols. So in a program without diagnostics a symbol
shares its name with a type exactly if that type is defined behind it: `Program.ofSource_shadowed_iff`.
-/

namespace IonLang

namespace Grammar

variable {start s s' final : State} {name : String}

/-! ### From one definition to the next -/

def Round (s s' : State) : Prop := definitionRound () s = .ok (.yield ()) s'

def Rounds : State → State → Prop := Relation.ReflTransGen Round

theorem rightUnique_round : Relator.RightUnique Round := by
  intro s s₁ s₂ first second
  unfold Round at first second
  rw [first] at second
  cases second
  rfl

theorem rounds_of_definitions (h : definitions s = .ok () s') : Rounds s s' ∧ s'.kind = .eof := by
  refine repeatUntilDone_ok (I := fun _ s₁ => Rounds s s₁)
    (Q := fun _ s₁ => Rounds s s₁ ∧ s₁.kind = .eof) ?_ ?_ .refl h
  · intro _ s₁ _ s₂ passed round
    exact passed.tail round
  · intro _ s₁ _ s₂ passed round
    obtain ⟨rfl, ends⟩ := definitionRound_done round
    exact ⟨passed, ends⟩

/-! ### One definition -/

/-- The definition of a type begins here, and its name stands behind the keyword. -/
def State.DefinesType (s : State) (name : String) : Prop :=
  (s.kind = .keyword .structWord ∨ s.kind = .keyword .classWord) ∧ s.next.2.kind = .ident name

theorem State.DefinesType.ne_eof (defines : s.DefinesType name) : s.kind ≠ .eof := by
  rcases defines.1 with word | word
  · simp [word]
  · simp [word]

structure EntersType (name : String) (s s' : State) : Prop where
  symbols : s'.symbols = s.symbols
  types : ∀ other, s'.types.contains other = true ↔ other = name ∨ s.types.contains other = true
  quiet : s'.errors = [] → s.errors = []

/-- Symbols are entered, and unless something is reported none of them has the name of a type. -/
structure EntersSymbols (s s' : State) : Prop where
  types : s'.types = s.types
  quiet : s'.errors = [] → s.errors = []
  symbols : s'.errors = [] → ∀ name ∈ s'.symbols.names,
    name ∈ s.symbols.names ∨ s.types.contains name = false

theorem frame_relation : ReadingRelation fun s s' =>
    s'.symbols = s.symbols ∧ s'.types = s.types ∧ (s'.errors = [] → s.errors = []) where
  refl _ := ⟨rfl, rfl, id⟩
  trans first second :=
    ⟨second.1.trans first.1, second.2.1.trans first.2.1, first.2.2 ∘ second.2.2⟩
  next s := by
    obtain ⟨errors, _, symbols, types⟩ := next_frame s
    exact ⟨symbols, types, fun quiet => errors ▸ quiet⟩
  report s diagnostic _ := ⟨rfl, rfl, fun quiet => (List.append_eq_nil_iff.mp quiet).1⟩

theorem structDefinition_enters (h : structDefinition s = .ok () s') :
    ∃ name, s.next.2.kind = .ident name ∧ EntersType name s s' := by
  unfold structDefinition at h
  rw [skip_bind] at h
  obtain ⟨⟨name, pos⟩, s₁, nameRead, h⟩ := bind_ok h
  obtain ⟨_, s₂, opened, h⟩ := bind_ok h
  obtain ⟨fields, s₃, fieldsRead, h⟩ := bind_ok h
  obtain ⟨_, s₄, ended, h⟩ := bind_ok h
  obtain ⟨symbols, types, quiet⟩ := frame_relation.trans (frame_relation.next s)
    (frame_relation.trans (frame_relation.name.of_ok nameRead)
      (frame_relation.trans ((frame_relation.expect _).of_ok opened)
        (frame_relation.trans (frame_relation.structFields.of_ok fieldsRead)
          ((frame_relation.accept _).of_ok ended))))
  cases h
  refine ⟨name, (name_ok nameRead).1, symbols, fun other => ?_, quiet⟩
  rw [← types]
  exact s₄.types.contains_registerStruct name other fields

theorem classDefinition_enters (h : classDefinition s = .ok () s') :
    ∃ name, s.next.2.kind = .ident name ∧ EntersType name s s' := by
  unfold classDefinition at h
  rw [skip_bind] at h
  obtain ⟨⟨name, pos⟩, s₁, nameRead, h⟩ := bind_ok h
  obtain ⟨_, s₂, ended, h⟩ := bind_ok h
  obtain ⟨symbols, types, quiet⟩ := frame_relation.trans (frame_relation.next s)
    (frame_relation.trans (frame_relation.name.of_ok nameRead)
      ((frame_relation.expect _).of_ok ended))
  cases h
  refine ⟨name, (name_ok nameRead).1, symbols, fun other => ?_, quiet⟩
  rw [← types]
  exact s₂.types.contains_registerClass name other

/-- A symbol that is entered under an admitted name, with its name in front of the old ones. -/
theorem entersSymbols_of_admitted {symbols : Symbols} (admitted : s.AdmitsName name)
    (entered : symbols.names.Perm (name :: s.symbols.names)) :
    EntersSymbols s { s with symbols } where
  types := rfl
  quiet := id
  symbols quiet other member := by
    rcases List.mem_cons.mp (entered.mem_iff.mp member) with rfl | old
    · exact .inr (Bool.eq_false_iff.mpr fun known => admitted known quiet)
    · exact .inl old

theorem entersSymbols_relation : GlobalRelation EntersSymbols where
  refl _ := ⟨rfl, id, fun _ _ => .inl⟩
  trans {s₁ s₂ s₃} first second := by
    refine ⟨second.types.trans first.types, first.quiet ∘ second.quiet, fun quiet name member => ?_⟩
    rcases second.symbols quiet name member with known | free
    · exact first.symbols (second.quiet quiet) name known
    · exact .inr (first.types ▸ free)
  next s := by
    obtain ⟨errors, _, symbols, types⟩ := next_frame s
    exact ⟨types, fun quiet => errors ▸ quiet, fun _ _ member => .inl (symbols ▸ member)⟩
  report s diagnostic _ :=
    ⟨rfl, fun quiet => (List.append_eq_nil_iff.mp quiet).1, fun _ _ => .inl⟩
  number _ := ⟨rfl, id, fun _ _ => .inl⟩
  admitVariable _ _ _ _ _ _ admitted declared :=
    entersSymbols_of_admitted admitted.name (Symbols.names_of_declareVariable declared).2
  admitFunction _ _ _ _ _ admitted declared :=
    entersSymbols_of_admitted admitted (Symbols.names_of_declareFunction declared).2
  define s func body := by
    refine ⟨rfl, id, fun _ name member => .inl ?_⟩
    rwa [Symbols.names, Symbols.map_name_defineFunction] at member

theorem round_cases (round : Round s s') :
    (∃ name, s.DefinesType name ∧ EntersType name s s') ∨
      ∃ text, s.kind = .ident text ∧ EntersSymbols s s' := by
  obtain ⟨kind, next, round⟩ := peekKind_ok round
  split at round
  · cases round
  · obtain ⟨_, s₁, read, finish⟩ := bind_ok round
    cases finish
    obtain ⟨name, named, enters⟩ := structDefinition_enters read
    exact .inl ⟨name, ⟨.inl next, named⟩, enters⟩
  · obtain ⟨_, s₁, read, finish⟩ := bind_ok round
    cases finish
    obtain ⟨name, named, enters⟩ := classDefinition_enters read
    exact .inl ⟨name, ⟨.inr next, named⟩, enters⟩
  · obtain ⟨_, s₁, read, finish⟩ := bind_ok round
    cases finish
    exact .inr ⟨_, next, entersSymbols_relation.globalDefinition.of_ok read⟩
  · exact absurd round unexpected_ne_ok

theorem Round.quiet (round : Round s s') (quiet : s'.errors = []) : s.errors = [] := by
  rcases round_cases round with ⟨_, _, enters⟩ | ⟨_, _, enters⟩
  · exact enters.quiet quiet
  · exact enters.quiet quiet

theorem Round.contains (round : Round s s') (known : s.types.contains name = true) :
    s'.types.contains name = true := by
  rcases round_cases round with ⟨_, _, enters⟩ | ⟨_, _, enters⟩
  · exact (enters.types name).mpr (.inr known)
  · rw [enters.types]
    exact known

theorem Round.contains_defined (round : Round s s') (defines : s.DefinesType name) :
    s'.types.contains name = true := by
  rcases round_cases round with ⟨other, ⟨_, named⟩, enters⟩ | ⟨_, ident, _⟩
  · have same : name = other := by
      rw [defines.2] at named
      cases named
      rfl
    exact (enters.types name).mpr (.inl same)
  · rcases defines.1 with word | word
    · rw [ident] at word; cases word
    · rw [ident] at word; cases word

theorem not_round_of_eof (ends : s.kind = .eof) : ¬Round s s' := by
  intro round
  rcases round_cases round with ⟨_, defines, _⟩ | ⟨_, ident, _⟩
  · exact defines.ne_eof ends
  · rw [ends] at ident; cases ident

/-! ### Whole programs -/

theorem Rounds.contains (passed : Rounds s s') (known : s.types.contains name = true) :
    s'.types.contains name = true := by
  induction passed with
  | refl => exact known
  | tail _ round ih => exact round.contains ih

/-- Every state between two definitions lies on the way to the end of the file. -/
theorem Rounds.onward (whole : Rounds start final) (ends : final.kind = .eof)
    (passed : Rounds start s) : Rounds s final := by
  rcases Relation.ReflTransGen.total_of_right_unique rightUnique_round passed whole with on | back
  · exact on
  · rcases Relation.ReflTransGen.cases_head back with rfl | ⟨_, round, _⟩
    · exact .refl
    · exact absurd round (not_round_of_eof ends)

/-- A type that is defined anywhere is known at the end. -/
theorem Rounds.contains_defined (whole : Rounds start final) (ends : final.kind = .eof)
    (passed : Rounds start s) (defines : s.DefinesType name) : final.types.contains name = true := by
  rcases Relation.ReflTransGen.cases_head (whole.onward ends passed) with rfl | ⟨_, round, rest⟩
  · exact absurd ends defines.ne_eof
  · exact Rounds.contains rest (round.contains_defined defines)

/-- A symbol whose name is that of a type was there when the type was defined. -/
theorem Rounds.defined_behind (passed : Rounds start s) (fresh : start.symbols.names = [])
    (quiet : s.errors = []) (declared : name ∈ s.symbols.names) :
    DataType.primitive? name = none ∧ (s.types.contains name = true →
      ∃ s₁, Rounds start s₁ ∧ s₁.DefinesType name ∧ name ∈ s₁.symbols.names) := by
  induction passed with
  | refl =>
    rw [fresh] at declared
    cases declared
  | @tail s s' passed round ih =>
    have old := ih (round.quiet quiet)
    rcases round_cases round with ⟨other, defines, enters⟩ | ⟨_, _, enters⟩
    · rw [enters.symbols] at declared
      refine ⟨(old declared).1, fun known => ?_⟩
      rcases (enters.types name).mp known with rfl | before
      · exact ⟨s, passed, defines, declared⟩
      · exact (old declared).2 before
    · rcases enters.symbols quiet name declared with before | free
      · rw [enters.types]
        exact old before
      · -- The symbol is new, so no type has its name yet.
        rw [enters.types, free]
        refine ⟨?_, fun known => by cases known⟩
        have unknown := mt (TypeTable.contains_iff s.types name).mpr (by simp [free])
        simpa using (not_or.mp unknown).1

end Grammar

namespace Program

open Grammar

/-- In a program without diagnostics no symbol has the name of a primitive type, and a symbol has the
name of a struct or class exactly if that name was taken when the struct or class was defined. -/
theorem ofSource_shadowed_iff {file source : String} {program : Program}
    (parsed : ofSource file source = (some program, [])) :
    let start := State.ofTokens (Token.scan file source).tokens
    ∃ final, definitions start = .ok () final ∧ final.symbols = program.symbols ∧
      ∀ name ∈ program.symbols.names, DataType.primitive? name = none ∧
        (final.types.contains name = true ↔
          ∃ s, Rounds start s ∧ s.DefinesType name ∧ name ∈ s.symbols.names) := by
  intro start
  obtain ⟨found, silent⟩ := Prod.mk.inj parsed
  obtain ⟨final, read, quiet, rfl⟩ :=
    definitions_of_ofTokens (Prod.ext found (List.append_eq_nil_iff.mp silent).2)
  obtain ⟨whole, ends⟩ := rounds_of_definitions read
  refine ⟨final, read, rfl, fun name declared => ?_⟩
  obtain ⟨primitive, behind⟩ := whole.defined_behind rfl quiet declared
  refine ⟨primitive, behind, ?_⟩
  rintro ⟨s, passed, defines, _⟩
  exact whole.contains_defined ends passed defines

/-- A class takes the name of a variable, and another variable is of the class. -/
theorem ofSource_shadowed_iff_class :
    let source := "uint64 x; class x; x y; void main() ;"
    let start := State.ofTokens (Token.scan "f" source).tokens
    ∃ program final, ofSource "f" source = (some program, []) ∧ definitions start = .ok () final ∧
      program.symbols.names = ["main", "x", "y"] ∧ final.types.contains "x" = true ∧
      ∃ s, Rounds start s ∧ s.DefinesType "x" ∧ "x" ∈ s.symbols.names := by
  intro source start
  have facts : ((ofSource "f" source).1.map fun program => program.symbols.names) =
      some ["main", "x", "y"] ∧ (ofSource "f" source).2 = [] := by decide +kernel
  have answer : (definitions >>= fun _ => observe fun s => s.types.contains "x").run' start =
      some true := by decide +kernel
  obtain ⟨program, found, names⟩ := Option.map_eq_some_iff.mp facts.1
  have parsed : ofSource "f" source = (some program, []) := Prod.ext found facts.2
  obtain ⟨final, read, _, shadowed⟩ := ofSource_shadowed_iff parsed
  change definitions start = .ok () final at read
  have known : final.types.contains "x" = true := by
    delta EStateM.run' EStateM.run at answer
    rw [bind_run read] at answer
    exact Option.some.inj answer
  exact ⟨program, final, parsed, read, names, known, (shadowed "x" (by simp [names])).2.mp known⟩

end Program

end IonLang
