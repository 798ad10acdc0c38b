import IonLang.Proofs.Grammar.Completeness

/-!
# Phrases that parsers read

`Parses symbols p phrase rest Q` says that the parser `p` reads the phrase in front of `rest`, with
`symbols` declared, and returns a value with the property `Q`. `Loops` says the same of a loop,
whatever the bound on its rounds. Each step of the rules has a lemma that takes its token off the
front of the phrase.
-/

namespace IonLang.Grammar

variable {α β : Type} {s s' : State} {symbols : Symbols}
variable {token : Token.Kind} {phrase rest more : List Token.Kind} {Q : α → Prop} {R : β → Prop}

/-! ### States and phrases -/

/-- What is unread and declared, where nothing has been reported and no type has been defined. -/
structure State.At (s : State) (symbols : Symbols) (kinds : List Token.Kind) : Prop where
  kinds : s.kinds = kinds
  quiet : s.errors = []
  types : s.types = {}
  symbols : s.symbols = symbols

theorem State.At.kind (here : s.At symbols (token :: rest)) : s.kind = token := kind_of_kinds here.kinds

theorem State.At.length {kinds : List Token.Kind} (here : s.At symbols kinds) :
    s.unread.length = kinds.length := by
  rw [← here.kinds, State.kinds, List.length_map]

theorem State.At.next (here : s.At symbols (token :: rest)) (real : token ≠ .eof) :
    s.next.2.At symbols rest := by
  obtain ⟨first, tail, unread, rfl, kinds⟩ := unread_of_kinds here.kinds
  rw [next_eq unread real]
  exact ⟨kinds, here.quiet, here.types, here.symbols⟩

theorem State.At.noType {kinds : List Token.Kind} {n : String} (here : s.At symbols kinds)
    (free : DataType.primitive? n = none) : s.types.contains n = false := by
  rw [here.types, TypeTable.contains, TypeTable.find?, free]
  rfl

def Parses (symbols : Symbols) (p : Parser α) (phrase rest : List Token.Kind) (Q : α → Prop) : Prop :=
  ∀ ⦃s⦄, s.At symbols (phrase ++ rest) → ∃ a s', p s = .ok a s' ∧ Q a ∧ s'.At symbols rest

namespace Parses

theorem pure {a : α} (holds : Q a) : Parses symbols (pure a) [] rest Q :=
  fun s here => ⟨a, s, rfl, holds, here⟩

theorem build {node : Nat → Node} {Q : Node → Prop} (holds : ∀ n, Q (node n)) :
    Parses symbols (build node) [] rest Q :=
  fun s here => ⟨node s.nodes, _, rfl, holds s.nodes, ⟨here.kinds, here.quiet, here.types, here.symbols⟩⟩

theorem weaken {Q' : α → Prop} {p : Parser α} (first : Parses symbols p phrase rest Q)
    (implies : ∀ a, Q a → Q' a) : Parses symbols p phrase rest Q' := by
  intro s here
  obtain ⟨a, s', ran, holds, finish⟩ := first here
  exact ⟨a, s', ran, implies a holds, finish⟩

theorem bind {p : Parser α} {f : α → Parser β} (first : Parses symbols p phrase (more ++ rest) Q)
    (second : ∀ a, Q a → Parses symbols (f a) more rest R) :
    Parses symbols (p >>= f) (phrase ++ more) rest R := by
  intro s here
  rw [List.append_assoc] at here
  obtain ⟨a, s₁, ran, holds, between⟩ := first here
  obtain ⟨b, s', ran', result, finish⟩ := second a holds between
  exact ⟨b, s', by rw [bind_run ran, ran'], result, finish⟩

/-- The second parser reads nothing. -/
theorem bind_last {p : Parser α} {f : α → Parser β} (first : Parses symbols p phrase rest Q)
    (second : ∀ a, Q a → Parses symbols (f a) [] rest R) : Parses symbols (p >>= f) phrase rest R := by
  rw [← List.append_nil phrase]
  exact first.bind second

/-- The first parser reads nothing. -/
theorem bind_first {a : α} {p : Parser α} {f : α → Parser β}
    (first : Parses symbols p [] (phrase ++ rest) (· = a))
    (second : Parses symbols (f a) phrase rest R) : Parses symbols (p >>= f) phrase rest R :=
  first.bind fun _ same => same ▸ second

theorem map {f : α → β} {p : Parser α} (first : Parses symbols p phrase rest Q)
    (holds : ∀ a, Q a → R (f a)) : Parses symbols (f <$> p) phrase rest R := by
  intro s here
  obtain ⟨a, s', ran, result, finish⟩ := first here
  exact ⟨f a, s', map_run ran, holds a result, finish⟩

/-! ### Tokens -/

/-- A step that consumes the next token. -/
theorem token_bind {p : Parser α} {a : State → α} {f : α → Parser β} (real : token ≠ .eof)
    (reads : ∀ s, s.kind = token → p s = .ok (a s) s.next.2)
    (next : ∀ s, Parses symbols (f (a s)) phrase rest R) :
    Parses symbols (p >>= f) (token :: phrase) rest R := by
  intro s here
  rw [bind_run (reads s here.kind)]
  exact next s (here.next real)

/-- A step that looks at the next token and leaves it. -/
theorem look_bind {p : Parser α} {a : α} {f : α → Parser β} (head : phrase ++ rest = token :: more)
    (reads : ∀ s, s.kind = token → p s = .ok a s) (next : Parses symbols (f a) phrase rest R) :
    Parses symbols (p >>= f) phrase rest R := by
  intro s here
  have first : s.At symbols (token :: more) := head ▸ here
  rw [bind_run (reads s first.kind)]
  exact next here

theorem peekKind_bind {f : Token.Kind → Parser β} (head : phrase ++ rest = token :: more)
    (next : Parses symbols (f token) phrase rest R) : Parses symbols (peekKind >>= f) phrase rest R :=
  look_bind head (fun _ kind => by rw [← kind]; rfl) next

theorem skip_bind {f : Unit → Parser β} (real : token ≠ .eof)
    (next : Parses symbols (f ()) phrase rest R) :
    Parses symbols (skip >>= f) (token :: phrase) rest R :=
  token_bind real (fun _ _ => rfl) fun _ => next

theorem expect_bind {mark : Mark} {f : Unit → Parser β} (next : Parses symbols (f ()) phrase rest R) :
    Parses symbols (expect mark >>= f) (.mark mark :: phrase) rest R :=
  token_bind (by simp) (fun _ => expect_of_kind) fun _ => next

theorem expectWord_bind {keyword : Keyword} {f : Unit → Parser β}
    (next : Parses symbols (f ()) phrase rest R) :
    Parses symbols (expectWord keyword >>= f) (.keyword keyword :: phrase) rest R :=
  token_bind (by simp) (fun _ => expectWord_of_kind) fun _ => next

theorem accept_bind {f : Bool → Parser β} (real : token ≠ .eof)
    (next : Parses symbols (f true) phrase rest R) :
    Parses symbols (accept token >>= f) (token :: phrase) rest R :=
  token_bind real (fun _ kind => accept_of_kind kind real) fun _ => next

theorem refuse_bind {other : Token.Kind} {f : Bool → Parser β} (head : phrase ++ rest = token :: more)
    (different : token ≠ other) (next : Parses symbols (f false) phrase rest R) :
    Parses symbols (accept other >>= f) phrase rest R :=
  look_bind head (fun _ kind => accept_other (kind ▸ different)) next

theorem check_bind {accept : Token.Kind → Bool} {f : Bool → Parser β}
    (head : phrase ++ rest = token :: more) (next : Parses symbols (f (accept token)) phrase rest R) :
    Parses symbols ((observe fun s => s.check accept) >>= f) phrase rest R := by
  intro s here
  obtain ⟨first, tail, unread, rfl, _⟩ := unread_of_kinds (here.kinds.trans head)
  rw [observe_bind, State.check, unread]
  exact next here

theorem operator_bind {find : Token.Kind → Option α} {refused : Mark} {construct : String} {op : α}
    {f : Option α → Parser β} (real : token ≠ .eof) (found : find token = some op)
    (next : Parses symbols (f (some op)) phrase rest R) :
    Parses symbols (operatorOr find refused construct >>= f) (token :: phrase) rest R :=
  token_bind real (fun _ kind => operatorOr_run (kind ▸ found)) fun _ => next

theorem noOperator_bind {find : Token.Kind → Option α} {refused : Mark} {construct : String}
    {f : Option α → Parser β} (head : phrase ++ rest = token :: more) (missing : find token = none)
    (other : token ≠ .mark refused) (next : Parses symbols (f none) phrase rest R) :
    Parses symbols (operatorOr find refused construct >>= f) phrase rest R :=
  look_bind head (fun _ kind => operatorOr_other (kind ▸ missing) (kind ▸ other)) next

/-! ### Names -/

theorem name_bind {n : String} {f : String × Position → Parser β}
    (next : ∀ pos, Parses symbols (f (n, pos)) phrase rest R) :
    Parses symbols (name >>= f) (.ident n :: phrase) rest R :=
  token_bind (by simp) (fun _ => name_of_kind) fun s => next s.position

/-- A name that is no type name is not rejected. -/
theorem rejectTypeName_bind {n : String} {pos : Position} {f : Bool → Parser β}
    (free : DataType.primitive? n = none) (next : Parses symbols (f false) phrase rest R) :
    Parses symbols (rejectTypeName n pos >>= f) phrase rest R := by
  intro s here
  rw [bind_run (rejectTypeName_run (not_mem_types.mpr (here.noType free)))]
  exact next here

theorem lookupVariable {n : String} {pos : Position} {var : VarId}
    (found : symbols.findVariable? n = some var) :
    Parses symbols (lookupVariable n pos) [] rest (· = some var) := by
  intro s here
  refine ⟨some var, s, ?_, rfl, here⟩
  simp only [Grammar.lookupVariable, observe_bind, Symbols.lookupVariable, here.symbols, found]
  rfl

theorem lookupFunction {n : String} {pos : Position} {func : FuncId}
    (found : symbols.findFunction? n = some func) :
    Parses symbols (lookupFunction n pos) [] rest (· = some func) := by
  intro s here
  refine ⟨some func, s, ?_, rfl, here⟩
  simp only [Grammar.lookupFunction, observe_bind, Symbols.lookupFunction, here.symbols, found]
  rfl

end Parses

/-! ### Loops -/

/-- The loop reads the phrase, however many rounds it may take beyond the tokens of the phrase. -/
def Loops (symbols : Symbols) (step : β → Parser (ForInStep β)) (value : β)
    (phrase rest : List Token.Kind) (R : β → Prop) : Prop :=
  ∀ rounds, phrase.length < rounds → Parses symbols (iterate step rounds value) phrase rest R

namespace Loops

variable {step : β → Parser (ForInStep β)} {value : β}

theorem done (last : Parses symbols (step value) phrase rest fun round => ∃ w, round = .done w ∧ R w) :
    Loops symbols step value phrase rest R := by
  intro rounds enough
  obtain ⟨rounds, rfl⟩ : ∃ n, rounds = n + 1 := Nat.exists_eq_succ_of_ne_zero (by omega)
  intro s here
  obtain ⟨_, s', ran, ⟨w, rfl, holds⟩, finish⟩ := last here
  exact ⟨w, s', by simp only [iterate, ran], holds, finish⟩

theorem again (real : phrase ≠ [])
    (first : Parses symbols (step value) phrase (more ++ rest) fun round =>
      ∃ w, round = .yield w ∧ Loops symbols step w more rest R) :
    Loops symbols step value (phrase ++ more) rest R := by
  intro rounds enough
  have shorter := List.length_pos_iff.mpr real
  rw [List.length_append] at enough
  obtain ⟨rounds, rfl⟩ : ∃ n, rounds = n + 1 := Nat.exists_eq_succ_of_ne_zero (by omega)
  intro s here
  rw [List.append_assoc] at here
  obtain ⟨_, s₁, ran, ⟨w, rfl, others⟩, between⟩ := first here
  obtain ⟨v, s', ran', holds, finish⟩ := others rounds (by omega) between
  exact ⟨v, s', by simp only [iterate, ran, ran'], holds, finish⟩

theorem parses (loop : Loops symbols step value phrase rest R) :
    Parses symbols (repeatUntilDone step value) phrase rest R := by
  intro s here
  have enough : phrase.length < s.unread.length + 1 := by
    rw [here.length, List.length_append]
    omega
  exact loop _ enough here

theorem weaken {R' : β → Prop} (loop : Loops symbols step value phrase rest R)
    (implies : ∀ b, R b → R' b) : Loops symbols step value phrase rest R' :=
  fun rounds enough => (loop rounds enough).weaken implies

end Loops

end IonLang.Grammar
