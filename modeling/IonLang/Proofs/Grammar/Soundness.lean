import IonLang.Proofs.Grammar.Lookahead
import IonLang.Proofs.Grammar.Spelling

/-!
# A parse without diagnostics follows a derivation

Every rule of the parser, if it returns and nothing is reported, has read a text of its phrase:
whatever stack spells the rest, the phrase in front of that stack spells the whole. The names that
a rule looks up or declares are those of the derivation's rules about names.
-/

namespace IonLang.Grammar

variable {α β : Type} {s s' : State} {stack : List Symbol}

def ReadsOnly (p : Parser α) (phrase : Phrase) : Prop :=
  ∀ ⦃s a s'⦄, p s = .ok a s' → ∀ ⦃stack⦄, s'.Spells stack → s.Spells (.phrase phrase :: stack)

/-! ### Steps over tokens -/

theorem not_spells_record {diagnostic : Diagnostic} : ¬(s.record diagnostic).Spells stack := by
  intro spells
  have nonempty : s.errors ++ [diagnostic] = [] := spells.quiet
  simp at nonempty

theorem spells_next {kind : Token.Kind} (next : s.kind = kind) (real : kind ≠ .eof)
    (spells : s.next.2.Spells stack) : s.Spells (.token kind :: stack) := by
  obtain ⟨token, rest, unread, rfl⟩ := unread_of_kind next real
  refine ⟨(next_errors s).symm.trans spells.quiet, ?_⟩
  have derives := spells.derives
  rw [next_names, next_eq unread real] at derives
  rw [State.kinds, unread]
  exact .token token.kind derives

theorem expectOr_quiet {accept : Token.Kind → Bool} {complaint : Token → Diagnostic}
    {kind : Token.Kind} (exact : ∀ other, accept other = true → other = kind)
    (quiet : (s.expectOr accept complaint).2.errors = []) :
    s.kind = kind ∧ kind ≠ .eof ∧ (s.expectOr accept complaint).2 = s.next.2 := by
  rcases consumeIf_cases s accept with ⟨token, consumed, next, real, accepted⟩ | missing
  · have same := exact token.kind accepted
    exact ⟨next.trans same, same ▸ real, by simp only [State.expectOr, consumed]⟩
  · simp only [State.expectOr, missing, next_errors] at quiet
    simp [State.record] at quiet

theorem expect_quiet {mark : Mark} {a : Unit} (h : expect mark s = .ok a s') (quiet : s'.errors = []) :
    s.kind = .mark mark ∧ s' = s.next.2 := by
  cases h
  obtain ⟨next, _, same⟩ := expectOr_quiet (fun other accepted => eq_of_beq accepted) quiet
  exact ⟨next, same⟩

theorem spells_expect {mark : Mark} {a : Unit} (h : expect mark s = .ok a s')
    (spells : s'.Spells stack) : s.Spells (.mark mark :: stack) := by
  obtain ⟨next, rfl⟩ := expect_quiet h spells.quiet
  exact spells_next next nofun spells

theorem expectWord_quiet {keyword : Keyword} {a : Unit} (h : expectWord keyword s = .ok a s')
    (quiet : s'.errors = []) : s.kind = .keyword keyword ∧ s' = s.next.2 := by
  cases h
  obtain ⟨next, _, same⟩ := expectOr_quiet (fun other accepted => eq_of_beq accepted) quiet
  exact ⟨next, same⟩

theorem spells_expectWord {keyword : Keyword} {a : Unit} (h : expectWord keyword s = .ok a s')
    (spells : s'.Spells stack) : s.Spells (.word keyword :: stack) := by
  obtain ⟨next, rfl⟩ := expectWord_quiet h spells.quiet
  exact spells_next next nofun spells

theorem spells_accept {kind : Token.Kind} {found : Bool} (h : accept kind s = .ok found s')
    (spells : s'.Spells stack) :
    if found then s.Spells (.token kind :: stack) else s.Spells stack := by
  rcases consumeIf_cases s (· == kind) with ⟨token, consumed, next, real, accepted⟩ | missing
  · simp only [accept, lift, consumed] at h
    cases h
    rw [← eq_of_beq accepted]
    exact spells_next next real spells
  · simp only [accept, lift, missing] at h
    cases h
    exact spells

/-- A loop that is left has been entered where its rounds lead back to. -/
theorem iterate_back {step : β → Parser (ForInStep β)} {I Q : β → State → Prop}
    (again : ∀ v s₁ w s₂, step v s₁ = .ok (.yield w) s₂ → I w s₂ → I v s₁)
    (last : ∀ v s₁ w s₂, step v s₁ = .ok (.done w) s₂ → Q w s₂ → I v s₁)
    {rounds : Nat} {v w : β} (h : iterate step rounds v s = .ok w s') (finish : Q w s') : I v s := by
  induction rounds generalizing v s with
  | zero => cases h
  | succ rounds ih =>
    simp only [iterate] at h
    split at h
    · next round =>
      cases h
      exact last _ _ _ _ round finish
    · next round => exact again _ _ _ _ round (ih h)
    · cases h

/-! ### Names and types -/

theorem spells_name {found : String × Position} (h : name s = .ok found s')
    (spells : s'.Spells stack) : s.Spells (.name found.1 :: stack) := by
  obtain ⟨next, rfl⟩ := name_ok h
  exact spells_next next nofun spells

theorem spells_ident {found : String × Position} (h : ident s = .ok found s')
    (quiet : s'.errors = []) : found.1 ∉ s'.names.types ∧
      ∀ ⦃stack⦄, s'.Spells stack → s.Spells (.name found.1 :: stack) := by
  obtain ⟨read, s₁, nameRead, h⟩ := bind_ok h
  obtain ⟨rejected, s₂, checked, h⟩ := bind_ok h
  cases h
  obtain ⟨-, rfl⟩ := rejectTypeName_ok checked
  split at quiet
  · simp [State.record] at quiet
  · next unknown =>
    rw [if_neg unknown]
    exact ⟨unknown, fun stack spells => spells_name nameRead spells⟩

theorem spells_stars {depth : Nat} (h : stars s = .ok depth s') (spells : s'.Spells stack) :
    (depth = 0 → s.Spells stack) ∧ (0 < depth → s.Spells (.mark .star :: .phrase .stars :: stack)) := by
  -- A round that goes on has read one more star than were counted before it.
  let I (n : Nat) (s : State) : Prop := n ≤ depth ∧ (depth = n → s.Spells stack) ∧
    (n < depth → s.Spells (.mark .star :: .phrase .stars :: stack))
  let Q (n : Nat) (s : State) : Prop := n = depth ∧ s.Spells stack
  have start : I 0 s := by
    refine iterate_back (I := I) (Q := Q) ?_ ?_ h ⟨rfl, spells⟩
    · rintro n s₁ w s₂ round ⟨least, exactly, more⟩
      obtain ⟨found, s₃, accepted, round⟩ := bind_ok round
      split at round
      · next isStar =>
        cases round
        have rest : s₂.Spells (.phrase .stars :: stack) := by
          rcases Nat.eq_or_lt_of_le least with same | less
          · exact (exactly same.symm).produce .noStar
          · exact (more less).produce .star
        have star := spells_accept accepted rest
        rw [if_pos isStar] at star
        exact ⟨by omega, by omega, fun _ => star⟩
      · cases round
    · rintro n s₁ w s₂ round ⟨rfl, spells⟩
      obtain ⟨found, s₃, accepted, round⟩ := bind_ok round
      split at round
      · cases round
      · next other =>
        cases round
        have here := spells_accept accepted spells
        rw [if_neg other] at here
        exact ⟨Nat.le_refl n, fun _ => here, by omega⟩
  exact ⟨start.2.1, start.2.2⟩

theorem spells_typeName {type : DataType} (h : typeName s = .ok type s') :
    ∃ isVoid, (type.isVoid = false → isVoid = false) ∧
      ∀ ⦃stack⦄, s'.Spells stack → s.Spells (.phrase (.type isVoid) :: stack) := by
  obtain ⟨found, s₁, nameRead, h⟩ := bind_ok h
  obtain ⟨text, pos⟩ := found
  simp only [observe_bind] at h
  obtain ⟨base, s₂, recovered, h⟩ := bind_ok h
  obtain ⟨depth, s₃, starsRead, h⟩ := bind_ok h
  cases h
  rcases recover_ok recovered with ⟨type, resolved, rfl, rfl⟩ | ⟨diagnostic, _, rfl, rfl⟩
  · have known : (NameRule.knownType text).Permits s₂.names := by
      rw [NameRule.Permits, mem_types, TypeTable.contains]
      unfold TypeTable.resolve at resolved
      split at resolved
      · next type found => rw [found]; rfl
      · cases resolved
    by_cases isPointer : 0 < depth
    · refine ⟨false, fun _ => rfl, fun stack spells => ?_⟩
      have starred := (spells_stars starsRead spells).2 isPointer
      exact (spells_name nameRead (starred.rule known rfl)).produce (.pointer text)
    · have plain {stack : List Symbol} (spells : s'.Spells stack) : s₂.Spells stack :=
        (spells_stars starsRead spells).1 (by omega)
      by_cases named : text = "void"
      · subst named
        refine ⟨true, fun solid => ?_, fun stack spells => ?_⟩
        · cases resolved
          obtain rfl : depth = 0 := by omega
          cases solid
        · exact (spells_name nameRead ((plain spells).rule known rfl)).produce .void
      · refine ⟨false, fun _ => rfl, fun stack spells => ?_⟩
        exact (spells_name nameRead ((plain spells).rule known rfl)).produce (.plainType text named)
  · -- An unknown type has been reported, so nothing is spelled behind it.
    refine ⟨false, fun _ => rfl, fun stack spells => ?_⟩
    have stars := spells_stars starsRead spells
    rcases Nat.eq_zero_or_pos depth with none | some
    · exact absurd (stars.1 none) not_spells_record
    · exact absurd (stars.2 some) not_spells_record

theorem spells_declareVariable {name : String} {type : DataType} {pos : Position}
    {var : Option VarId} (h : declareVariable name type pos s = .ok var s')
    (spells : s'.Spells stack) : s.errors = [] ∧ type.isVoid = false ∧
      (name ∉ s.names.types → s.Spells (.rule (.newVariable name) :: stack)) := by
  have solid : type.isVoid = false := by
    rcases declare_ok (declareVariable_ok h) with ⟨_, _, _, _, rfl⟩ | ⟨_, _, _, rfl⟩
    · by_contra void
      rw [Bool.not_eq_false] at void
      have quiet := spells.quiet
      simp [void, State.record] at quiet
    · exact absurd spells not_spells_record
  have declared := declareVariable_ok h
  rw [if_neg (by simp [solid])] at declared
  rcases declare_ok declared with ⟨id, symbols, entered, rfl, rfl⟩ | ⟨_, _, _, rfl⟩
  · refine ⟨spells.quiet, solid, fun fresh => ⟨spells.quiet, .rule ⟨fresh, ?_⟩ ?_⟩⟩
    · rw [not_declared_iff]
      unfold Symbols.declareVariable at entered
      split at entered
      · cases entered
      · next free => exact Bool.not_eq_true _ ▸ free
    · rw [← names_declareVariable entered]
      exact spells.derives
  · exact absurd spells not_spells_record

theorem spells_declareFunction {name : String} {pos : Position} {func : Option FuncId}
    (h : declareFunction name pos s = .ok func s') (spells : s'.Spells stack) : s.errors = [] ∧
      (name ∉ s.names.types → s.Spells (.rule (.newFunction name) :: stack)) := by
  rcases declare_ok h with ⟨id, symbols, entered, rfl, rfl⟩ | ⟨_, _, _, rfl⟩
  · refine ⟨spells.quiet, fun fresh => ⟨spells.quiet, .rule ⟨fresh, ?_⟩ ?_⟩⟩
    · rw [not_declared_iff]
      unfold Symbols.declareFunction at entered
      split at entered
      · cases entered
      · next free => exact Bool.not_eq_true _ ▸ free
    · rw [← names_declareFunction entered]
      exact spells.derives
  · exact absurd spells not_spells_record

theorem lookupVariable_quiet {name : String} {pos : Position} {var : Option VarId}
    (h : lookupVariable name pos s = .ok var s') (spells : s'.Spells stack) :
    s' = s ∧ name ∈ s.names.vars := by
  obtain ⟨found, rfl⟩ := lookupVariable_ok h
  cases var with
  | none => exact absurd spells not_spells_record
  | some id => exact ⟨rfl, mem_vars.mpr (by rw [← found]; rfl)⟩

theorem lookupFunction_quiet {name : String} {pos : Position} {func : Option FuncId}
    (h : lookupFunction name pos s = .ok func s') (spells : s'.Spells stack) :
    s' = s ∧ name ∈ s.names.functions := by
  obtain ⟨found, rfl⟩ := lookupFunction_ok h
  cases func with
  | none => exact absurd spells not_spells_record
  | some id => exact ⟨rfl, mem_functions.mpr (by rw [← found]; rfl)⟩

/-! ### Expressions -/

theorem mem_operators_of_binaryOp? {kind : Token.Kind} {op : BinaryOp} (h : binaryOp? kind = some op) :
    ∃ m ∈ operators, kind = .mark m := by
  unfold binaryOp? at h
  split at h
  all_goals first | cases h; done | exact ⟨_, by simp [operators], rfl⟩

theorem mem_assignments_of_assignOp? {kind : Token.Kind} {op : AssignOp}
    (h : assignOp? kind = some op) : ∃ m ∈ assignments, kind = .mark m := by
  unfold assignOp? at h
  split at h
  all_goals first | cases h; done | exact ⟨_, by simp [assignments], rfl⟩

theorem mem_steps_of_direction? {kind : Token.Kind} {direction : Direction}
    (h : direction? kind = some direction) : ∃ m ∈ steps, kind = .mark m := by
  unfold direction? at h
  split at h
  all_goals first | cases h; done | exact ⟨_, by simp [steps], rfl⟩

theorem operatorOr_ok {find : Token.Kind → Option α} {refused : Mark} {construct : String}
    {found : Option α} (h : operatorOr find refused construct s = .ok found s') :
    found = find s.kind ∧ s' = if found.isSome then s.next.2 else s := by
  unfold operatorOr at h
  rw [peekKind_bind] at h
  cases isOp : find s.kind with
  | some op =>
    rw [isOp] at h
    cases h
    exact ⟨rfl, rfl⟩
  | none =>
    rw [isOp] at h
    dsimp only at h
    split at h
    · cases h
    · cases h
      exact ⟨rfl, rfl⟩

theorem spells_operator {find : Token.Kind → Option α} {refused : Mark} {construct : String}
    {marks : List Mark} {op : α} (listed : ∀ kind op, find kind = some op → ∃ m ∈ marks, kind = .mark m)
    (h : operatorOr find refused construct s = .ok (some op) s') (spells : s'.Spells stack) :
    ∃ m ∈ marks, s.Spells (.mark m :: stack) := by
  obtain ⟨isOp, rfl⟩ := operatorOr_ok h
  obtain ⟨m, member, next⟩ := listed s.kind op isOp.symm
  exact ⟨m, member, spells_next next nofun spells⟩

theorem readsOnly_operatorTail {primary : Parser Node} (operand : ReadsOnly primary .primary) :
    ReadsOnly (operatorTail primary) .operations := by
  intro s pairs s' h stack spells
  let I (_ : List (BinaryOp × Node)) (s : State) : Prop := s.Spells (.phrase .operations :: stack)
  let Q (_ : List (BinaryOp × Node)) (s : State) : Prop := s.Spells stack
  refine iterate_back (I := I) (Q := Q) ?_ ?_ h spells
  · intro _ s₁ _ s₂ round rest
    obtain ⟨found, s₃, opRead, round⟩ := bind_ok round
    split at round
    · next op =>
      obtain ⟨node, s₄, operandRead, round⟩ := bind_ok round
      cases round
      obtain ⟨m, member, spells⟩ := spells_operator (fun _ _ => mem_operators_of_binaryOp?) opRead
        (operand operandRead rest)
      exact spells.produce (.operation m member)
    · cases round
  · intro _ s₁ _ s₂ round spells
    obtain ⟨found, s₃, opRead, round⟩ := bind_ok round
    split at round
    · obtain ⟨node, s₄, operandRead, round⟩ := bind_ok round
      cases round
    · cases round
      obtain ⟨-, rfl⟩ := operatorOr_ok opRead
      have here : s₂.Spells stack := spells
      exact here.produce .noOperation

theorem readsOnly_expressionOf {primary : Parser Node} (operand : ReadsOnly primary .primary) :
    ReadsOnly (expressionOf primary) .expression := by
  intro s node s' h stack spells
  obtain ⟨first, s₁, firstRead, h⟩ := bind_ok h
  obtain ⟨rest, s₂, restRead, h⟩ := bind_ok h
  have built := (Numbers.buildTree _).spells h spells
  exact (operand firstRead (readsOnly_operatorTail operand restRead built)).produce .expression

section Expression

variable {expression primary : Parser Node}

theorem readsOnly_assignmentOf (inner : ReadsOnly expression .expression) (var : Option VarId) :
    ReadsOnly (assignmentOf expression var) .assignmentOption := by
  intro s node s' h stack spells
  obtain ⟨found, s₁, opRead, rest⟩ := bind_ok h
  split at rest
  · next op =>
    obtain ⟨value, s₂, valueRead, finish⟩ := bind_ok rest
    have value := inner valueRead ((Numbers.assignNode _ _ _).spells finish spells)
    obtain ⟨m, member, spells⟩ :=
      spells_operator (fun _ _ => mem_assignments_of_assignOp?) opRead value
    exact spells.produce (.assignment m member)
  · obtain ⟨-, rfl⟩ := operatorOr_ok opRead
    have here := (Numbers.accessNode var).spells rest spells
    exact here.produce .noAssignment

theorem readsOnly_declarationOf (inner : ReadsOnly expression .expression) :
    ReadsOnly (declarationOf expression) .declaration := by
  intro s node s' h stack spells
  obtain ⟨type, s₁, typeRead, h⟩ := bind_ok h
  obtain ⟨found, s₂, nameRead, h⟩ := bind_ok h
  obtain ⟨var, s₃, declared, h⟩ := bind_ok h
  have assigned := readsOnly_assignmentOf inner var h spells
  obtain ⟨quiet, solid, entered⟩ := spells_declareVariable declared assigned
  obtain ⟨fresh, named⟩ := spells_ident nameRead quiet
  obtain ⟨isVoid, notVoid, typed⟩ := spells_typeName typeRead
  have whole := typed (named (entered fresh))
  rw [notVoid solid] at whole
  exact whole.produce (.declaration found.1)

theorem spells_rejectTypeName {name : String} {pos : Position} {rejected : Bool}
    (h : rejectTypeName name pos s = .ok rejected s') (quiet : s'.errors = []) :
    rejected = false ∧ s' = s ∧ name ∉ s.names.types := by
  obtain ⟨rfl, rfl⟩ := rejectTypeName_ok h
  split at quiet
  · simp [State.record] at quiet
  · next unknown => exact ⟨Bool.not_eq_true _ ▸ unknown, if_neg unknown, unknown⟩

theorem readsOnly_nameOf (inner : ReadsOnly expression .expression) :
    ReadsOnly (nameOf expression) .primary := by
  intro s node s' h stack spells
  obtain ⟨⟨text, pos⟩, s₁, nameRead, h⟩ := bind_ok h
  obtain ⟨rejected, s₂, checked, h⟩ := bind_ok h
  split at h
  · -- A type name has been reported.
    next isType =>
    have quiet := ((Numbers.build _).spells h spells).quiet
    rw [(spells_rejectTypeName checked quiet).1] at isType
    cases isType
  · obtain ⟨kind, next, h⟩ := peekKind_ok h
    split at h
    · -- A call.
      rw [skip_bind] at h
      obtain ⟨_, s₃, closed, h⟩ := bind_ok h
      obtain ⟨func, s₄, looked, finish⟩ := bind_ok h
      have done : s₄.Spells stack := by
        split at finish
        · exact (Numbers.build _).spells finish spells
        · exact (Numbers.build _).spells finish spells
      obtain ⟨rfl, known⟩ := lookupFunction_quiet looked done
      have parens := spells_next next nofun (spells_expect closed done)
      obtain ⟨-, rfl, free⟩ := spells_rejectTypeName checked parens.quiet
      rw [(expect_quiet closed done.quiet).2, next_names, next_names] at known
      have permitted : (NameRule.knownFunction text).Permits s₂.names := ⟨free, known⟩
      exact (spells_name nameRead (parens.rule permitted rfl)).produce (.call text)
    · cases isStep : direction? kind with
      | some direction =>
        rw [isStep] at h
        obtain ⟨m, member, rfl⟩ := mem_steps_of_direction? isStep
        simp only [skip_bind] at h
        obtain ⟨var, s₃, looked, finish⟩ := bind_ok h
        have done := (Numbers.stepNode _ _ _).spells finish spells
        obtain ⟨rfl, known⟩ := lookupVariable_quiet looked done
        have step := spells_next next nofun done
        obtain ⟨-, rfl, free⟩ := spells_rejectTypeName checked step.quiet
        rw [next_names] at known
        have permitted : (NameRule.knownVariable text).Permits s₂.names := ⟨free, known⟩
        exact (spells_name nameRead (step.rule permitted rfl)).produce (.stepAfter m text member)
      | none =>
        rw [isStep] at h
        obtain ⟨var, s₃, looked, finish⟩ := bind_ok h
        have assigned := readsOnly_assignmentOf inner var finish spells
        obtain ⟨rfl, known⟩ := lookupVariable_quiet looked assigned
        obtain ⟨-, rfl, free⟩ := spells_rejectTypeName checked assigned.quiet
        have permitted : (NameRule.knownVariable text).Permits s₃.names := ⟨free, known⟩
        obtain ⟨form, production, derives⟩ := assigned.derives.of_phrase
        have rest : s₃.Spells (form ++ stack) := ⟨assigned.quiet, derives⟩
        have named := spells_name nameRead (rest.rule permitted rfl)
        cases production with
        | noAssignment => exact named.produce (.access text)
        | assignment m member => exact named.produce (.assigned m text member)

theorem spells_steppedVariable {var : Option VarId} (h : steppedVariable s = .ok var s')
    (spells : s'.Spells stack) : ∃ n, s.Spells (.name n :: .rule (.knownVariable n) :: stack) := by
  obtain ⟨⟨text, pos⟩, s₁, nameRead, h⟩ := bind_ok h
  obtain ⟨rejected, s₂, checked, finish⟩ := bind_ok h
  split at finish
  · next isType =>
    cases finish
    rw [(spells_rejectTypeName checked spells.quiet).1] at isType
    cases isType
  · obtain ⟨rfl, known⟩ := lookupVariable_quiet finish spells
    obtain ⟨-, rfl, free⟩ := spells_rejectTypeName checked spells.quiet
    have permitted : (NameRule.knownVariable text).Permits s'.names := ⟨free, known⟩
    exact ⟨text, spells_name nameRead (spells.rule permitted rfl)⟩

theorem spells_unaryOf (narrow : ReadsOnly primary .primary) {op : UnaryOp} {node : Node}
    {kind : Token.Kind} (h : unaryOf op primary s = .ok node s') (next : s.kind = kind)
    (real : kind ≠ .eof) (spells : s'.Spells stack) :
    s.Spells (.token kind :: .phrase .primary :: stack) := by
  unfold unaryOf at h
  rw [skip_bind] at h
  obtain ⟨operand, s₁, operandRead, finish⟩ := bind_ok h
  exact spells_next next real
    (narrow operandRead ((Numbers.build _).spells finish spells))

theorem readsOnly_primaryOf (wide : ReadsOnly expression .expression)
    (narrow : ReadsOnly primary .primary) : ReadsOnly (primaryOf expression primary) .primary := by
  intro s node s' h stack spells
  obtain ⟨kind, next, h⟩ := peekKind_ok h
  split at h
  · rw [skip_bind] at h
    obtain ⟨inner, s₁, innerRead, h⟩ := bind_ok h
    obtain ⟨_, s₂, closed, finish⟩ := bind_ok h
    cases finish
    have inside := wide innerRead (spells_expect closed spells)
    exact (spells_next next nofun inside).produce .parenthesized
  · exact (spells_unaryOf narrow h next nofun spells).produce .negation
  · exact (spells_unaryOf narrow h next nofun spells).produce .not
  · rw [skip_bind] at h
    obtain ⟨var, s₁, varRead, finish⟩ := bind_ok h
    have behind := (Numbers.stepNode _ _ _).spells finish spells
    obtain ⟨n, stepped⟩ := spells_steppedVariable varRead behind
    exact (spells_next next nofun stepped).produce (.stepBefore _ n (by simp [steps]))
  · rw [skip_bind] at h
    obtain ⟨var, s₁, varRead, finish⟩ := bind_ok h
    have behind := (Numbers.stepNode _ _ _).spells finish spells
    obtain ⟨n, stepped⟩ := spells_steppedVariable varRead behind
    exact (spells_next next nofun stepped).produce (.stepBefore _ n (by simp [steps]))
  · next text =>
    rw [skip_bind] at h
    have behind := (Numbers.build _).spells h spells
    exact (spells_next next nofun behind).produce (.integer text)
  · next text =>
    rw [skip_bind] at h
    have behind := (Numbers.build _).spells h spells
    exact (spells_next next nofun behind).produce (.float text)
  · rw [observe_bind] at h
    split at h
    · exact (readsOnly_declarationOf wide h spells).produce .declared
    · exact readsOnly_nameOf wide h spells
  · exact absurd h unexpected_ne_ok

end Expression

theorem readsOnly_primary (depth : Nat) : ReadsOnly (primary depth) .primary := by
  induction depth with
  | zero => exact fun s node s' h => nomatch h
  | succ depth ih => exact fun s node s' h => readsOnly_primaryOf (readsOnly_expressionOf ih) ih h

theorem readsOnly_expression : ReadsOnly expression .expression :=
  fun s _ _ h => readsOnly_expressionOf (readsOnly_primary (s.unread.length + 1)) h

/-! ### Statements -/

section Statement

variable {statement : Parser (Option Node)}

theorem not_spells_missingBrace {a : Unit} (h : missingBrace s = .ok a s') : ¬s'.Spells stack := by
  cases h
  exact not_spells_record

theorem spells_bracedBody (inner : ReadsOnly statement .statement) {body : List Node}
    (h : bracedBody statement s = .ok body s') (spells : s'.Spells stack) :
    s.Spells (.phrase .statements :: .mark .rcurly :: stack) := by
  let I (_ : List Node) (s : State) : Prop :=
    s.Spells (.phrase .statements :: .mark .rcurly :: stack)
  let Q (_ : List Node) (s : State) : Prop := s.Spells stack
  refine iterate_back (I := I) (Q := Q) ?_ ?_ h spells
  · intro _ s₁ _ s₂ round rest
    obtain ⟨kind, _, round⟩ := peekKind_ok round
    split at round
    · cases round
    · obtain ⟨_, s₃, _, finish⟩ := bind_ok round
      cases finish
    · obtain ⟨node, s₃, read, finish⟩ := bind_ok round
      cases finish
      exact (inner read rest).produce .statementFirst
  · intro _ s₁ _ s₂ round spells
    obtain ⟨kind, next, round⟩ := peekKind_ok round
    split at round
    · rw [skip_bind] at round
      cases round
      exact (spells_next next nofun spells).produce .noStatement
    · obtain ⟨_, s₃, missing, finish⟩ := bind_ok round
      cases finish
      exact absurd spells (not_spells_missingBrace missing)
    · obtain ⟨node, s₃, read, finish⟩ := bind_ok round
      cases finish

theorem readsOnly_blockOf (inner : ReadsOnly statement .statement) :
    ReadsOnly (blockOf statement) .block := by
  intro s node s' h stack spells
  obtain ⟨braced, s₁, accepted, h⟩ := bind_ok h
  split at h
  · next isBraced =>
    obtain ⟨body, s₂, bodyRead, finish⟩ := bind_ok h
    have inside := spells_bracedBody inner bodyRead
      ((Numbers.build _).spells finish spells)
    have opened := spells_accept accepted inside
    rw [if_pos isBraced] at opened
    exact opened.produce .braces
  · next other =>
    obtain ⟨found, s₂, read, finish⟩ := bind_ok h
    have behind : s₂.Spells stack := by
      split at finish
      · cases finish
        exact spells
      · exact (Numbers.build _).spells finish spells
    have here := spells_accept accepted (inner read behind)
    rw [if_neg other] at here
    exact here.produce .single

theorem spells_parenthesized {node : Node} (h : parenthesized s = .ok node s')
    (spells : s'.Spells stack) :
    s.Spells (.mark .lparen :: .phrase .expression :: .mark .rparen :: stack) := by
  obtain ⟨_, s₁, opened, h⟩ := bind_ok h
  obtain ⟨inner, s₂, innerRead, h⟩ := bind_ok h
  obtain ⟨_, s₃, closed, finish⟩ := bind_ok h
  cases finish
  exact spells_expect opened (readsOnly_expression innerRead (spells_expect closed spells))

theorem spells_ifOf (inner : ReadsOnly statement .statement) {node : Node}
    (h : ifOf statement s = .ok node s') (next : s.kind = .keyword .ifWord)
    (spells : s'.Spells stack) : s.Spells (.phrase .ifStatement :: stack) := by
  unfold ifOf at h
  rw [skip_bind] at h
  obtain ⟨cond, s₁, condRead, h⟩ := bind_ok h
  obtain ⟨thenPart, s₂, thenRead, h⟩ := bind_ok h
  obtain ⟨other, s₃, accepted, h⟩ := bind_ok h
  have choice : s₂.Spells (.phrase .elseOption :: stack) := by
    split at h
    · next isElse =>
      obtain ⟨elsePart, s₄, elseRead, finish⟩ := bind_ok h
      have inside := readsOnly_blockOf inner elseRead
        ((Numbers.build _).spells finish spells)
      have opened := spells_accept accepted inside
      rw [if_pos isElse] at opened
      exact opened.produce .elsePart
    · next isEnd =>
      have here := spells_accept accepted ((Numbers.build _).spells h spells)
      rw [if_neg isEnd] at here
      exact here.produce .noElse
  have inside := spells_parenthesized condRead (readsOnly_blockOf inner thenRead choice)
  exact (spells_next next nofun inside).produce .ifStatement

theorem spells_whileOf (inner : ReadsOnly statement .statement) {node : Node}
    (h : whileOf statement s = .ok node s') (next : s.kind = .keyword .whileWord)
    (spells : s'.Spells stack) : s.Spells (.phrase .whileStatement :: stack) := by
  unfold whileOf at h
  rw [skip_bind] at h
  obtain ⟨cond, s₁, condRead, h⟩ := bind_ok h
  obtain ⟨body, s₂, bodyRead, finish⟩ := bind_ok h
  have behind := readsOnly_blockOf inner bodyRead ((Numbers.build _).spells finish spells)
  exact (spells_next next nofun (spells_parenthesized condRead behind)).produce .whileStatement

theorem spells_doOf (inner : ReadsOnly statement .statement) {node : Node}
    (h : doOf statement s = .ok node s') (next : s.kind = .keyword .doWord)
    (spells : s'.Spells stack) : s.Spells (.phrase .doStatement :: stack) := by
  unfold doOf at h
  rw [skip_bind] at h
  obtain ⟨body, s₁, bodyRead, h⟩ := bind_ok h
  obtain ⟨_, s₂, wordRead, h⟩ := bind_ok h
  obtain ⟨cond, s₃, condRead, h⟩ := bind_ok h
  obtain ⟨_, s₄, ended, finish⟩ := bind_ok h
  have behind := spells_expect ended ((Numbers.build _).spells finish spells)
  have tested := spells_expectWord wordRead (spells_parenthesized condRead behind)
  exact (spells_next next nofun (readsOnly_blockOf inner bodyRead tested)).produce .doStatement

theorem readsOnly_caseBody (inner : ReadsOnly statement .statement) :
    ReadsOnly (caseBody statement) .statements := by
  intro s node s' h stack spells
  obtain ⟨body, s₁, looped, finish⟩ := bind_ok h
  let I (_ : List Node) (s : State) : Prop := s.Spells (.phrase .statements :: stack)
  let Q (_ : List Node) (s : State) : Prop := s.Spells stack
  refine iterate_back (I := I) (Q := Q) ?_ ?_ looped ((Numbers.build _).spells finish spells)
  · intro _ s₂ _ s₃ round rest
    rw [caseRound, observe_bind] at round
    split at round
    · cases round
    · obtain ⟨node, s₄, read, finish⟩ := bind_ok round
      cases finish
      exact (inner read rest).produce .statementFirst
  · intro _ s₂ _ s₃ round spells
    rw [caseRound, observe_bind] at round
    split at round
    · cases round
      have here : s₂.Spells stack := spells
      exact here.produce .noStatement
    · obtain ⟨node, s₄, read, finish⟩ := bind_ok round
      cases finish

theorem reportAfterDefault_quiet {cases : Cases} {a : Unit}
    (h : reportAfterDefault cases s = .ok a s') (quiet : s'.errors = []) :
    cases.fallback = none ∧ s' = s := by
  unfold reportAfterDefault at h
  split at h
  · rw [current_bind] at h
    cases h
    simp [State.record] at quiet
  · next none =>
    cases h
    exact ⟨by simpa using none, rfl⟩

theorem spells_switchRound_done {cases result : Cases}
    (h : switchRound statement cases s = .ok (.done result) s') (spells : s'.Spells stack) :
    s.Spells (remaining cases stack) := by
  obtain ⟨kind, next, h⟩ := peekKind_ok h
  split at h
  · obtain ⟨_, s₁, _, h⟩ := bind_ok h
    rw [skip_bind] at h
    obtain ⟨_, s₂, _, h⟩ := bind_ok h
    obtain ⟨_, s₃, _, h⟩ := bind_ok h
    obtain ⟨_, s₄, _, finish⟩ := bind_ok h
    cases finish
  · obtain ⟨_, s₁, _, h⟩ := bind_ok h
    rw [skip_bind] at h
    obtain ⟨_, s₂, _, h⟩ := bind_ok h
    obtain ⟨_, s₃, _, finish⟩ := bind_ok h
    cases finish
  · rw [skip_bind] at h
    cases h
    have closed := spells_next next nofun spells
    unfold remaining
    split
    · exact closed
    · exact (closed.produce .noDefault).produce .noCase
  · obtain ⟨_, s₁, missing, finish⟩ := bind_ok h
    cases finish
    exact absurd spells (not_spells_missingBrace missing)
  · obtain ⟨_, s₁, _, finish⟩ := bind_ok h
    cases finish

theorem spells_switchRound_yield (inner : ReadsOnly statement .statement) {cases result : Cases}
    (h : switchRound statement cases s = .ok (.yield result) s')
    (spells : s'.Spells (remaining result stack)) : s.Spells (remaining cases stack) := by
  obtain ⟨kind, next, h⟩ := peekKind_ok h
  split at h
  · obtain ⟨_, s₁, reported, h⟩ := bind_ok h
    rw [skip_bind] at h
    obtain ⟨value, s₂, valueRead, h⟩ := bind_ok h
    obtain ⟨_, s₃, colon, h⟩ := bind_ok h
    obtain ⟨body, s₄, bodyRead, finish⟩ := bind_ok h
    cases finish
    have behind := spells_expect colon (readsOnly_caseBody inner bodyRead spells)
    have inside := readsOnly_expression valueRead behind
    have quiet : s₁.errors = [] := (next_errors s₁).symm.trans inside.quiet
    obtain ⟨first, rfl⟩ := reportAfterDefault_quiet reported quiet
    have whole := spells_next next nofun inside
    simp only [remaining, first, Option.isSome_none, Bool.false_eq_true, ↓reduceIte] at whole ⊢
    exact whole.produce .caseFirst
  · obtain ⟨_, s₁, reported, h⟩ := bind_ok h
    rw [skip_bind] at h
    obtain ⟨_, s₂, colon, h⟩ := bind_ok h
    obtain ⟨body, s₃, bodyRead, finish⟩ := bind_ok h
    cases finish
    have inside := spells_expect colon (readsOnly_caseBody inner bodyRead spells)
    have quiet : s₁.errors = [] := (next_errors s₁).symm.trans inside.quiet
    obtain ⟨first, rfl⟩ := reportAfterDefault_quiet reported quiet
    have whole := spells_next next nofun inside
    simp only [remaining, first, Option.isSome_none, Option.isSome_some, Bool.false_eq_true,
      ↓reduceIte] at whole ⊢
    exact (whole.produce .defaultPart).produce .noCase
  · rw [skip_bind] at h
    cases h
  · obtain ⟨_, s₁, _, finish⟩ := bind_ok h
    cases finish
  · next notCase _ _ _ =>
    -- Whatever else stands here has been reported.
    obtain ⟨_, s₁, wordRead, finish⟩ := bind_ok h
    cases finish
    obtain ⟨rest, kinds, _⟩ := (spells_expectWord wordRead spells).derives.of_token
    exact absurd (next.symm.trans (kind_of_kinds kinds)) notCase

theorem spells_switchOf (inner : ReadsOnly statement .statement) {node : Node}
    (h : switchOf statement s = .ok node s') (next : s.kind = .keyword .switchWord)
    (spells : s'.Spells stack) : s.Spells (.phrase .switchStatement :: stack) := by
  unfold switchOf at h
  rw [skip_bind] at h
  obtain ⟨subject, s₁, subjectRead, h⟩ := bind_ok h
  obtain ⟨_, s₂, opened, h⟩ := bind_ok h
  obtain ⟨cases, s₃, looped, finish⟩ := bind_ok h
  let I (cases : Cases) (s : State) : Prop := s.Spells (remaining cases stack)
  let Q (_ : Cases) (s : State) : Prop := s.Spells stack
  have body : s₂.Spells (remaining {} stack) :=
    iterate_back (I := I) (Q := Q) (fun _ _ _ _ => spells_switchRound_yield inner)
      (fun _ _ _ _ => spells_switchRound_done) looped
      ((Numbers.build _).spells finish spells)
  have inside := spells_parenthesized subjectRead (spells_expect opened body)
  exact (spells_next next nofun inside).produce .switchStatement

theorem spells_putc {node : Node} (h : putc s = .ok node s')
    (next : s.kind = .keyword .putcWord) (spells : s'.Spells stack) :
    s.Spells (.phrase .putcStatement :: stack) := by
  unfold putc at h
  rw [skip_bind] at h
  obtain ⟨value, s₁, valueRead, h⟩ := bind_ok h
  obtain ⟨_, s₂, ended, finish⟩ := bind_ok h
  have behind := spells_expect ended ((Numbers.build _).spells finish spells)
  exact (spells_next next nofun (spells_parenthesized valueRead behind)).produce .putcStatement

theorem readsOnly_statementOf (inner : ReadsOnly statement .statement) :
    ReadsOnly (statementOf statement) .statement := by
  intro s node s' h stack spells
  obtain ⟨kind, next, h⟩ := peekKind_ok h
  split at h
  · rw [skip_bind] at h
    cases h
    exact (spells_next next nofun spells).produce .empty
  · obtain ⟨_, read, _⟩ := map_ok h
    exact (readsOnly_blockOf inner read spells).produce .block
  · obtain ⟨_, read, _⟩ := map_ok h
    exact (spells_ifOf inner read next spells).produce .ifForm
  · obtain ⟨_, read, _⟩ := map_ok h
    exact (spells_whileOf inner read next spells).produce .whileForm
  · obtain ⟨_, read, _⟩ := map_ok h
    exact (spells_doOf inner read next spells).produce .doForm
  · obtain ⟨_, read, _⟩ := map_ok h
    exact (spells_switchOf inner read next spells).produce .switchForm
  · obtain ⟨_, read, _⟩ := map_ok h
    exact (spells_putc read next spells).produce .putcForm
  · obtain ⟨value, s₁, valueRead, h⟩ := bind_ok h
    obtain ⟨_, s₂, ended, finish⟩ := bind_ok h
    cases finish
    exact (readsOnly_expression valueRead (spells_expect ended spells)).produce .value

end Statement

theorem readsOnly_statement (depth : Nat) : ReadsOnly (statement depth) .statement := by
  induction depth with
  | zero => exact fun s node s' h => nomatch h
  | succ depth ih => exact fun s node s' h => readsOnly_statementOf ih h

theorem readsOnly_block : ReadsOnly block .block :=
  fun s _ _ h => readsOnly_blockOf (readsOnly_statement (s.unread.length + 1)) h

/-! ### Definitions -/

theorem addField_quiet {fields added : List (String × DataType)} {name : String} {pos : Position}
    {type : DataType} (h : addField fields name pos type s = .ok added s') (quiet : s'.errors = []) :
    s' = s ∧ name ∉ fields.map Prod.fst ∧ added = fields ++ [(name, type)] := by
  unfold addField at h
  split at h
  · cases h
    simp [State.record] at quiet
  · next fresh =>
    cases h
    refine ⟨rfl, fun member => fresh ?_, rfl⟩
    obtain ⟨field, found, same⟩ := List.mem_map.mp member
    exact List.any_eq_true.mpr ⟨field, found, beq_iff_eq.mpr same⟩

theorem spells_structFields {fields : List (String × DataType)} (h : structFields s = .ok fields s')
    (spells : s'.Spells stack) : s.Spells (.phrase (.fields []) :: .mark .rcurly :: stack) := by
  -- The fields that a round starts with are those whose names have been seen.
  let I (fields : List (String × DataType)) (s : State) : Prop :=
    s.Spells (.phrase (.fields (fields.map Prod.fst)) :: .mark .rcurly :: stack)
  let Q (_ : List (String × DataType)) (s : State) : Prop := s.Spells stack
  refine iterate_back (I := I) (Q := Q) ?_ ?_ h spells
  · intro known s₁ more s₂ round rest
    obtain ⟨kind, _, round⟩ := peekKind_ok round
    split at round
    · cases round
    · obtain ⟨_, s₃, _, finish⟩ := bind_ok round
      cases finish
    · obtain ⟨type, s₃, typeRead, round⟩ := bind_ok round
      obtain ⟨⟨text, pos⟩, s₄, nameRead, round⟩ := bind_ok round
      obtain ⟨_, s₅, ended, round⟩ := bind_ok round
      obtain ⟨added, s₆, addedField, finish⟩ := bind_ok round
      cases finish
      have rest : s₂.Spells (.phrase (.fields (more.map Prod.fst)) :: .mark .rcurly :: stack) := rest
      obtain ⟨rfl, fresh, rfl⟩ := addField_quiet addedField rest.quiet
      rw [List.map_append] at rest
      have behind := spells_expect ended rest
      obtain ⟨free, named⟩ := spells_ident nameRead behind.quiet
      obtain ⟨isVoid, _, typed⟩ := spells_typeName typeRead
      have permitted : (NameRule.newField text).Permits s₄.names := free
      exact (typed (named (behind.rule permitted rfl))).produce (.field _ isVoid text fresh)
  · intro known s₁ more s₂ round spells
    obtain ⟨kind, next, round⟩ := peekKind_ok round
    split at round
    · rw [skip_bind] at round
      cases round
      exact (spells_next next nofun spells).produce (.noField _)
    · obtain ⟨_, s₃, missing, finish⟩ := bind_ok round
      cases finish
      exact absurd spells (not_spells_missingBrace missing)
    · obtain ⟨type, s₃, typeRead, round⟩ := bind_ok round
      obtain ⟨_, s₄, nameRead, round⟩ := bind_ok round
      obtain ⟨_, s₅, ended, round⟩ := bind_ok round
      obtain ⟨added, s₆, addedField, finish⟩ := bind_ok round
      cases finish

theorem spells_registerType {type : DataType} {name : String} {a : Unit}
    (h : registerType type s = .ok a s')
    (names : State.names { s with types := s.types.register type } = (NameRule.newType name).after s.names)
    (spells : s'.Spells stack) : s.Spells (.rule (.newType name) :: stack) := by
  cases h
  refine ⟨spells.quiet, .rule trivial ?_⟩
  rw [← names]
  exact spells.derives

theorem spells_structDefinition {a : Unit} (h : structDefinition s = .ok a s')
    (next : s.kind = .keyword .structWord) (spells : s'.Spells stack) :
    s.Spells (.phrase .structDefinition :: stack) := by
  unfold structDefinition at h
  rw [skip_bind] at h
  obtain ⟨⟨text, pos⟩, s₁, nameRead, h⟩ := bind_ok h
  obtain ⟨_, s₂, opened, h⟩ := bind_ok h
  obtain ⟨fields, s₃, fieldsRead, h⟩ := bind_ok h
  obtain ⟨ended, s₄, accepted, finish⟩ := bind_ok h
  have registered := spells_registerType finish (names_registerStruct s₄ text fields) spells
  have choice : s₃.Spells (.phrase .semicolonOption :: .rule (.newType text) :: stack) := by
    have here := spells_accept accepted registered
    split at here
    · exact here.produce .semicolon
    · exact here.produce .noSemicolon
  have inside := spells_name nameRead (spells_expect opened (spells_structFields fieldsRead choice))
  exact (spells_next next nofun inside).produce (.structDefinition text)

theorem spells_classDefinition {a : Unit} (h : classDefinition s = .ok a s')
    (next : s.kind = .keyword .classWord) (spells : s'.Spells stack) :
    s.Spells (.phrase .classDefinition :: stack) := by
  unfold classDefinition at h
  rw [skip_bind] at h
  obtain ⟨⟨text, pos⟩, s₁, nameRead, h⟩ := bind_ok h
  obtain ⟨_, s₂, ended, finish⟩ := bind_ok h
  have registered := spells_registerType finish (names_registerClass s₂ text) spells
  have inside := spells_name nameRead (spells_expect ended registered)
  exact (spells_next next nofun inside).produce (.classDefinition text)

theorem readsOnly_globalDefinition : ReadsOnly globalDefinition .global := by
  intro s a s' h stack spells
  obtain ⟨type, s₁, typeRead, h⟩ := bind_ok h
  obtain ⟨⟨text, pos⟩, s₂, nameRead, h⟩ := bind_ok h
  obtain ⟨isVoid, notVoid, typed⟩ := spells_typeName typeRead
  obtain ⟨kind, next, h⟩ := peekKind_ok h
  split at h
  · rw [skip_bind] at h
    obtain ⟨_, s₃, closed, h⟩ := bind_ok h
    obtain ⟨func, s₄, declared, h⟩ := bind_ok h
    obtain ⟨body, s₅, bodyRead, finish⟩ := bind_ok h
    have behind : s₅.Spells stack := by
      split at finish
      · cases finish
        exact spells.congr rfl rfl (names_defineFunction _ _ _).symm
      · cases finish
        exact spells
    obtain ⟨quiet, entered⟩ := spells_declareFunction declared (readsOnly_block bodyRead behind)
    obtain ⟨_, rfl⟩ := expect_quiet closed quiet
    rw [next_errors, next_errors] at quiet
    obtain ⟨fresh, named⟩ := spells_ident nameRead quiet
    rw [← next_names s₂, ← next_names s₂.next.2] at fresh
    have parens := spells_next next nofun (spells_expect closed (entered fresh))
    exact (typed (named parens)).produce (.globalFunction isVoid text)
  · rw [skip_bind] at h
    obtain ⟨var, s₃, declared, finish⟩ := bind_ok h
    cases finish
    obtain ⟨quiet, solid, entered⟩ := spells_declareVariable declared spells
    rw [next_errors] at quiet
    obtain ⟨fresh, named⟩ := spells_ident nameRead quiet
    have inside := typed (named (spells_next next nofun (entered ((next_names s₂).symm ▸ fresh))))
    rw [notVoid solid] at inside
    exact inside.produce (.globalVariable text)
  · exact absurd h unexpected_ne_ok

theorem spells_definitionRound {a b : Unit} (h : definitionRound a s = .ok (.yield b) s')
    (spells : s'.Spells (.phrase .definitions :: stack)) : s.Spells (.phrase .definitions :: stack) := by
  obtain ⟨kind, next, h⟩ := peekKind_ok h
  split at h
  · cases h
  · obtain ⟨_, s₁, read, finish⟩ := bind_ok h
    cases finish
    exact (spells_structDefinition read next spells).produce .structFirst
  · obtain ⟨_, s₁, read, finish⟩ := bind_ok h
    cases finish
    exact (spells_classDefinition read next spells).produce .classFirst
  · obtain ⟨_, s₁, read, finish⟩ := bind_ok h
    cases finish
    exact (readsOnly_globalDefinition read spells).produce .globalFirst
  · exact absurd h unexpected_ne_ok

theorem spells_definitions {a : Unit} (h : definitions s = .ok a s') (spells : s'.Spells stack) :
    s.Spells (.phrase .definitions :: stack) := by
  let I (_ : Unit) (s : State) : Prop := s.Spells (.phrase .definitions :: stack)
  let Q (_ : Unit) (s : State) : Prop := s.Spells stack
  refine iterate_back (I := I) (Q := Q) (fun _ _ _ _ => spells_definitionRound) ?_ h spells
  intro _ s₁ _ s₂ round spells
  obtain ⟨rfl, _⟩ := definitionRound_done round
  have here : s₂.Spells stack := spells
  exact here.produce .noDefinition

theorem kind_of_definitions {a : Unit} (h : definitions s = .ok a s') : s'.kind = .eof := by
  let Q (_ : Unit) (s : State) : Prop := s.kind = .eof
  refine repeatUntilDone_ok (I := fun _ _ => True) (Q := Q) (fun _ _ _ _ _ _ => trivial) ?_ trivial h
  intro _ s₁ _ s₂ _ round
  obtain ⟨rfl, ends⟩ := definitionRound_done round
  exact ends

end IonLang.Grammar
