import IonLang.Proofs.Grammar.Locality

/-!
# Parses come to an end

A rule that returns has consumed a token, and so has every round of a loop after which the loop goes
on, whatever the tokens are. The unread tokens are therefore a measure: a loop takes no more rounds,
and a rule descends no deeper, than there are unread tokens and one. The bounds on rounds and depth
can be any numbers above that without a change of the result.
-/

namespace IonLang.Grammar

variable {α β : Type} {s : State}

def Consumed (s s' : State) : Prop := ∃ token rest, s.unread = token :: rest ∧ s'.unread <:+ rest

def Advances (p : Parser α) : Prop := ∀ s a s', p s = .ok a s' → Consumed s s'

/-- Whenever the loop goes on after a round, the round has consumed a token. -/
def AdvancesByRound (step : β → Parser (ForInStep β)) : Prop :=
  ∀ value s next s', step value s = .ok (.yield next) s' → Consumed s s'

/-- The rounds of a loop consume tokens, and the loop ends the same with any bound on its rounds that
exceeds the number of unread tokens. -/
structure LoopEnds (step : β → Parser (ForInStep β)) : Prop where
  advances : AdvancesByRound step
  bounded : ∀ value s rounds, s.unread.length < rounds →
    iterate step rounds value s = repeatUntilDone step value s

theorem Consumed.length_lt {s' : State} (consumed : Consumed s s') :
    s'.unread.length < s.unread.length := by
  obtain ⟨token, rest, unread, suffix⟩ := consumed
  have shorter := suffix.length_le
  rw [unread, List.length_cons]
  omega

theorem consumed_of_length {s' : State} (suffix : s'.unread <:+ s.unread)
    (shorter : s'.unread.length + 1 ≤ s.unread.length) : Consumed s s' := by
  cases unread : s.unread with
  | nil =>
    rw [unread, List.length_nil] at shorter
    omega
  | cons token rest =>
    rw [unread] at suffix shorter
    rcases List.suffix_cons_iff.mp suffix with whole | inside
    · rw [whole] at shorter
      omega
    · exact ⟨token, rest, unread, inside⟩

/-! ### Bounds on rounds -/

theorem iterate_eq_iterate {step : β → Parser (ForInStep β)} (advances : AdvancesByRound step)
    {rounds rounds' : Nat} (value : β) (s : State) (enough : s.unread.length < rounds)
    (enough' : s.unread.length < rounds') :
    iterate step rounds value s = iterate step rounds' value s := by
  induction rounds generalizing rounds' value s with
  | zero => omega
  | succ rounds ih =>
    cases rounds' with
    | zero => omega
    | succ rounds' =>
      dsimp only [iterate]
      cases round : step value s with
      | error stop s₁ => rfl
      | ok result s₁ =>
        cases result with
        | done last => rfl
        | yield next =>
          have shorter := (advances value s next s₁ round).length_lt
          exact ih next s₁ (by omega) (by omega)

theorem AdvancesByRound.loopEnds {step : β → Parser (ForInStep β)} (advances : AdvancesByRound step) :
    LoopEnds step :=
  ⟨advances, fun value s _ enough => iterate_eq_iterate advances value s enough (Nat.lt_succ_self _)⟩

/-! ### Bounds on depth -/

namespace Comparison

/-- The tokens are the same, so the parses differ in their bounds at most and never come apart. -/
def sameTokens : Comparison where
  Match _ unread others := others = unread
  Apart _ := False
  current := by rintro pos unread _ rfl; rfl
  next := by
    rintro pos token unread others alike _
    exact .inl (List.cons.inj alike).2
  Stays _ _ := True
  steps := .of_reading (fun _ _ => trivial) (fun _ => trivial) (fun _ _ _ => trivial)
    fun _ _ _ _ => trivial
  apart _ := id

theorem alike_self (s : State) : sameTokens.Alike s s := ⟨rfl, rfl⟩

theorem eq_of_alike {t : State} (alike : sameTokens.Alike s t) : t = s := by
  have unread : t.unread = s.unread := alike.unread
  rw [alike.same, unread]

theorem eq_of_agree {run run' : EStateM.Result Stop State α} (agree : sameTokens.Agree run run')
    (within : ∀ s, run ≠ .error .exhausted s) (within' : ∀ s, run' ≠ .error .exhausted s) :
    run' = run := by
  cases agree with
  | returned alike => rw [eq_of_alike alike]
  | stopped alike => rw [eq_of_alike alike]
  | exhausted => exact absurd rfl (within _)
  | exhausted' => exact absurd rfl (within' _)
  | apart never => exact never.elim

theorem check_sameTokens (s t : State) (alike : sameTokens.Alike s t) :
    t.check endsCase = s.check endsCase := by
  rw [eq_of_alike alike]

section

variable {inner inner' : Parser (Option Node)} (tracks : sameTokens.Tracks inner inner')

include tracks

theorem switchRound_sameTokens (cases : Cases) :
    sameTokens.Tracks (switchRound inner cases) (switchRound inner' cases) :=
  .switchRound (.caseBody tracks check_sameTokens) cases

theorem switchOf_sameTokens : sameTokens.Tracks (switchOf inner) (switchOf inner') :=
  .switchOf (.repeatUntilDone (switchRound_sameTokens tracks) {})

end

theorem statement_sameTokens (depth depth' : Nat) :
    sameTokens.Tracks (statement depth) (statement depth') :=
  .statement (fun _ _ => switchOf_sameTokens) depth depth'

end Comparison

open Comparison (sameTokens)

-- Where both bounds suffice they make no difference.
theorem eq_of_tracks {p q : Parser α} {length : Nat} {used : α → Nat}
    (tracks : sameTokens.Tracks p q) (ends : Ends length used (p s)) (ends' : Ends length used (q s)) :
    p s = q s := by
  have agree := tracks.agree s s (Comparison.alike_self s)
  exact (Comparison.eq_of_agree agree ends.ne_exhausted ends'.ne_exhausted).symm

-- A rule that returns within some bound returns the same within a bound that suffices.
theorem length_of_tracks {p q : Parser α} {length : Nat} {used : α → Nat} {a : α} {s' : State}
    (tracks : sameTokens.Tracks p q) (run : p s = .ok a s') (ends : Ends length used (q s)) :
    s'.unread.length + used a ≤ length := by
  have agree := tracks.agree s s (Comparison.alike_self s)
  rw [run] at agree
  have returned := Comparison.eq_of_agree agree (fun _ => by simp) ends.ne_exhausted
  rw [returned] at ends
  exact ends

/-! ### Rules and rounds -/

abbrev OnlyReads (p : Parser α) : Prop := Keeps (fun s s' => s'.unread <:+ s.unread) p

theorem advances_of_ends {p : Parser α} (ends : ∀ s, Ends s.unread.length (fun _ => 1) (p s))
    (reads : OnlyReads p) : Advances p := by
  intro s a s' run
  have shorter := ends s
  rw [run] at shorter
  exact consumed_of_length (reads.of_ok run) shorter

theorem advancesByRound_of_ends {step : β → Parser (ForInStep β)}
    (ends : ∀ value s, Ends s.unread.length Ends.ofRound (step value s))
    (reads : ∀ value, OnlyReads (step value)) : AdvancesByRound step := by
  intro value s next s' run
  have shorter := ends value s
  rw [run] at shorter
  exact consumed_of_length ((reads value).of_ok run) shorter

theorem advances_primary (depth : Nat) : Advances (primary depth) := by
  intro s a s' run
  have ended := Ends.primary (s.unread.length + 1) s (Nat.lt_succ_self _)
  have shorter := length_of_tracks (.primary depth _) run ended
  exact consumed_of_length ((unread_relation.primary depth).of_ok run) shorter

theorem advances_expressionOf (depth : Nat) : Advances (expressionOf (primary depth)) := by
  intro s a s' run
  have ended := Ends.expressionOf (Ends.primary (s.unread.length + 1)) s (Nat.lt_succ_self _)
  have shorter := length_of_tracks (.expressionOf (.primary depth _)) run ended
  have reads := unread_relation.expressionOf (unread_relation.primary depth)
  exact consumed_of_length (reads.of_ok run) shorter

/-- A rule over statements of any depth advances if it does so where the depth suffices. -/
theorem advances_over_statement {rule : Parser (Option Node) → Parser α}
    (tracks : ∀ {inner inner'}, sameTokens.Tracks inner inner' → sameTokens.Tracks (rule inner) (rule inner'))
    (ends : ∀ {limit inner s}, Consumes limit inner → s.unread.length < limit →
      Ends s.unread.length (fun _ => 1) (rule inner s))
    (reads : ∀ {inner}, OnlyReads inner → OnlyReads (rule inner)) (depth : Nat) :
    Advances (rule (statement depth)) := by
  intro s a s' run
  have ended := ends (Ends.statement (s.unread.length + 1)) (Nat.lt_succ_self s.unread.length)
  have shorter := length_of_tracks (tracks (Comparison.statement_sameTokens depth _)) run ended
  exact consumed_of_length ((reads (unread_relation.statement depth)).of_ok run) shorter

theorem advancesByRound_over_statement {round : Parser (Option Node) → β → Parser (ForInStep β)}
    (tracks : ∀ {inner inner'}, sameTokens.Tracks inner inner' → ∀ value,
      sameTokens.Tracks (round inner value) (round inner' value))
    (ends : ∀ {limit inner s}, Consumes limit inner → ∀ value, s.unread.length < limit →
      Ends s.unread.length Ends.ofRound (round inner value s))
    (reads : ∀ {inner}, OnlyReads inner → ∀ value, OnlyReads (round inner value)) (depth : Nat) :
    AdvancesByRound (round (statement depth)) := by
  intro value s next s' run
  have ended := ends (Ends.statement (s.unread.length + 1)) value (Nat.lt_succ_self s.unread.length)
  have shorter := length_of_tracks (tracks (Comparison.statement_sameTokens depth _) value) run ended
  exact consumed_of_length ((reads (unread_relation.statement depth) value).of_ok run) shorter

theorem blockOf_eq_block {depth : Nat} (enough : s.unread.length < depth) :
    blockOf (statement depth) s = block s :=
  eq_of_tracks (q := blockOf (statement (s.unread.length + 1)))
    (.blockOf (Comparison.statement_sameTokens _ _)) (Ends.blockOf (Ends.statement depth) s enough)
    (Ends.block s)

theorem expressionOf_eq_expression {depth : Nat} (enough : s.unread.length < depth) :
    expressionOf (primary depth) s = expression s :=
  eq_of_tracks (q := expressionOf (primary (s.unread.length + 1))) (.expressionOf (.primary _ _))
    (Ends.expressionOf (Ends.primary depth) s enough) (Ends.expression s)

/-- Each of the rules has consumed a token whenever it returns, and each of the loops whenever it goes
on, at any depth and in any state. So a parse of any tokens returns or stops with a fatal diagnostic:
no loop meets its bound on rounds and no rule its bound on depth, and bounds that exceed the number of
unread tokens could be any others. -/
theorem definitions_terminate (depth : Nat) :
    (Advances globalDefinition ∧ Advances structDefinition ∧ Advances classDefinition ∧
      Advances typeName ∧ Advances (blockOf (statement depth)) ∧ Advances (statement depth) ∧
      Advances (ifOf (statement depth)) ∧ Advances (whileOf (statement depth)) ∧
      Advances (doOf (statement depth)) ∧ Advances (switchOf (statement depth)) ∧ Advances putc ∧
      Advances (expressionOf (primary depth)) ∧ Advances (primary depth)) ∧
    (LoopEnds definitionRound ∧ LoopEnds fieldRound ∧ LoopEnds (statementRound (statement depth)) ∧
      LoopEnds (switchRound (statement depth)) ∧ LoopEnds (caseRound (statement depth))) ∧
    ∀ s : State,
      (s.unread.length < depth →
        blockOf (statement depth) s = block s ∧ expressionOf (primary depth) s = expression s ∧
          iterate definitionRound depth () s = definitions s) ∧
      ((∃ s', definitions s = .ok () s') ∨
        ∃ diagnostic s', definitions s = .error (.fatal diagnostic) s' ∧ diagnostic.isFatal = true) := by
  have definitionRounds : AdvancesByRound definitionRound :=
    advancesByRound_of_ends (fun _ s => Ends.definitionRound s) unread_relation.definitionRound
  refine ⟨⟨?_, ?_, ?_, ?_, ?_, ?_, ?_, ?_, ?_, ?_, ?_, ?_, ?_⟩, ⟨?_, ?_, ?_, ?_, ?_⟩, fun s => ⟨?_, ?_⟩⟩
  · exact advances_of_ends Ends.globalDefinition unread_relation.globalDefinition
  · exact advances_of_ends Ends.structDefinition unread_relation.structDefinition
  · exact advances_of_ends Ends.classDefinition unread_relation.classDefinition
  · exact advances_of_ends Ends.typeName unread_relation.typeName
  · exact advances_over_statement .blockOf (fun inner within => Ends.blockOf inner _ within)
      unread_relation.blockOf depth
  · exact advances_over_statement id (fun inner within => inner _ within) id depth
  · exact advances_over_statement .ifOf (fun inner within => Ends.ifOf inner (Nat.lt_succ_of_lt within))
      unread_relation.ifOf depth
  · exact advances_over_statement .whileOf
      (fun inner within => Ends.whileOf inner (Nat.lt_succ_of_lt within)) unread_relation.whileOf depth
  · exact advances_over_statement .doOf
      (fun inner within => Ends.doOf inner (Nat.lt_of_le_of_lt (length_next_le _) within))
      unread_relation.doOf depth
  · exact advances_over_statement Comparison.switchOf_sameTokens
      (fun inner within => Ends.switchOf inner (Nat.lt_succ_of_lt within)) unread_relation.switchOf depth
  · exact advances_of_ends Ends.putc unread_relation.putc
  · exact advances_expressionOf depth
  · exact advances_primary depth
  · exact definitionRounds.loopEnds
  · exact (advancesByRound_of_ends Ends.fieldRound unread_relation.fieldRound).loopEnds
  · exact (advancesByRound_over_statement (fun tracks => .statementRound tracks)
      (fun inner body within => Ends.statementRound inner body within)
      unread_relation.statementRound depth).loopEnds
  · exact (advancesByRound_over_statement Comparison.switchRound_sameTokens
      (fun inner cases within => Ends.switchRound inner cases within)
      unread_relation.switchRound depth).loopEnds
  · exact (advancesByRound_over_statement
      (fun tracks => .caseRound tracks Comparison.check_sameTokens)
      (fun inner body within => Ends.caseRound inner body within) unread_relation.caseRound depth).loopEnds
  · intro enough
    exact ⟨blockOf_eq_block enough, expressionOf_eq_expression enough,
      definitionRounds.loopEnds.bounded () s depth enough⟩
  · have ends := Ends.definitions s
    cases run : definitions s with
    | ok value s' => exact .inl ⟨s', rfl⟩
    | error stop s' =>
      rw [run] at ends
      obtain ⟨diagnostic, rfl, fatal⟩ := ends
      exact .inr ⟨diagnostic, s', rfl, fatal⟩

/-- The function `void f() { ;` with the end of the file before its closing brace: the definition
consumes six of eight tokens, the loop over definitions then stands at the end of the file, and nine
rounds or a hundred are all the same. -/
theorem definitions_terminate_unclosed :
    let place (kind : Token.Kind) : Token := ⟨kind, ⟨"f", 1, 1⟩⟩
    let s := State.ofTokens ([.ident "void", .ident "f", .mark .lparen, .mark .rparen, .mark .lcurly,
      .mark .semicolon, .eof, .mark .rcurly].map place)
    (∃ s', definitionRound () s = .ok (.yield ()) s' ∧ Consumed s s' ∧ s'.unread.length = 2) ∧
      s.unread.length < 9 ∧ iterate definitionRound 9 () s = definitions s ∧
      iterate definitionRound 100 () s = definitions s ∧ ∃ s', definitions s = .ok () s' := by
  intro place s
  have few : s.unread.length < 9 := by decide
  obtain ⟨-, ⟨rounds, -⟩, bounds⟩ := definitions_terminate 9
  obtain ⟨-, -, wide⟩ := definitions_terminate 100
  refine ⟨⟨_, rfl, rounds.advances () s () _ rfl, rfl⟩, few, ((bounds s).1 few).2.2,
    ((wide s).1 (by decide)).2.2, ?_⟩
  exact ⟨_, rfl⟩

end IonLang.Grammar
