import IonLang.Proofs.Grammar.Comparison

/-!
# What a parse leaves unread does not matter

Two parses of tokens that agree up to some token take the same steps until that token is consumed.
The end of the file is never consumed, so nothing behind it is read; and a parse that stops in front
of a token has seen nothing behind it, though a rule may look one token past a name.
-/

namespace IonLang

namespace Grammar

variable {s t : State} {token : Token} {rest others : List Token}

theorem unread_relation : DefinitionRelation fun s s' => s'.unread <:+ s.unread :=
  .of_reading (fun first second => second.trans first) next_unread (fun _ _ _ => List.suffix_refl _)
    fun _ _ unread _ => unread ▸ List.suffix_refl _

/-- Tokens that agree up to a token and may differ behind it. The parses come apart when the token
is consumed. -/
def Comparison.upTo (token : Token) (rest others : List Token) : Comparison where
  Match _ unread unread' :=
    ∃ front, unread = front ++ token :: rest ∧ unread' = front ++ token :: others
  Apart s := s.unread <:+ rest
  current := by
    rintro pos _ _ ⟨front, rfl, rfl⟩
    cases front <;> rfl
  next := by
    rintro pos next unread unread' ⟨front, here, there⟩ real
    cases front with
    | nil =>
      obtain ⟨rfl, rfl⟩ := List.cons.inj here
      exact .inr fun s same => same ▸ List.suffix_refl _
    | cons first front =>
      exact .inl ⟨front, (List.cons.inj here).2, (List.cons.inj there).2⟩
  Stays s s' := s'.unread <:+ s.unread
  steps := unread_relation
  apart stays := stays.trans

namespace Comparison

-- Neither list is empty, so a case ends before the same token in both.
theorem check_upTo (alike : (upTo token rest others).Alike s t) (accept : Token.Kind → Bool) :
    t.check accept = s.check accept := by
  obtain ⟨front, here, there⟩ := alike.unread
  unfold State.check
  rw [here, there]
  cases front <;> rfl

theorem switchRound_upTo {inner inner' : Parser (Option Node)}
    (tracks : (upTo token rest others).Tracks inner inner') (cases : Cases) :
    (upTo token rest others).Tracks (switchRound inner cases) (switchRound inner' cases) :=
  Tracks.switchRound (Tracks.caseBody tracks fun _ _ alike => check_upTo alike _) cases

theorem statement_upTo (depth depth' : Nat) :
    (upTo token rest others).Tracks (statement depth) (statement depth') :=
  Tracks.statement (fun _ _ tracks =>
    Tracks.switchOf (Tracks.repeatUntilDone (switchRound_upTo tracks) {})) depth depth'

theorem definitions_upTo : (upTo token rest others).Tracks definitions definitions :=
  Tracks.definitions statement_upTo

end Comparison

/-! ### The end of the file -/

-- The end of the file is not consumed, and so nothing behind it is.
theorem suffix_next (isEof : token.kind = .eof) (unread : token :: rest <:+ s.unread) :
    token :: rest <:+ s.next.2.unread := by
  by_cases atEnd : s.kind = .eof
  · rwa [next_of_eof atEnd]
  · obtain ⟨first, others, same, kind⟩ := unread_of_kind rfl atEnd
    rw [next_eq same (kind ▸ atEnd)]
    rw [same, List.suffix_cons_iff] at unread
    refine unread.resolve_left fun whole => atEnd ?_
    rw [← kind, ← (List.cons.inj whole).1, isEof]

theorem suffix_relation (isEof : token.kind = .eof) :
    DefinitionRelation fun s s' => token :: rest <:+ s.unread → token :: rest <:+ s'.unread :=
  .of_reading (fun first second => second ∘ first) (fun _ => suffix_next isEof) (fun _ _ _ => id)
    fun _ _ unread _ => by rw [unread]; exact id

/-! ### Whole parses -/

theorem unread_ofTokens (front rest : List Token) (plain : token.kind.isComment = false) :
    (State.ofTokens (front ++ token :: rest)).unread =
      (State.ofTokens front).unread ++ token :: (State.ofTokens rest).unread := by
  simp [State.ofTokens, plain]

-- The parse ends before the token is consumed.
theorem parse_upTo {front : List Token} (plain : token.kind.isComment = false)
    (stays : (State.ofTokens rest).unread.length <
      (finalState (definitions (State.ofTokens (front ++ token :: rest)))).unread.length)
    (others : List Token) :
    (State.ofTokens (front ++ token :: others)).parse =
      (State.ofTokens (front ++ token :: rest)).parse := by
  have alike : (Comparison.upTo token (State.ofTokens rest).unread (State.ofTokens others).unread).Alike
      (State.ofTokens (front ++ token :: rest)) (State.ofTokens (front ++ token :: others)) :=
    ⟨rfl, _, unread_ofTokens front rest plain, unread_ofTokens front others plain⟩
  rcases (Comparison.definitions_upTo.agree _ _ alike).parse with same | apart
  · exact same
  · exact absurd apart.length_le (Nat.not_le_of_lt stays)

/-- The parse of a list of tokens ends with a fatal diagnostic and leaves what is unread. -/
def StopsBefore (tokens unread : List Token) : Prop :=
  ∃ diagnostic s, definitions (State.ofTokens tokens) = .error (.fatal diagnostic) s ∧
    s.unread = unread

theorem StopsBefore.plain {tokens : List Token} (stops : StopsBefore tokens (token :: rest)) :
    token.kind.isComment = false := by
  obtain ⟨diagnostic, s, run, unread⟩ := stops
  have member : token ∈ (State.ofTokens tokens).unread :=
    (unread_relation.definitions.of_error run).subset (unread ▸ List.mem_cons_self)
  simpa [State.ofTokens] using (List.mem_filter.mp member).2

end Grammar

namespace Program

open Grammar

/-- Nothing behind the end of the file is read, and nothing behind the token at which a parse stops
with a fatal diagnostic. -/
theorem ofTokens_ignores_unread (front rest : List Token) (token : Token) :
    (token.kind = .eof → ofTokens (front ++ token :: rest) = ofTokens (front ++ [token])) ∧
    (StopsBefore (front ++ token :: rest) (token :: rest.filter fun token => !token.kind.isComment) →
      ∀ others, ofTokens (front ++ token :: others) = (none, (ofTokens (front ++ token :: rest)).2)) := by
  constructor
  · intro isEof
    have plain : token.kind.isComment = false := by rw [isEof]; rfl
    have kept := (suffix_relation isEof).definitions.final
      (State.ofTokens (front ++ token :: rest)) ⟨_, (unread_ofTokens front rest plain).symm⟩
    exact (parse_upTo plain kept.length_le []).symm
  · intro stops others
    have plain := stops.plain
    obtain ⟨diagnostic, s, run, unread⟩ := stops
    have stays : (State.ofTokens rest).unread.length <
        (finalState (definitions (State.ofTokens (front ++ token :: rest)))).unread.length := by
      rw [run]
      show _ < s.unread.length
      rw [unread]
      exact Nat.lt_succ_self _
    have none : (State.ofTokens (front ++ token :: rest)).parse.1 = none := by
      unfold State.parse
      rw [run]
    unfold ofTokens
    rw [parse_upTo plain stays others]
    exact Prod.ext none rfl

/-- The body `1 /` stops a parse whatever its divisor is, and `void f() 1;` is read alike whatever
follows the end of the file. -/
theorem ofTokens_ignores_unread_division :
    let place (kind : Token.Kind) : Token := ⟨kind, ⟨"f", 1, 1⟩⟩
    let front := [.ident "void", .ident "f", .mark .lparen, .mark .rparen, .integer "1"].map place
    let divisor := [place (.comment "two"), place (.integer "2"), place (.mark .semicolon)]
    StopsBefore (front ++ place (.mark .slash) :: divisor)
        (place (.mark .slash) :: divisor.filter fun token => !token.kind.isComment) ∧
      ofTokens (front ++ [place (.mark .slash)]) =
        (none, (ofTokens (front ++ place (.mark .slash) :: divisor)).2) ∧
      ofTokens ((front ++ [place (.mark .semicolon)]) ++ place .eof :: divisor) =
        ofTokens ((front ++ [place (.mark .semicolon)]) ++ [place .eof]) := by
  intro place front divisor
  have stops : StopsBefore (front ++ place (.mark .slash) :: divisor)
      (place (.mark .slash) :: divisor.filter fun token => !token.kind.isComment) :=
    ⟨_, _, rfl, rfl⟩
  exact ⟨stops, (ofTokens_ignores_unread front divisor (place (.mark .slash))).2 stops [],
    (ofTokens_ignores_unread _ divisor (place .eof)).1 rfl⟩

end Program

end IonLang
