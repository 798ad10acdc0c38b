import IonLang.Proofs.Grammar.Invariant
import IonLang.Proofs.Grammar.Soundness
import IonLang.Proofs.Grammar.Completeness

/-!
# A parse accepts exactly the programs of the grammar

A parse that reports nothing read its tokens as a leftmost derivation, and a derivation is read to
its end without a report. What is left to show here is that an accepted parse stops at the last
token: the end of the file is never consumed and stands nowhere else.
-/

namespace IonLang

namespace Grammar

/-- The unread tokens close with the only end of the file among them. -/
def State.Terminated (s : State) : Prop :=
  ∃ front eof, s.unread = front ++ [eof] ∧ eof.kind = .eof ∧ ∀ token ∈ front, token.kind ≠ .eof

theorem State.Terminated.next {s : State} (terminated : s.Terminated) : s.next.2.Terminated := by
  obtain ⟨front, eof, unread, isEof, real⟩ := terminated
  cases front with
  | nil =>
    have stays : s.next.2 = s := by
      simp only [State.next, unread, List.nil_append, if_pos isEof]
    rw [stays]
    exact ⟨[], eof, unread, isEof, real⟩
  | cons token front =>
    obtain ⟨first, rest⟩ := List.forall_mem_cons.mp real
    rw [next_eq unread first]
    exact ⟨front, eof, rfl, isEof, rest⟩

theorem State.Terminated.kinds {s : State} (terminated : s.Terminated) (ends : s.kind = .eof) :
    s.kinds = [.eof] := by
  obtain ⟨front, eof, unread, isEof, real⟩ := terminated
  cases front with
  | nil => rw [State.kinds, unread, List.nil_append, List.map_singleton, isEof]
  | cons token front =>
    rw [kind_eq unread] at ends
    exact absurd ends (real token List.mem_cons_self)

theorem terminated_relation : DefinitionRelation fun s s' => s.Terminated → s'.Terminated :=
  .of_reading (fun first second => second ∘ first) (fun _ => State.Terminated.next) (fun _ _ _ => id)
    fun s s' unread _ terminated => by
      unfold State.Terminated
      rwa [unread]

/-- A parse without a report is one that reads a program of the grammar. -/
theorem definitions_quiet_iff {s : State} (terminated : s.Terminated) (quiet : s.errors = [])
    (named : s.types.Named) :
    (∃ s', definitions s = .ok () s' ∧ s'.errors = []) ↔
      Derives [.phrase .program] s.names s.kinds := by
  constructor
  · rintro ⟨s', read, silent⟩
    have atEnd := (terminated_relation.definitions.of_ok read terminated).kinds
      (kind_of_definitions read)
    have ending : s'.Spells [.token .eof] := ⟨silent, atEnd ▸ .token .eof (.done _)⟩
    exact .phrase .program (spells_definitions read ending).derives
  · intro derives
    obtain ⟨form, production, derives⟩ := derives.of_phrase
    cases production
    obtain ⟨s', read, ending⟩ := definitions_run ⟨⟨quiet, derives⟩, named⟩
    exact ⟨s', read, ending.quiet⟩

end Grammar

namespace Program

open Grammar

theorem ofTokens_quiet_iff (tokens : List Token) :
    (∃ program, ofTokens tokens = (some program, [])) ↔
      ∃ s', definitions (State.ofTokens tokens) = .ok () s' ∧ s'.errors = [] := by
  unfold ofTokens State.parse
  constructor
  · rintro ⟨program, h⟩
    split at h
    · next s' read => exact ⟨s', read, congrArg Prod.snd h⟩
    · cases h
    · cases h
  · rintro ⟨s', read, quiet⟩
    rw [read]
    exact ⟨_, Prod.ext rfl quiet⟩

/-- A list of tokens that is closed by the end of the file is accepted without a report exactly if
the grammar derives it. -/
theorem ofTokens_accepts_iff (tokens : List Token) (eof : Token) (isEof : eof.kind = .eof)
    (plain : ∀ token ∈ tokens, token.kind ≠ .eof ∧ token.kind.isComment = false) :
    (∃ program, ofTokens (tokens ++ [eof]) = (some program, [])) ↔
      Derives [.phrase .program] Names.initial (tokens.map Token.kind ++ [.eof]) := by
  have unread : (State.ofTokens (tokens ++ [eof])).unread = tokens ++ [eof] := by
    refine List.filter_eq_self.mpr fun token member => ?_
    rcases List.mem_append.mp member with member | member
    · rw [(plain token member).2]
      rfl
    · rw [List.mem_singleton.mp member, isEof]
      rfl
  have terminated : (State.ofTokens (tokens ++ [eof])).Terminated :=
    ⟨tokens, eof, unread, isEof, fun token member => (plain token member).1⟩
  have kinds : (State.ofTokens (tokens ++ [eof])).kinds = tokens.map Token.kind ++ [.eof] := by
    rw [State.kinds, unread, List.map_append, List.map_singleton, isEof]
  rw [ofTokens_quiet_iff, definitions_quiet_iff terminated rfl .initial, names_ofTokens, kinds]

/-- `class P; P* g; void f() { if (g) if (g) ; else g = f(); switch (g) { default: g++; } }` is a
program, but not `struct P { P* x; }`: a struct is no type inside its own definition. -/
theorem ofTokens_accepts_iff_nested :
    let accepted : List Token.Kind :=
      [.keyword .classWord, .ident "P", .mark .semicolon,
        .ident "P", .mark .star, .ident "g", .mark .semicolon,
        .ident "void", .ident "f", .mark .lparen, .mark .rparen, .mark .lcurly,
        .keyword .ifWord, .mark .lparen, .ident "g", .mark .rparen,
        .keyword .ifWord, .mark .lparen, .ident "g", .mark .rparen, .mark .semicolon,
        .keyword .elseWord, .ident "g", .mark .equal, .ident "f", .mark .lparen, .mark .rparen,
        .mark .semicolon, .keyword .switchWord, .mark .lparen, .ident "g", .mark .rparen,
        .mark .lcurly, .keyword .defaultWord, .mark .colon, .ident "g", .mark .plusPlus,
        .mark .semicolon, .mark .rcurly, .mark .rcurly]
    let refused : List Token.Kind :=
      [.keyword .structWord, .ident "P", .mark .lcurly, .ident "P", .mark .star, .ident "x",
        .mark .semicolon, .mark .rcurly]
    Derives [.phrase .program] Names.initial (accepted ++ [.eof]) ∧
      ¬Derives [.phrase .program] Names.initial (refused ++ [.eof]) := by
  intro accepted refused
  let place (kind : Token.Kind) : Token := ⟨kind, ⟨"f", 1, 1⟩⟩
  constructor
  · refine (ofTokens_accepts_iff (accepted.map place) (place .eof) rfl (by decide)).mp ?_
    have parsed : (ofTokens (accepted.map place ++ [place .eof])).1.isSome = true := by
      decide +kernel
    have silent : (ofTokens (accepted.map place ++ [place .eof])).2 = [] := by
      decide +kernel
    obtain ⟨program, parsed⟩ := Option.isSome_iff_exists.mp parsed
    exact ⟨program, Prod.ext parsed silent⟩
  · intro derives
    obtain ⟨program, silent⟩ :=
      (ofTokens_accepts_iff (refused.map place) (place .eof) rfl (by decide)).mpr derives
    have reported : (ofTokens (refused.map place ++ [place .eof])).2 ≠ [] := by
      decide +kernel
    exact reported (congrArg Prod.snd silent)

end Program

end IonLang
