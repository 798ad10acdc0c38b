import IonLang.Proofs.Code.Routine
import IonLang.Proofs.Grammar.Locality
import IonLang.Proofs.Grammar.Soundness

/-!
# Definitions that follow a program

A program that is read without a report is read in the same way when definitions follow it in place
of the end of the file. Up to its last token both parses take the same steps, by `Comparison.upTo`.
What is left are the rules that can end with that token: a closing brace or a semicolon is consumed
in both, and where a rule looks one token further, for an `else` or the semicolon of a struct, a
definition reads like the end of the file. `Seam.Carries` says so of one rule; the lemmas follow the
rules up to `Seam.Carries.definitionRound`. The definitions that follow only append to the symbols.
-/

namespace IonLang

namespace Grammar

variable {α β : Type} {s t : State}

abbrev Reports (p : Parser α) : Prop := Keeps (fun s s' => s.errors <+: s'.errors) p

def BeginsDefinition (kind : Token.Kind) : Prop :=
  kind = .keyword .structWord ∨ kind = .keyword .classWord ∨ ∃ name, kind = .ident name

/-- Where a program ends, and what follows it instead: tokens that begin a definition. -/
structure Seam where
  eof : Token
  isEof : eof.kind = .eof
  first : Token
  begins : BeginsDefinition first.kind
  others : List Token

variable {seam : Seam}

namespace Seam

/-- The second state has the tokens behind the seam in place of the end of the file. -/
def Before (seam : Seam) (s t : State) : Prop :=
  ∃ front, s.unread = front ++ [seam.eof] ∧
    t = { s with unread := front ++ seam.first :: seam.others }

/-- The run returns the value in a state that has more tokens, or it meets its bound. -/
inductive Reaches (seam : Seam) (a : α) (s : State) : EStateM.Result Stop State α → Prop where
  | returned {t : State} (before : seam.Before s t) : Reaches seam a s (.ok a t)
  | exhausted {t : State} : Reaches seam a s (.error .exhausted t)

/-- A run that returns without a report is repeated in the second state. -/
def CarriesFrom (seam : Seam) (s t : State) (p q : Parser α) : Prop :=
  ∀ a s₁, p s = .ok a s₁ → s₁.errors = [] → seam.Reaches a s₁ (q t)

structure Carries (seam : Seam) (p q : Parser α) : Prop where
  reports : Reports p
  carry : ∀ s t, seam.Before s t → seam.CarriesFrom s t p q

abbrev Tracks (seam : Seam) (p q : Parser α) : Prop :=
  ∀ token, (Comparison.upTo token [seam.eof] (seam.first :: seam.others)).Tracks p q

end Seam

/-! ### States on both sides of the seam -/

namespace Seam.Before

theorem cases (before : seam.Before s t) :
    s.unread = [seam.eof] ∧ t.unread = seam.first :: seam.others ∨
      ∃ token rest others, s.unread = token :: rest ∧ t.unread = token :: others := by
  obtain ⟨front, unread, rfl⟩ := before
  cases front with
  | nil => exact .inl ⟨unread, rfl⟩
  | cons token front => exact .inr ⟨token, _, _, unread, rfl⟩

theorem kind (before : seam.Before s t) (real : s.kind ≠ .eof) : t.kind = s.kind := by
  rcases before.cases with ⟨unread, _⟩ | ⟨token, rest, others, unread, unread'⟩
  · exact absurd ((kind_eq unread).trans seam.isEof) real
  · rw [kind_eq unread, kind_eq unread']

theorem kind_of_eof (before : seam.Before s t) (atEnd : s.kind = .eof) :
    t.kind = .eof ∨ BeginsDefinition t.kind := by
  rcases before.cases with ⟨_, unread'⟩ | ⟨token, rest, others, unread, unread'⟩
  · rw [kind_eq unread']
    exact .inr seam.begins
  · rw [kind_eq unread', ← kind_eq unread]
    exact .inl atEnd

theorem next (before : seam.Before s t) (real : s.kind ≠ .eof) :
    seam.Before s.next.2 t.next.2 := by
  obtain ⟨front, unread, rfl⟩ := before
  cases front with
  | nil => exact absurd ((kind_eq unread).trans seam.isEof) real
  | cons token front =>
    have kept : token.kind ≠ .eof := kind_eq unread ▸ real
    rw [next_eq unread kept, next_eq rfl kept]
    exact ⟨front, rfl, rfl⟩

theorem change (before : seam.Before s t) (f : State → State) (unread : ∀ s, (f s).unread = s.unread)
    (frame : ∀ s tokens, f { s with unread := tokens } = { f s with unread := tokens }) :
    seam.Before (f s) (f t) := by
  obtain ⟨front, same, rfl⟩ := before
  exact ⟨front, (unread s).trans same, frame s _⟩

end Seam.Before

/-! ### Sequences -/

/-- The rule reports something if it is at the end of the file, or stops there. -/
def Insists (p : Parser α) : Prop := ∀ s a s₁, p s = .ok a s₁ → s₁.errors = [] → s.kind ≠ .eof

theorem Insists.bind {p : Parser α} {f : α → Parser β} (first : Insists p)
    (reports : ∀ a, Reports (f a)) : Insists (p >>= f) := by
  intro s b s₂ read quiet
  obtain ⟨a, s₁, firstRead, restRead⟩ := bind_ok read
  exact first s a s₁ firstRead (List.prefix_nil.mp (quiet ▸ (reports a).of_ok restRead))

-- A rule that leaves a token behind has not looked past the seam.
theorem reaches_of_tracks {p q : Parser α} {a : α} {s₁ : State} (tracks : seam.Tracks p q)
    (before : seam.Before s t) (read : p s = .ok a s₁) (more : s₁.kind ≠ .eof) :
    seam.Reaches a s₁ (q t) := by
  have whole : ¬s₁.unread <:+ [seam.eof] := by
    intro short
    obtain ⟨token, rest, unread, kind⟩ := unread_of_kind rfl more
    rw [unread] at short
    have same := List.mem_singleton.mp (short.subset List.mem_cons_self)
    rw [← kind, same, seam.isEof] at more
    exact more rfl
  obtain ⟨front, unread, same⟩ := before
  rcases List.eq_nil_or_concat' front with rfl | ⟨front, token, rfl⟩
  · have shorter : s₁.unread <:+ s.unread := (tracks seam.eof).keeps.of_ok read
    rw [unread] at shorter
    exact absurd shorter whole
  · rw [List.append_assoc] at unread same
    have agree := (tracks token).agree s t ⟨by rw [same], front, unread, by rw [same]; rfl⟩
    rw [read] at agree
    generalize q t = run at agree ⊢
    cases agree with
    | @returned _ _ t₁ alike =>
      obtain ⟨front₁, unread₁, unread₂⟩ := alike.unread
      refine .returned ⟨front₁ ++ [token], ?_, ?_⟩
      · rw [unread₁, List.append_assoc]
        rfl
      · rw [alike.same, unread₂, List.append_assoc]
        rfl
    | exhausted' => exact .exhausted
    | apart apart => exact absurd apart whole

theorem Seam.Reaches.bind {q : Parser α} {g : α → Parser β} {a : α} {b : β} {s₁ s₂ : State}
    (reached : seam.Reaches a s₁ (q t))
    (rest : ∀ t₁, seam.Before s₁ t₁ → seam.Reaches b s₂ (g a t₁)) :
    seam.Reaches b s₂ ((q >>= g) t) := by
  simp only [Bind.bind, EStateM.bind]
  generalize q t = run at reached
  cases reached with
  | @returned t₁ before => exact rest t₁ before
  | exhausted => exact .exhausted

theorem Seam.CarriesFrom.bind {p q : Parser α} {f g : α → Parser β}
    (first : seam.CarriesFrom s t p q) (rest : ∀ a, seam.Carries (f a) (g a)) :
    seam.CarriesFrom s t (p >>= f) (q >>= g) := by
  intro b s₂ read quiet
  obtain ⟨a, s₁, firstRead, restRead⟩ := bind_ok read
  have calm : s₁.errors = [] := List.prefix_nil.mp (quiet ▸ (rest a).reports.of_ok restRead)
  exact (first a s₁ firstRead calm).bind fun t₁ before =>
    (rest a).carry s₁ t₁ before b s₂ restRead quiet

-- The kind is the same on both sides of the seam wherever there is a token.
theorem Seam.CarriesFrom.peekKind {f g : Token.Kind → Parser α} (before : seam.Before s t)
    (real : s.kind ≠ .eof) (rest : ∀ kind, s.kind = kind → seam.CarriesFrom s t (f kind) (g kind)) :
    seam.CarriesFrom s t (Grammar.peekKind >>= f) (Grammar.peekKind >>= g) := by
  intro a s₁ read quiet
  rw [peekKind_bind, before.kind real]
  exact rest s.kind rfl a s₁ read quiet

theorem Seam.CarriesFrom.skip (before : seam.Before s t) (real : s.kind ≠ .eof) :
    seam.CarriesFrom s t Grammar.skip Grammar.skip := by
  intro a s₁ read _
  cases read
  exact .returned (before.next real)

theorem Seam.CarriesFrom.map {p q : Parser α} (f : α → β) (inner : seam.CarriesFrom s t p q) :
    seam.CarriesFrom s t (f <$> p) (f <$> q) := by
  intro b s₁ read quiet
  obtain ⟨a, innerRead, rfl⟩ := map_ok read
  have reached := inner a s₁ innerRead quiet
  simp only [Functor.map, EStateM.map]
  generalize q t = run at reached
  cases reached with
  | returned before => exact .returned before
  | exhausted => exact .exhausted

namespace Seam.Carries

theorem pure (a : α) : seam.Carries (Pure.pure a : Parser α) (Pure.pure a) :=
  ⟨errors_relation.pure a, fun s t before b s₁ read _ => by cases read; exact .returned before⟩

theorem bind {p q : Parser α} {f g : α → Parser β} (first : seam.Carries p q)
    (rest : ∀ a, seam.Carries (f a) (g a)) : seam.Carries (p >>= f) (q >>= g) :=
  ⟨errors_relation.bind first.reports fun a => (rest a).reports,
    fun s t before => (first.carry s t before).bind rest⟩

-- A rule that is followed by one that insists on a token has not looked past the seam.
theorem insisting {p q : Parser α} {f g : α → Parser β} (tracks : seam.Tracks p q)
    (reports : Reports p) (rest : ∀ a, seam.Carries (f a) (g a)) (insists : ∀ a, Insists (f a)) :
    seam.Carries (p >>= f) (q >>= g) := by
  refine ⟨errors_relation.bind reports fun a => (rest a).reports,
    fun s t before b s₂ read quiet => ?_⟩
  obtain ⟨a, s₁, firstRead, restRead⟩ := bind_ok read
  have more := insists a s₁ b s₂ restRead quiet
  exact (reaches_of_tracks tracks before firstRead more).bind fun t₁ before =>
    (rest a).carry s₁ t₁ before b s₂ restRead quiet

theorem peekKind {f g : Token.Kind → Parser α} (reports : Reports (Grammar.peekKind >>= f))
    (insists : Insists (Grammar.peekKind >>= f))
    (rest : ∀ kind s t, seam.Before s t → s.kind = kind → s.kind ≠ .eof →
      seam.CarriesFrom s t (f kind) (g kind)) :
    seam.Carries (Grammar.peekKind >>= f) (Grammar.peekKind >>= g) := by
  refine ⟨reports, fun s t before a s₁ read quiet => ?_⟩
  have real := insists s a s₁ read quiet
  exact CarriesFrom.peekKind before real (fun kind next => rest kind s t before next real)
    a s₁ read quiet

theorem lift {step : State → α × State} (reports : ∀ s, s.errors <+: (step s).2.errors)
    (unread : ∀ s, (step s).2.unread = s.unread)
    (frame : ∀ s tokens, step { s with unread := tokens } =
      ((step s).1, { (step s).2 with unread := tokens })) :
    seam.Carries (Grammar.lift step) (Grammar.lift step) := by
  refine ⟨Keeps.lift reports, fun s t before a s₁ read _ => ?_⟩
  cases read
  obtain ⟨front, same, rfl⟩ := before
  unfold Grammar.lift
  rw [frame s (front ++ _)]
  exact .returned ⟨front, (unread s).trans same, rfl⟩

theorem build (node : Nat → Node) : seam.Carries (Grammar.build node) (Grammar.build node) :=
  lift (fun _ => List.prefix_refl _) (fun _ => rfl) fun _ _ => rfl

theorem registerType (type : DataType) :
    seam.Carries (Grammar.registerType type) (Grammar.registerType type) :=
  lift (fun _ => List.prefix_refl _) (fun _ => rfl) fun _ _ => rfl

theorem defineFunction (func : FuncId) (body : Node) :
    seam.Carries (Grammar.defineFunction func body) (Grammar.defineFunction func body) :=
  lift (fun _ => List.prefix_refl _) (fun _ => rfl) fun _ _ => rfl

theorem declare {declaration : Symbols → Except Diagnostic (α × Symbols)}
    (reports : Reports (Grammar.declare declaration)) :
    seam.Carries (Grammar.declare declaration) (Grammar.declare declaration) := by
  refine ⟨reports, fun s t before value s₁ read _ => ?_⟩
  have symbols : t.symbols = s.symbols := by
    obtain ⟨front, _, rfl⟩ := before
    rfl
  unfold Grammar.declare at read ⊢
  rw [symbols]
  split at read
  · next symbols _ =>
    cases read
    exact .returned (before.change (fun s => { s with symbols }) (fun _ => rfl) fun _ _ => rfl)
  · cases read
    exact .returned (before.change (·.record _) (fun _ => rfl) fun _ _ => rfl)

/-! ### Tokens -/

-- At the end of the first program neither parse accepts anything: no definition begins so.
theorem accept {kind : Token.Kind} (foreign : ¬BeginsDefinition kind) (real : kind ≠ .eof) :
    seam.Carries (Grammar.accept kind) (Grammar.accept kind) := by
  refine ⟨errors_relation.accept kind, fun s t before found s₁ read _ => ?_⟩
  by_cases next : s.kind = kind
  · rw [accept_of_kind next real] at read
    cases read
    rw [accept_of_kind (before.kind (next ▸ real) ▸ next) real]
    exact .returned (before.next (next ▸ real))
  · rw [accept_other next] at read
    cases read
    have other : t.kind ≠ kind := by
      rintro rfl
      by_cases atEnd : s.kind = .eof
      · rcases before.kind_of_eof atEnd with ends | begins
        · exact real ends
        · exact foreign begins
      · exact next (before.kind atEnd).symm
    rw [accept_other other]
    exact .returned before

end Seam.Carries

section

variable {p : Parser Unit} {kind : Token.Kind} (real : kind ≠ .eof)
  (quiet : ∀ {s a s₁}, p s = .ok a s₁ → s₁.errors = [] → s.kind = kind ∧ s₁ = s.next.2)

include real quiet

theorem insists_of_kind : Insists p := by
  intro s a s₁ read silent
  rw [(quiet read silent).1]
  exact real

-- What is consumed without a report stands in front of the seam.
theorem Seam.Carries.of_kind (reports : Reports p)
    (consumes : ∀ {s : State}, s.kind = kind → p s = .ok () s.next.2) : seam.Carries p p := by
  refine ⟨reports, fun s t before a s₁ read silent => ?_⟩
  obtain ⟨next, rfl⟩ := quiet read silent
  have token : s.kind ≠ .eof := next ▸ real
  rw [consumes ((before.kind token).trans next)]
  exact .returned (before.next token)

end

theorem insists_expect (mark : Mark) : Insists (expect mark) :=
  insists_of_kind (by simp) expect_quiet

theorem insists_ident (f : String × Position → Parser α) : Insists (ident >>= f) := by
  intro s a s₁ read _
  obtain ⟨found, s₂, identRead, _⟩ := bind_ok read
  obtain ⟨found, s₃, nameRead, _⟩ := bind_ok identRead
  rw [(name_ok nameRead).1]
  simp

theorem insists_expression : Insists expression := by
  intro s node s₁ read _ atEnd
  obtain ⟨first, s₂, read, _⟩ := bind_ok read
  unfold primary primaryOf at read
  rw [peekKind_bind, atEnd] at read
  exact unexpected_ne_ok read

namespace Seam.Carries

theorem expect (mark : Mark) : seam.Carries (Grammar.expect mark) (Grammar.expect mark) :=
  of_kind (by simp) expect_quiet (errors_relation.expect mark) expect_of_kind

theorem expectWord (keyword : Keyword) :
    seam.Carries (Grammar.expectWord keyword) (Grammar.expectWord keyword) :=
  of_kind (by simp) expectWord_quiet (errors_relation.expectWord keyword) expectWord_of_kind

end Seam.Carries

theorem insists_iterate {step : β → Parser (ForInStep β)} (insists : ∀ value, Insists (step value))
    (reports : ∀ value, Reports (step value)) (limit : Nat)
    (value : β) : Insists (iterate step limit value) := by
  cases limit with
  | zero => exact fun _ _ _ read => by cases read
  | succ limit =>
    rw [iterate_succ]
    refine (insists value).bind fun again => ?_
    cases again with
    | done value => exact errors_relation.pure value
    | yield value => exact errors_relation.iterate reports limit value

namespace Seam.Carries

/-! ### Loops up to a brace -/

section

variable {step step' : β → Parser (ForInStep β)}
  (tracks : ∀ value, seam.Tracks (step value) (step' value))
  (reports : ∀ value, Reports (step value))
  (insists : ∀ value, Insists (step value))
  (last : ∀ value s result s₁, step value s = .ok (.done result) s₁ → s₁.errors = [] →
    s.kind = .mark .rcurly)
  (closes : ∀ value s, s.kind = .mark .rcurly → step value s = .ok (.done value) s.next.2)
  (closes' : ∀ value s, s.kind = .mark .rcurly → step' value s = .ok (.done value) s.next.2)

include tracks reports insists last closes closes'

-- A round that is followed by another leaves a token behind, and the last one consumes a brace.
theorem iterate_braced (limit limit' : Nat) (value : β) (before : seam.Before s t) :
    seam.CarriesFrom s t (Grammar.iterate step limit value) (Grammar.iterate step' limit' value) := by
  induction limit generalizing limit' value s t with
  | zero => exact fun _ _ read => by cases read
  | succ limit ih =>
    cases limit' with
    | zero => exact fun _ _ _ _ => .exhausted
    | succ limit' =>
      intro result s₂ read quiet
      rw [iterate_succ] at read ⊢
      obtain ⟨again, s₁, round, read⟩ := bind_ok read
      cases again with
      | done final =>
        cases read
        have next := last value s result s₂ round quiet
        have real : s.kind ≠ .eof := by rw [next]; simp
        rw [closes value s next] at round
        cases round
        rw [bind_run (closes' value t ((before.kind real).trans next))]
        exact .returned (before.next real)
      | yield value' =>
        have more := insists_iterate insists reports limit value' s₁ result s₂ read quiet
        exact (reaches_of_tracks (tracks value) before round more).bind
          fun t₁ before => ih limit' value' before result s₂ read quiet

theorem braced (value : β) :
    seam.Carries (Grammar.repeatUntilDone step value) (Grammar.repeatUntilDone step' value) :=
  ⟨errors_relation.repeatUntilDone reports value, fun _ _ before =>
    iterate_braced tracks reports insists last closes closes' _ _ value before⟩

end

/-! ### Statements -/

theorem parenthesized : seam.Carries Grammar.parenthesized Grammar.parenthesized :=
  (expect _).bind fun _ => insisting (fun _ => .expression) errors_relation.expression
    (fun _ => (expect _).bind fun _ => pure _)
    fun _ => (insists_expect _).bind fun _ => errors_relation.pure _

end Seam.Carries

theorem missingBrace_loud {f : Unit → Parser α} {a : α} {s₁ : State} (reports : ∀ u, Reports (f u))
    (read : (missingBrace >>= f) s = .ok a s₁) : s₁.errors ≠ [] := by
  intro quiet
  have grown := (reports ()).of_ok (s := s.record (.missingCharacter '}' s.position)) read
  rw [quiet, List.prefix_nil] at grown
  simp [State.record] at grown

theorem insists_statementOf (inner : Parser (Option Node)) : Insists (statementOf inner) := by
  intro s node s₁ read quiet atEnd
  unfold statementOf at read
  rw [peekKind_bind, atEnd] at read
  have insists := insists_expression.bind fun value =>
    errors_relation.bind (errors_relation.expect .semicolon) fun _ =>
      errors_relation.pure (some value)
  exact insists s node s₁ read quiet atEnd

def bracedRound (item : β → Parser (ForInStep β)) (value : β) : Parser (ForInStep β) := do
  match ← peekKind with
  | .mark .rcurly =>
    skip
    pure (.done value)
  | .eof =>
    missingBrace
    pure (.done value)
  | _ => item value

namespace Seam.Carries

theorem bracedRounds {item item' : β → Parser (ForInStep β)}
    (tracks : ∀ value, seam.Tracks (item value) (item' value))
    (reports : ∀ value, Reports (item value))
    (again : ∀ value s last s₁, item value s ≠ .ok (.done last) s₁) (value : β) :
    seam.Carries (repeatUntilDone (bracedRound item) value)
      (repeatUntilDone (bracedRound item') value) := by
  have rel := errors_relation
  refine braced (fun value token => .bind .peekKind fun kind => ?_)
    (fun value => rel.bind rel.peekKind fun kind => ?_)
    (fun value s result s₁ read quiet atEnd => ?_) (fun value s result s₁ read quiet => ?_)
    (fun value s next => ?_) (fun value s next => ?_) value
  · split
    · exact .bind .skip fun _ => .pure _
    · exact .bind .missingBrace fun _ => .pure _
    · exact tracks value token
  · split
    · exact rel.bind rel.skip fun _ => rel.pure _
    · exact rel.bind rel.missingBrace fun _ => rel.pure _
    · exact reports value
  · rw [peekKind_bind, atEnd] at read
    exact missingBrace_loud (fun _ => rel.pure _) read quiet
  · obtain ⟨kind, next, read⟩ := peekKind_ok read
    split at read
    · exact next
    · exact absurd quiet (missingBrace_loud (fun _ => rel.pure _) read)
    · exact absurd read (again _ _ _ _)
  · rw [peekKind_bind, next]
    rfl
  · rw [peekKind_bind, next]
    rfl

section

variable {inner inner' : Parser (Option Node)} (tracks : seam.Tracks inner inner')
  (carries : seam.Carries inner inner')

include tracks carries

theorem bracedBody : seam.Carries (Grammar.bracedBody inner) (Grammar.bracedBody inner') := by
  refine bracedRounds (fun body token => .bind (tracks token) fun _ => .pure _)
    (fun body => errors_relation.bind carries.reports fun _ => errors_relation.pure _) ?_ []
  intro body s last s₁ read
  obtain ⟨_, _, _, read⟩ := bind_ok read
  cases read

theorem blockOf : seam.Carries (Grammar.blockOf inner) (Grammar.blockOf inner') := by
  refine (accept (by simp [BeginsDefinition]) (by simp)).bind fun found => ?_
  split
  · exact (bracedBody tracks carries).bind fun _ => build _
  · refine carries.bind fun node => ?_
    split
    · exact pure _
    · exact build _

-- Each of these rules begins with its own keyword, so there is a token to skip.
theorem ifOf (before : seam.Before s t) (real : s.kind ≠ .eof) :
    seam.CarriesFrom s t (Grammar.ifOf inner) (Grammar.ifOf inner') := by
  refine (CarriesFrom.skip before real).bind fun _ => parenthesized.bind fun _ =>
    (blockOf tracks carries).bind fun _ =>
      (accept (by simp [BeginsDefinition]) (by simp)).bind fun other => ?_
  split
  · exact (blockOf tracks carries).bind fun _ => build _
  · exact build _

theorem whileOf (before : seam.Before s t) (real : s.kind ≠ .eof) :
    seam.CarriesFrom s t (Grammar.whileOf inner) (Grammar.whileOf inner') :=
  (CarriesFrom.skip before real).bind fun _ => parenthesized.bind fun _ =>
    (blockOf tracks carries).bind fun _ => build _

theorem doOf (before : seam.Before s t) (real : s.kind ≠ .eof) :
    seam.CarriesFrom s t (Grammar.doOf inner) (Grammar.doOf inner') :=
  (CarriesFrom.skip before real).bind fun _ => (blockOf tracks carries).bind fun _ =>
    (expectWord _).bind fun _ => parenthesized.bind fun _ => (expect _).bind fun _ => build _

theorem switchRounds (cases : Cases) :
    seam.Carries (repeatUntilDone (switchRound inner) cases)
      (repeatUntilDone (switchRound inner') cases) := by
  have rel := errors_relation
  refine braced (fun cases token => Comparison.switchRound_upTo (tracks token) cases)
    (rel.switchRound carries.reports) (fun cases s result s₁ read quiet atEnd => ?_)
    (fun cases s result s₁ read quiet => ?_) (fun cases s next => ?_) (fun cases s next => ?_) cases
  · unfold switchRound at read
    rw [peekKind_bind, atEnd] at read
    exact missingBrace_loud (fun _ => rel.pure _) read quiet
  · obtain ⟨kind, next, read⟩ := peekKind_ok read
    split at read
    · iterate 5 obtain ⟨_, _, _, read⟩ := bind_ok read
      cases read
    · iterate 4 obtain ⟨_, _, _, read⟩ := bind_ok read
      cases read
    · exact next
    · exact absurd quiet (missingBrace_loud (fun _ => rel.pure _) read)
    · obtain ⟨_, _, _, read⟩ := bind_ok read
      cases read
  · unfold switchRound
    rw [peekKind_bind, next]
    rfl
  · unfold switchRound
    rw [peekKind_bind, next]
    rfl

theorem switchOf (before : seam.Before s t) (real : s.kind ≠ .eof) :
    seam.CarriesFrom s t (Grammar.switchOf inner) (Grammar.switchOf inner') :=
  (CarriesFrom.skip before real).bind fun _ => parenthesized.bind fun _ => (expect _).bind fun _ =>
    (switchRounds tracks carries {}).bind fun _ => build _

end

theorem putc (before : seam.Before s t) (real : s.kind ≠ .eof) :
    seam.CarriesFrom s t Grammar.putc Grammar.putc :=
  (CarriesFrom.skip before real).bind fun _ => parenthesized.bind fun _ => (expect _).bind fun _ =>
    build _

theorem expressionStatement :
    seam.Carries
      (Grammar.expression >>= fun value => Grammar.expect .semicolon >>= fun _ => Pure.pure (some value))
      (Grammar.expression >>= fun value => Grammar.expect .semicolon >>= fun _ => Pure.pure (some value)) :=
  insisting (fun _ => .expression) errors_relation.expression
    (fun _ => (expect _).bind fun _ => pure _)
    fun _ => (insists_expect _).bind fun _ => errors_relation.pure _

theorem statementOf {inner inner' : Parser (Option Node)} (tracks : seam.Tracks inner inner')
    (carries : seam.Carries inner inner') :
    seam.Carries (Grammar.statementOf inner) (Grammar.statementOf inner') := by
  refine peekKind (errors_relation.statementOf carries.reports) (insists_statementOf inner)
    fun kind s t before next real => ?_
  split
  · exact (CarriesFrom.skip before real).bind fun _ => pure _
  · exact ((blockOf tracks carries).carry s t before).map _
  · exact (ifOf tracks carries before real).map _
  · exact (whileOf tracks carries before real).map _
  · exact (doOf tracks carries before real).map _
  · exact (switchOf tracks carries before real).map _
  · exact (putc before real).map _
  · exact expressionStatement.carry s t before

theorem statement (depth depth' : Nat) :
    seam.Carries (Grammar.statement depth) (Grammar.statement depth') := by
  induction depth generalizing depth' with
  | zero => exact ⟨errors_relation.throw _, fun _ _ _ _ _ read => by cases read⟩
  | succ depth ih =>
    cases depth' with
    | zero => exact ⟨errors_relation.statement _, fun _ _ _ _ _ _ _ => .exhausted⟩
    | succ depth' => exact statementOf (fun _ => Comparison.statement_upTo depth depth') (ih depth')

theorem block : seam.Carries Grammar.block Grammar.block :=
  ⟨errors_relation.block, fun s t before =>
    (blockOf (fun _ => Comparison.statement_upTo _ _) (statement _ _)).carry s t before⟩

/-! ### Definitions -/

theorem structFields : seam.Carries Grammar.structFields Grammar.structFields := by
  have rel := errors_relation
  refine bracedRounds (fun fields token => ?_) (fun fields => ?_) (fun fields s last s₁ read => ?_) []
  · exact .bind .typeName fun _ => .bind .ident fun _ => .bind (.expect _) fun _ =>
      .bind (.addField _ _ _ _) fun _ => .pure _
  · exact rel.bind rel.typeName fun _ => rel.bind rel.ident fun _ => rel.bind (rel.expect _) fun _ =>
      rel.bind (rel.addField _ _ _ _) fun _ => rel.pure _
  · iterate 4 obtain ⟨_, _, _, read⟩ := bind_ok read
    cases read

theorem structDefinition (before : seam.Before s t) (real : s.kind ≠ .eof) :
    seam.CarriesFrom s t Grammar.structDefinition Grammar.structDefinition := by
  have rel := errors_relation
  refine (CarriesFrom.skip before real).bind fun _ => ?_
  refine insisting (fun _ => .name) rel.name (fun found => ?_) fun found => ?_
  · exact (expect _).bind fun _ => structFields.bind fun _ =>
      (accept (by simp [BeginsDefinition]) (by simp)).bind fun _ => registerType _
  · exact (insists_expect _).bind fun _ => rel.bind rel.structFields fun _ =>
      rel.bind (rel.accept _) fun _ => Keeps.lift fun s => rel.enterType s _

theorem classDefinition (before : seam.Before s t) (real : s.kind ≠ .eof) :
    seam.CarriesFrom s t Grammar.classDefinition Grammar.classDefinition := by
  have rel := errors_relation
  refine (CarriesFrom.skip before real).bind fun _ => ?_
  refine insisting (fun _ => .name) rel.name (fun found => ?_) fun found => ?_
  · exact (expect _).bind fun _ => registerType _
  · exact (insists_expect _).bind fun _ => Keeps.lift fun s => rel.enterType s _

theorem declareVariable (name : String) (type : DataType) (pos : Position) :
    seam.Carries (Grammar.declareVariable name type pos) (Grammar.declareVariable name type pos) := by
  have enters : seam.Carries (Grammar.declare fun symbols => symbols.declareVariable name type pos) _ :=
    declare (errors_relation.enterVariable name type pos)
  unfold Grammar.declareVariable
  dsimp only
  split
  · exact (lift (fun _ => List.prefix_append _ _) (fun _ => rfl) fun _ _ => rfl).bind fun _ => enters
  · exact enters

theorem globalDefinition : seam.Carries Grammar.globalDefinition Grammar.globalDefinition := by
  have rel := errors_relation
  refine insisting (fun _ => .typeName) rel.typeName (fun type => ?_) fun _ => insists_ident _
  refine insisting (fun _ => .ident) rel.ident (fun found => ?_) fun found s a s₁ read _ atEnd => ?_
  · refine peekKind ?_ (fun s a s₁ read _ atEnd => ?_) fun kind s t before next real => ?_
    · refine rel.bind rel.peekKind fun kind => ?_
      split
      · refine rel.bind rel.skip fun _ => rel.bind (rel.expect _) fun _ =>
          rel.bind (rel.declareFunction _ _) fun func => rel.bind rel.block fun body => ?_
        split
        · exact Keeps.lift fun s => rel.define s _ body
        · exact rel.pure _
      · exact rel.bind rel.skip fun _ => rel.bind (rel.declareVariable _ _ _) fun _ => rel.pure _
      · exact rel.unexpected _
    · rw [peekKind_bind, atEnd] at read
      exact unexpected_ne_ok read
    · split
      · refine (CarriesFrom.skip before real).bind fun _ => (expect _).bind fun _ =>
          (declare (rel.declareFunction _ _)).bind fun func => block.bind fun body => ?_
        split
        · exact defineFunction _ _
        · exact pure _
      · exact (CarriesFrom.skip before real).bind fun _ => (declareVariable _ _ _).bind fun _ => pure _
      · exact fun _ _ read => absurd read unexpected_ne_ok
  · obtain ⟨name, pos⟩ := found
    dsimp only at read
    rw [peekKind_bind, atEnd] at read
    exact unexpected_ne_ok read

theorem definitionRound (before : seam.Before s t) (real : s.kind ≠ .eof) :
    seam.CarriesFrom s t (Grammar.definitionRound ()) (Grammar.definitionRound ()) := by
  refine CarriesFrom.peekKind before real fun kind next => ?_
  split
  · exact absurd next real
  · exact (structDefinition before real).bind fun _ => pure _
  · exact (classDefinition before real).bind fun _ => pure _
  · exact (globalDefinition.carry s t before).bind fun _ => pure _
  · exact fun _ _ read => absurd read unexpected_ne_ok

end Seam.Carries

/-! ### Whole parses -/

theorem definitionRound_yield {s₁ : State} (round : definitionRound () s = .ok (.yield ()) s₁) :
    s.kind ≠ .eof := by
  intro atEnd
  unfold definitionRound at round
  rw [peekKind_bind, atEnd] at round
  cases round

-- The second parse comes to a state with the symbols of the first program, and goes on.
theorem reaches_end {limit limit' : Nat} {s₁ t₁ : State} (before : seam.Before s t)
    (read : iterate definitionRound limit () s = .ok () s₁) (quiet : s₁.errors = [])
    (read' : iterate definitionRound limit' () t = .ok () t₁) :
    ∃ rounds t₀, t₀.symbols = s₁.symbols ∧ iterate definitionRound rounds () t₀ = .ok () t₁ := by
  induction limit generalizing limit' s t with
  | zero => cases read
  | succ limit ih =>
    rw [iterate_succ] at read
    obtain ⟨again, s₂, round, rest⟩ := bind_ok read
    cases again with
    | done value =>
      cases rest
      obtain ⟨rfl, _⟩ := definitionRound_done round
      refine ⟨limit', t, ?_, read'⟩
      obtain ⟨front, _, rfl⟩ := before
      rfl
    | yield value =>
      have calm : s₂.errors = [] := List.prefix_nil.mp
        (quiet ▸ (errors_relation.iterate errors_relation.definitionRound limit ()).of_ok rest)
      have reached := Seam.Carries.definitionRound before (definitionRound_yield round) _ _ round calm
      cases limit' with
      | zero => cases read'
      | succ limit' =>
        rw [iterate_succ] at read'
        obtain ⟨again, t₂, round', rest'⟩ := bind_ok read'
        rw [round'] at reached
        cases reached with
        | returned before => exact ih before rest rest'

theorem prefix_invariant (functions : List Function) (vars : List Variable) :
    DefinitionInvariant fun s => functions <+: s.symbols.functions ∧ vars <+: s.symbols.vars where
  steps :=
    { refl := fun _ => id
      trans := fun first second => second ∘ first
      next := fun s known => by rwa [(next_frame s).2.2.1]
      report := fun _ _ _ => id
      number := fun _ => id
      enter := fun s _ _ _ _ _ declared known => by
        obtain ⟨_, _, rfl⟩ := declareVariable_eq_ok declared
        exact ⟨known.1, known.2.trans (List.prefix_append _ _)⟩
      enterType := fun _ _ => id }
  function := by
    intro s s' name pos func symbols body known declared read
    obtain ⟨_, rfl, rfl⟩ := declareFunction_eq_ok declared
    have grown := grows.block.of_ok read
    have functions : s'.symbols.functions =
        s.symbols.functions ++ [⟨⟨s.symbols.functions.length⟩, name, none⟩] := grown.functions
    have defined := Symbols.defineFunction_last functions rfl body
    dsimp only at defined
    rw [defined]
    exact ⟨known.1.trans (List.prefix_append _ _), known.2.trans grown.vars⟩

theorem before_ofTokens (tokens : List Token) {rest : List Token}
    (unread : (State.ofTokens rest).unread = seam.first :: seam.others) :
    seam.Before (State.ofTokens (tokens ++ [seam.eof])) (State.ofTokens (tokens ++ rest)) := by
  have plain : seam.eof.kind.isComment = false := by rw [seam.isEof]; rfl
  refine ⟨(State.ofTokens tokens).unread, unread_ofTokens tokens [] plain, ?_⟩
  rw [← unread]
  simp [State.ofTokens]

end Grammar

namespace Program

open Grammar

theorem symbols_extended (seam : Seam) {tokens rest : List Token} {program extended : Program}
    {errors : List Diagnostic} (unread : (State.ofTokens rest).unread = seam.first :: seam.others)
    (parsed : ofTokens (tokens ++ [seam.eof]) = (some program, []))
    (parsed' : ofTokens (tokens ++ rest) = (some extended, errors)) :
    program.functions <+: extended.functions ∧ program.vars <+: extended.vars := by
  obtain ⟨s, read, quiet, rfl⟩ := definitions_of_ofTokens parsed
  obtain ⟨t, read', _, rfl⟩ := definitions_of_ofTokens parsed'
  obtain ⟨rounds, t₀, symbols, more⟩ := reaches_end (before_ofTokens tokens unread) read quiet read'
  have inv := prefix_invariant s.symbols.functions s.symbols.vars
  refine iterate_ok (I := fun _ s₁ => _ ∧ _) (Q := fun _ s₁ => _ ∧ _)
    (fun _ _ _ _ known round => inv.definitionRound known round)
    (fun _ _ _ _ known round => inv.definitionRound known round) ?_ more
  rw [symbols]
  exact ⟨List.prefix_refl _, List.prefix_refl _⟩

/-- Definitions that follow a program leave its functions and variables as they are, and the code of
its functions. -/
theorem ofTokens_extended (tokens rest : List Token) (eof first : Token) (others : List Token)
    (program extended : Program) (errors : List Diagnostic) (isEof : eof.kind = .eof)
    (unread : (rest.filter fun token => !token.kind.isComment) = first :: others)
    (begins : BeginsDefinition first.kind)
    (parsed : ofTokens (tokens ++ [eof]) = (some program, []))
    (parsed' : ofTokens (tokens ++ rest) = (some extended, errors)) :
    program.functions <+: extended.functions ∧ program.vars <+: extended.vars ∧
      ∀ code code', program.assemble = .ok code → extended.assemble = .ok code' →
        ∀ func ∈ program.functions,
          (∃ body, code.routine func.id.label =
            [.label func.id.label (some func.name)] ++ body ++ [.inst .ret]) ∧
          code'.routine func.id.label = code.routine func.id.label := by
  let seam : Seam := ⟨eof, isEof, first, begins, others⟩
  obtain ⟨functions, vars⟩ := symbols_extended seam unread parsed parsed'
  refine ⟨functions, vars, fun code code' assembled assembled' func member => ?_⟩
  have here := routine_eq_functionLines (ofTokens_wellFormed parsed) assembled member
  have there := routine_eq_functionLines (ofTokens_wellFormed parsed') assembled'
    (functions.subset member)
  exact ⟨⟨_, here⟩, there.trans here.symm⟩

/-- `uint64 g; void main() if (g) g = 1;` stays as it is when a struct, and a function with an
unknown variable, follow it. -/
theorem ofTokens_extended_recovered :
    let place (kind : Token.Kind) : Token := ⟨kind, ⟨"f", 1, 1⟩⟩
    let tokens := [.ident "uint64", .ident "g", .mark .semicolon, .ident "void", .ident "main",
      .mark .lparen, .mark .rparen, .keyword .ifWord, .mark .lparen, .ident "g", .mark .rparen,
      .ident "g", .mark .equal, .integer "1", .mark .semicolon].map place
    let rest := [.comment "more", .keyword .structWord, .ident "P", .mark .lcurly, .mark .rcurly,
      .ident "void", .ident "f", .mark .lparen, .mark .rparen, .ident "h", .mark .semicolon,
      .eof].map place
    ∃ program extended code code', ofTokens (tokens ++ [place .eof]) = (some program, []) ∧
      ofTokens (tokens ++ rest) = (some extended, [.unknownVariable "h" ⟨"f", 1, 1⟩]) ∧
      program.assemble = .ok code ∧ extended.assemble = .ok code' ∧
      program.functions <+: extended.functions ∧ program.vars <+: extended.vars ∧
      ∀ func ∈ program.functions, code'.routine func.id.label = code.routine func.id.label := by
  intro place tokens rest
  obtain ⟨program, code, parsed, assembled⟩ : ∃ program code,
      ofTokens (tokens ++ [place .eof]) = (some program, []) ∧ program.assemble = .ok code :=
    exists_assembled (by decide +kernel) (by decide +kernel)
  obtain ⟨extended, code', parsed', assembled'⟩ : ∃ extended code',
      ofTokens (tokens ++ rest) = (some extended, [.unknownVariable "h" ⟨"f", 1, 1⟩]) ∧
        extended.assemble = .ok code' :=
    exists_assembled (by decide +kernel) (by decide +kernel)
  obtain ⟨functions, vars, routines⟩ := ofTokens_extended tokens rest (place .eof)
    (place (.keyword .structWord)) _ program extended _ rfl rfl (.inl rfl) parsed parsed'
  exact ⟨program, extended, code, code', parsed, parsed', assembled, assembled', functions, vars,
    fun func member => (routines code code' assembled assembled' func member).2⟩

end Program

end IonLang
