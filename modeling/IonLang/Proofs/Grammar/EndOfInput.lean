import IonLang.Proofs.Grammar.Comparison

/-!
# Tokens without an end of the file

A list of tokens that is used up reads as the end of the file at its last token, so its parse goes
as if the end of the file stood there. The exception is the statements of a case: the rule asks
whether there is a next token, and not what would be read. `BreaksOff` follows the rules to a case
in which the tokens run out. There the parse asks for another statement and stops; with an end of
the file the case ends, and the brace of its switch is reported as missing.
-/

namespace IonLang

namespace Grammar

variable {α β : Type} {s t : State} {tokens : List Token} {finish : Position}

/-! ### Where tokens break off -/

/-- The rule returns, and the rest breaks off. -/
def After (p : Parser α) (rest : α → State → Prop) (s : State) : Prop :=
  ∃ a s', p s = .ok a s' ∧ rest a s'

namespace BreaksOff

/-- This round breaks off, or the loop goes on and a later one does. -/
def loop (step : β → Parser (ForInStep β)) (round : β → State → Prop) : Nat → β → State → Prop
  | 0, _, _ => False
  | limit + 1, value, s => round value s ∨
    After (step value) (fun again s =>
      match again with
      | .done _ => False
      | .yield value => loop step round limit value s) s

def rounds (step : β → Parser (ForInStep β)) (round : β → State → Prop) (value : β) (s : State) :
    Prop :=
  loop step round (s.unread.length + 1) value s

section

variable (statement : Parser (Option Node)) (inner : State → Prop)

def bracedBody : State → Prop :=
  rounds (statementRound statement) (fun _ => After peekKind fun kind s =>
    kind ≠ .mark .rcurly ∧ kind ≠ .eof ∧ inner s) []

def blockOf : State → Prop :=
  After (accept (.mark .lcurly)) fun braced => if braced then bracedBody statement inner else inner

def ifOf : State → Prop :=
  After skip fun _ => After parenthesized fun _ s => blockOf statement inner s ∨
    After (Grammar.blockOf statement) (fun _ => After (accept (.keyword .elseWord)) fun other =>
      if other then blockOf statement inner else fun _ => False) s

def whileOf : State → Prop :=
  After skip fun _ => After parenthesized fun _ => blockOf statement inner

def doOf : State → Prop := After skip fun _ => blockOf statement inner

/-- The tokens run out before a statement of the case, or such a statement breaks off itself. -/
def caseBody : State → Prop :=
  rounds (caseRound statement) (fun _ s => s.unread = [] ∨ s.check endsCase = false ∧ inner s) []

def switchRound (cases : Cases) : State → Prop :=
  After peekKind fun kind s =>
    kind = .keyword .caseWord ∧
      After (reportAfterDefault cases) (fun _ => After skip fun _ => After expression fun _ =>
        After (expect .colon) fun _ => caseBody statement inner) s ∨
    kind = .keyword .defaultWord ∧
      After (reportAfterDefault cases) (fun _ => After skip fun _ =>
        After (expect .colon) fun _ => caseBody statement inner) s

def switchOf : State → Prop :=
  After skip fun _ => After parenthesized fun _ => After (expect .lcurly) fun _ =>
    rounds (Grammar.switchRound statement) (switchRound statement inner) {}

def statementOf : State → Prop :=
  After peekKind fun kind s =>
    kind = .mark .lcurly ∧ blockOf statement inner s ∨
    kind = .keyword .ifWord ∧ ifOf statement inner s ∨
    kind = .keyword .whileWord ∧ whileOf statement inner s ∨
    kind = .keyword .doWord ∧ doOf statement inner s ∨
    kind = .keyword .switchWord ∧ switchOf statement inner s

end

def statement : Nat → State → Prop
  | 0, _ => False
  | depth + 1, s => statementOf (Grammar.statement depth) (statement depth) s

def block (s : State) : Prop :=
  blockOf (Grammar.statement (s.unread.length + 1)) (statement (s.unread.length + 1)) s

def globalDefinition : State → Prop :=
  After typeName fun _ => After ident fun found => After peekKind fun kind s =>
    kind = .mark .lparen ∧ After skip (fun _ => After (expect .rparen) fun _ =>
      After (declareFunction found.1 found.2) fun _ => block) s

def definitions : State → Prop :=
  rounds definitionRound (fun _ => After peekKind fun kind s =>
    (∃ name, kind = .ident name) ∧ globalDefinition s) ()

end BreaksOff

theorem after_of_ok {p : Parser α} {rest : α → State → Prop} {a : α} {s' : State}
    (run : p s = .ok a s') : After p rest s ↔ rest a s' := by
  constructor
  · rintro ⟨b, s₁, other, holds⟩
    rw [run] at other
    cases other
    exact holds
  · exact fun holds => ⟨a, s', run, holds⟩

theorem not_after_of_error {p : Parser α} {rest : α → State → Prop} {stop : Stop} {s' : State}
    (run : p s = .error stop s') : ¬After p rest s := by
  rintro ⟨a, s₁, other, _⟩
  rw [run] at other
  cases other

/-! ### Two parses and where they part -/

def HasCase (tokens : List Token) : Prop :=
  ∃ token ∈ tokens, token.kind = .keyword .caseWord ∨ token.kind = .keyword .defaultWord

/-- What is reported where the tokens are used up and an expression has to begin. -/
abbrev wantsExpression (finish : Position) : Diagnostic :=
  .unexpectedToken ⟨.eof, finish⟩ "expression"

def Comparison.closing (tokens : List Token) (finish : Position) : Comparison where
  Match pos unread unread' := unread = unread' ++ [⟨.eof, finish⟩] ∧
    (unread'.getLast?.map Token.pos).getD pos = finish ∧ unread' ⊆ tokens
  Apart _ := False
  Stays s s' := s.errors <+: s'.errors
  current := by
    rintro pos _ unread' ⟨rfl, last, _⟩
    cases unread' with
    | nil => exact congrArg (Token.mk .eof) last.symm
    | cons token rest => rfl
  next := by
    rintro pos token unread unread' ⟨same, last, known⟩ _
    refine .inl ⟨(List.cons.inj same).2, ?_, (List.cons_subset.mp known).2⟩
    rw [List.getLast?_cons] at last
    rw [← last]
    cases unread'.getLast? <;> rfl
  steps := errors_relation
  apart _ := id

open Comparison (closing)

/-- Two runs agree, unless the second breaks off. Then it has stopped for want of an expression, and
the first has reported the brace of the switch, or has come to the end of the file with a value and
leaves that to the switch. -/
inductive AgreeUnless (tokens : List Token) (finish : Position) (breaks : Prop) (waits : α → Prop) :
    EStateM.Result Stop State α → EStateM.Result Stop State α → Prop where
  | returned {a : α} {s t : State} (whole : ¬breaks) (alike : (closing tokens finish).Alike s t) :
    AgreeUnless tokens finish breaks waits (.ok a s) (.ok a t)
  | stopped {stop : Stop} {s t : State} (whole : ¬breaks)
    (alike : (closing tokens finish).Alike s t) :
    AgreeUnless tokens finish breaks waits (.error stop s) (.error stop t)
  | exhausted {s : State} {second : EStateM.Result Stop State α} :
    AgreeUnless tokens finish breaks waits (.error .exhausted s) second
  | exhausted' {first : EStateM.Result Stop State α} {t : State} :
    AgreeUnless tokens finish breaks waits first (.error .exhausted t)
  | apart {first : EStateM.Result Stop State α} {t : State} (broken : breaks)
    (named : HasCase tokens)
    (reported : t.errors ++ [.missingCharacter '}' finish] <+: (finalState first).errors) :
    AgreeUnless tokens finish breaks waits first (.error (.fatal (wantsExpression finish)) t)
  | wait {a : α} {s t : State} (broken : breaks) (named : HasCase tokens) (value : waits a)
    (unread : s.unread = [⟨.eof, finish⟩]) (errors : t.errors = s.errors) :
    AgreeUnless tokens finish breaks waits (.ok a s) (.error (.fatal (wantsExpression finish)) t)

namespace AgreeUnless

variable {breaks : Prop} {waits : α → Prop} {waits' : β → Prop}

theorem of_agree {first second : EStateM.Result Stop State α} (whole : ¬breaks)
    (agree : (closing tokens finish).Agree first second) :
    AgreeUnless tokens finish breaks waits first second := by
  cases agree with
  | returned alike => exact .returned whole alike
  | stopped alike => exact .stopped whole alike
  | exhausted => exact .exhausted
  | exhausted' => exact .exhausted'
  | apart never => exact never.elim

theorem congr {breaks' : Prop} {first second : EStateM.Result Stop State α}
    (agree : AgreeUnless tokens finish breaks waits first second) (same : breaks ↔ breaks') :
    AgreeUnless tokens finish breaks' waits first second :=
  propext same ▸ agree

theorem agree {first second : EStateM.Result Stop State α}
    (outcome : AgreeUnless tokens finish breaks (fun _ => False) first second) (whole : ¬breaks) :
    (closing tokens finish).Agree first second := by
  cases outcome with
  | returned _ alike => exact .returned alike
  | stopped _ alike => exact .stopped alike
  | exhausted => exact .exhausted
  | exhausted' => exact .exhausted'
  | apart broken => exact absurd broken whole
  | wait broken => exact absurd broken whole

theorem apart_of_breaks {first second : EStateM.Result Stop State α}
    (outcome : AgreeUnless tokens finish breaks (fun _ => False) first second) (broken : breaks)
    (within : ∀ s, first ≠ .error .exhausted s) (within' : ∀ s, second ≠ .error .exhausted s) :
    HasCase tokens ∧ ∃ t, second = .error (.fatal (wantsExpression finish)) t ∧
      t.errors ++ [.missingCharacter '}' finish] <+: (finalState first).errors := by
  cases outcome with
  | returned whole => exact absurd broken whole
  | stopped whole => exact absurd broken whole
  | exhausted => exact absurd rfl (within _)
  | exhausted' => exact absurd rfl (within' _)
  | apart _ named reported => exact ⟨named, _, rfl, reported⟩
  | wait _ _ never => exact never.elim

-- The continuation of the first run is what decides: the second run has ended if the first waits.
theorem bind {p q : Parser α} {f g : α → Parser β} {follows : α → State → Prop}
    (first : AgreeUnless tokens finish breaks waits (p s) (q t))
    (keeps : ∀ a, Keeps (closing tokens finish).Stays (f a))
    (rest : ∀ a s t, (closing tokens finish).Alike s t →
      AgreeUnless tokens finish (follows a t) waits' (f a s) (g a t))
    (waiting : ∀ a s t, HasCase tokens → waits a → s.unread = [⟨.eof, finish⟩] →
      t.errors = s.errors → AgreeUnless tokens finish True waits' (f a s)
        (.error (.fatal (wantsExpression finish)) t)) :
    AgreeUnless tokens finish (breaks ∨ After q follows t) waits' ((p >>= f) s) ((q >>= g) t) := by
  simp only [Bind.bind, EStateM.bind]
  generalize left : p s = run at first
  generalize right : q t = run' at first
  cases first with
  | returned whole alike =>
    refine (rest _ _ _ alike).congr ?_
    rw [after_of_ok right, or_iff_right whole]
  | stopped whole alike =>
    exact .stopped (not_or.mpr ⟨whole, not_after_of_error right⟩) alike
  | exhausted => exact .exhausted
  | exhausted' => exact .exhausted'
  | apart broken named reported =>
    refine .apart (.inl broken) named ?_
    cases run with
    | ok a s₁ => exact reported.trans ((keeps a).final s₁)
    | error stop s₁ => exact reported
  | wait broken named value unread errors =>
    exact (waiting _ _ _ named value unread errors).congr (iff_of_true trivial (.inl broken))

end AgreeUnless

structure TracksUnless (tokens : List Token) (finish : Position) (breaks : State → Prop)
    (p q : Parser α) (waits : α → Prop := fun _ => False) : Prop where
  keeps : Keeps (closing tokens finish).Stays p
  agree : ∀ s t, (closing tokens finish).Alike s t →
    AgreeUnless tokens finish (breaks t) waits (p s) (q t)

namespace TracksUnless

variable {breaks : State → Prop} {waits : α → Prop} {waits' : β → Prop}

theorem of_tracks {p q : Parser α} (tracks : (closing tokens finish).Tracks p q)
    (whole : ∀ s, ¬breaks s) : TracksUnless tokens finish breaks p q waits :=
  ⟨tracks.keeps, fun s t alike => .of_agree (whole t) (tracks.agree s t alike)⟩

theorem congr {breaks' : State → Prop} {p q : Parser α}
    (tracks : TracksUnless tokens finish breaks p q waits) (same : ∀ s, breaks s ↔ breaks' s) :
    TracksUnless tokens finish breaks' p q waits :=
  ⟨tracks.keeps, fun s t alike => (tracks.agree s t alike).congr (same t)⟩

theorem bind {p q : Parser α} {f g : α → Parser β} {follows : α → State → Prop}
    (first : TracksUnless tokens finish breaks p q)
    (rest : ∀ a, TracksUnless tokens finish (follows a) (f a) (g a) waits') :
    TracksUnless tokens finish (fun s => breaks s ∨ After q follows s) (p >>= f) (q >>= g) waits' :=
  ⟨errors_relation.bind first.keeps fun a => (rest a).keeps, fun s t alike =>
    (first.agree s t alike).bind (fun a => (rest a).keeps) (fun a => (rest a).agree)
      fun _ _ _ _ never => never.elim⟩

theorem after {p q : Parser α} {f g : α → Parser β} {follows : α → State → Prop}
    (first : (closing tokens finish).Tracks p q)
    (rest : ∀ a, TracksUnless tokens finish (follows a) (f a) (g a) waits') :
    TracksUnless tokens finish (After q follows) (p >>= f) (q >>= g) waits' :=
  ((of_tracks first fun _ => not_false).bind rest).congr fun _ => or_iff_right not_false

-- What is read next is known to be one of the tokens.
theorem peekKind {f g : Token.Kind → Parser α} {follows : Token.Kind → State → Prop}
    (keeps : Keeps (closing tokens finish).Stays (Grammar.peekKind >>= f))
    (rest : ∀ kind, (kind ≠ .eof → ∃ token ∈ tokens, token.kind = kind) →
      TracksUnless tokens finish (follows kind) (f kind) (g kind) waits) :
    TracksUnless tokens finish (After Grammar.peekKind follows) (Grammar.peekKind >>= f)
      (Grammar.peekKind >>= g) waits := by
  refine ⟨keeps, fun s t alike => ?_⟩
  rw [peekKind_bind, peekKind_bind, ← alike.kind]
  refine ((rest t.kind fun real => ?_).agree s t alike).congr (after_of_ok rfl).symm
  obtain ⟨token, others, unread, same⟩ := unread_of_kind rfl real
  obtain ⟨_, _, known⟩ := alike.unread
  exact ⟨token, known (unread ▸ List.mem_cons_self), same⟩

-- The wait goes on over steps that neither read nor report.
theorem calmly {p q : Parser α} {f g : α → Parser β}
    (first : TracksUnless tokens finish breaks p q waits)
    (rest : ∀ a, (closing tokens finish).Tracks (f a) (g a))
    (calm : ∀ a s, waits a → ∃ b s', f a s = .ok b s' ∧ waits' b ∧ s'.unread = s.unread ∧
      s'.errors = s.errors) :
    TracksUnless tokens finish breaks (p >>= f) (q >>= g) waits' := by
  refine ⟨errors_relation.bind first.keeps fun a => (rest a).keeps, fun s t alike => ?_⟩
  have whole : ¬After q (fun _ _ => False) t := by
    rintro ⟨_, _, _, never⟩
    exact never
  refine AgreeUnless.congr ?_ (or_iff_left whole)
  refine (first.agree s t alike).bind (fun a => (rest a).keeps)
    (fun a s t alike => .of_agree not_false ((rest a).agree s t alike)) ?_
  intro a s t named value unread errors
  obtain ⟨b, s', result, value', unread', errors'⟩ := calm a s value
  rw [result]
  exact .wait trivial named value' (unread'.trans unread) (errors.trans errors'.symm)

theorem before {p q : Parser α} {f g : α → Parser β}
    (first : TracksUnless tokens finish breaks p q)
    (rest : ∀ a, (closing tokens finish).Tracks (f a) (g a)) :
    TracksUnless tokens finish breaks (p >>= f) (q >>= g) waits' :=
  first.calmly rest fun _ _ never => never.elim

theorem map {p q : Parser α} (f : α → β)
    (tracks : TracksUnless tokens finish breaks p q) :
    TracksUnless tokens finish breaks (f <$> p) (f <$> q) waits' := by
  rw [map_eq_pure_bind, map_eq_pure_bind]
  exact tracks.before fun a => .pure (f a)

-- A wait in the last round is one of the loop; a wait in another round is met by what follows.
theorem iterate {round : β → State → Prop} {waits : ForInStep β → Prop}
    {step step' : β → Parser (ForInStep β)}
    (rounds : ∀ value, TracksUnless tokens finish (round value) (step value) (step' value) waits)
    (last : ∀ value, waits (.done value) → waits' value)
    (onward : ∀ limit value s t, HasCase tokens → waits (.yield value) →
      s.unread = [⟨.eof, finish⟩] → t.errors = s.errors → AgreeUnless tokens finish True waits'
        (Grammar.iterate step limit value s) (.error (.fatal (wantsExpression finish)) t))
    (limit limit' : Nat) (value : β) :
    TracksUnless tokens finish (BreaksOff.loop step' round limit' value)
      (Grammar.iterate step limit value) (Grammar.iterate step' limit' value) waits' := by
  have keeps := errors_relation.iterate fun value => (rounds value).keeps
  refine ⟨keeps limit value, ?_⟩
  induction limit generalizing limit' value with
  | zero => exact fun _ _ _ => .exhausted
  | succ limit ih =>
    cases limit' with
    | zero => exact fun _ _ _ => .exhausted'
    | succ limit' =>
      intro s t alike
      rw [iterate_succ, iterate_succ]
      refine ((rounds value).agree s t alike).bind ?_ ?_ ?_
      · rintro (value | value)
        · exact errors_relation.pure value
        · exact keeps limit value
      · rintro (value | value) s t alike
        · exact .returned not_false alike
        · exact ih limit' value s t alike
      · rintro (value | value) s t named waiting unread errors
        · exact .wait trivial named (last value waiting) unread errors
        · exact onward limit value s t named waiting unread errors

theorem repeatUntilDone {round : β → State → Prop} {waits : ForInStep β → Prop}
    {step step' : β → Parser (ForInStep β)}
    (rounds : ∀ value, TracksUnless tokens finish (round value) (step value) (step' value) waits)
    (last : ∀ value, waits (.done value) → waits' value)
    (onward : ∀ limit value s t, HasCase tokens → waits (.yield value) →
      s.unread = [⟨.eof, finish⟩] → t.errors = s.errors → AgreeUnless tokens finish True waits'
        (Grammar.iterate step limit value s) (.error (.fatal (wantsExpression finish)) t))
    (value : β) :
    TracksUnless tokens finish (BreaksOff.rounds step' round value)
      (Grammar.repeatUntilDone step value) (Grammar.repeatUntilDone step' value) waits' :=
  ⟨errors_relation.repeatUntilDone (fun value => (rounds value).keeps) value,
    fun s t alike => (iterate rounds last onward _ _ value).agree s t alike⟩

end TracksUnless

/-! ### Cases and switches -/

-- Where no token is left there is none that begins an expression.
theorem statement_of_nil (depth : Nat) (empty : s.unread = []) :
    statement depth s = .error .exhausted s ∨
      statement depth s = .error (.fatal (wantsExpression s.last)) s := by
  cases depth with
  | zero => exact .inl rfl
  | succ depth =>
    obtain ⟨unread, last, errors, nodes, types, symbols⟩ := s
    obtain rfl : unread = [] := empty
    exact .inr rfl

theorem switchRound_of_eof (inner : Parser (Option Node)) (cases : Cases) (atEnd : s.kind = .eof) :
    switchRound inner cases s = .ok (.done cases) (s.record (.missingCharacter '}' s.position)) := by
  unfold switchRound
  rw [peekKind_bind, atEnd]
  rfl

namespace TracksUnless

section

variable {depth depth' : Nat} {inner : State → Prop}
  (tracks : TracksUnless tokens finish inner (Grammar.statement depth) (Grammar.statement depth'))

include tracks

theorem caseRound (named : HasCase tokens) (body : List Node) :
    TracksUnless tokens finish (fun s => s.unread = [] ∨ s.check endsCase = false ∧ inner s)
      (Grammar.caseRound (Grammar.statement depth) body)
      (Grammar.caseRound (Grammar.statement depth') body)
      (fun result => ∃ last, result = .done last) := by
  refine ⟨errors_relation.caseRound tracks.keeps body, fun s t alike => ?_⟩
  unfold Grammar.caseRound
  rw [observe_bind, observe_bind]
  obtain ⟨same, last, _⟩ := alike.unread
  cases unread : t.unread with
  | nil =>
    -- Here the case ends with the end of the file, and goes on without it.
    rw [unread] at same last
    have here : s.check endsCase = true := by
      unfold State.check
      rw [same]
      rfl
    have there : t.check endsCase = false := by
      unfold State.check
      rw [unread]
    obtain rfl : t.last = finish := by
      rw [alike.same]
      exact last
    rw [here, there, if_pos rfl, if_neg Bool.false_ne_true]
    rcases statement_of_nil depth' unread with unmet | stuck
    · simp only [Bind.bind, EStateM.bind, unmet]
      exact .exhausted'
    · simp only [Bind.bind, EStateM.bind, stuck]
      exact .wait (.inl trivial) named ⟨body, rfl⟩ same alike.errors
  | cons token rest =>
    have ends : t.check endsCase = s.check endsCase := by
      unfold State.check
      rw [same, unread]
      rfl
    rw [ends]
    split
    · next ended =>
      refine .returned ?_ alike
      simp [ended]
    · next goes =>
      refine ((tracks.before fun _ => .pure _).agree s t alike).congr ?_
      simp [goes]

theorem caseBody (named : HasCase tokens) :
    TracksUnless tokens finish (BreaksOff.caseBody (Grammar.statement depth') inner)
      (Grammar.caseBody (Grammar.statement depth)) (Grammar.caseBody (Grammar.statement depth'))
      (fun _ => True) := by
  refine (repeatUntilDone (caseRound tracks named) (fun _ _ => trivial) ?_ []).calmly
    (fun _ => .build _) fun _ _ _ => ⟨_, _, rfl, trivial, rfl, rfl⟩
  rintro limit body s t _ ⟨last, never⟩
  cases never

theorem switchRound (cases : Cases) :
    TracksUnless tokens finish (BreaksOff.switchRound (Grammar.statement depth') inner cases)
      (Grammar.switchRound (Grammar.statement depth) cases)
      (Grammar.switchRound (Grammar.statement depth') cases)
      (fun result => ∃ cases, result = .yield cases) := by
  refine peekKind (errors_relation.switchRound tracks.keeps cases) fun kind known => ?_
  split
  · obtain ⟨token, member, same⟩ := known (by simp)
    have body := caseBody tracks ⟨token, member, .inl same⟩
    refine (after (.reportAfterDefault _) fun _ => after .skip fun _ => after .expression fun _ =>
      after (.expect _) fun _ => body.calmly (fun _ => .pure _) fun _ _ _ => ?_).congr
        fun _ => by simp
    exact ⟨_, _, rfl, ⟨_, rfl⟩, rfl, rfl⟩
  · obtain ⟨token, member, same⟩ := known (by simp)
    have body := caseBody tracks ⟨token, member, .inr same⟩
    refine (after (.reportAfterDefault _) fun _ => after .skip fun _ => after (.expect _) fun _ =>
      body.calmly (fun _ => .pure _) fun _ _ _ => ?_).congr fun _ => by simp
    exact ⟨_, _, rfl, ⟨_, rfl⟩, rfl, rfl⟩
  · exact of_tracks (.bind .skip fun _ => .pure _) (by simp)
  · exact of_tracks (.bind .missingBrace fun _ => .pure _) (by simp)
  · next noCase noDefault _ _ =>
    refine of_tracks (.bind (.expectWord _) fun _ => .pure _) fun _ => ?_
    rintro (⟨word, _⟩ | ⟨word, _⟩)
    · exact noCase word
    · exact noDefault word

-- The round after a wait reports the brace.
theorem switchRounds :
    TracksUnless tokens finish
      (BreaksOff.rounds (Grammar.switchRound (Grammar.statement depth'))
        (BreaksOff.switchRound (Grammar.statement depth') inner) {})
      (Grammar.repeatUntilDone (Grammar.switchRound (Grammar.statement depth)) {})
      (Grammar.repeatUntilDone (Grammar.switchRound (Grammar.statement depth')) {}) := by
  refine repeatUntilDone (switchRound tracks) ?_ ?_ {}
  · rintro cases ⟨more, never⟩
    cases never
  · intro limit cases s t named _ unread errors
    cases limit with
    | zero => exact .exhausted
    | succ limit =>
      have place : s.position = finish := by
        unfold State.position State.current
        rw [unread]
        rfl
      refine .apart trivial named ?_
      rw [iterate_succ, bind_run (switchRound_of_eof _ cases (kind_eq unread)), errors, place]
      exact List.prefix_refl (s.errors ++ [.missingCharacter '}' finish])

theorem switchOf :
    TracksUnless tokens finish (BreaksOff.switchOf (Grammar.statement depth') inner)
      (Grammar.switchOf (Grammar.statement depth)) (Grammar.switchOf (Grammar.statement depth')) :=
  after .skip fun _ => after .parenthesized fun _ => after (.expect _) fun _ =>
    (switchRounds tracks).before fun _ => .build _

end

/-! ### The other rules -/

section

variable {statement statement' : Parser (Option Node)} {inner : State → Prop}
  (tracks : TracksUnless tokens finish inner statement statement')

include tracks

theorem statementRound (body : List Node) :
    TracksUnless tokens finish
      (After Grammar.peekKind fun kind s => kind ≠ .mark .rcurly ∧ kind ≠ .eof ∧ inner s)
      (Grammar.statementRound statement body) (Grammar.statementRound statement' body) := by
  refine after .peekKind fun kind => ?_
  split
  · exact of_tracks (.bind .skip fun _ => .pure _) (by simp)
  · exact of_tracks (.bind .missingBrace fun _ => .pure _) (by simp)
  · next notClosed notEnded =>
    exact (tracks.before fun _ => .pure _).congr fun _ =>
      ⟨fun broken => ⟨notClosed, notEnded, broken⟩, fun broken => broken.2.2⟩

theorem bracedBody :
    TracksUnless tokens finish (BreaksOff.bracedBody statement' inner)
      (Grammar.bracedBody statement) (Grammar.bracedBody statement') :=
  repeatUntilDone (statementRound tracks) (fun _ never => never) (fun _ _ _ _ _ never => never.elim) []

theorem blockOf :
    TracksUnless tokens finish (BreaksOff.blockOf statement' inner)
      (Grammar.blockOf statement) (Grammar.blockOf statement') := by
  refine after (.accept _) fun braced => ?_
  cases braced with
  | true => exact (bracedBody tracks).before fun _ => .build _
  | false =>
    refine tracks.before fun node => ?_
    cases node with
    | some node => exact .pure node
    | none => exact .build _

theorem ifOf :
    TracksUnless tokens finish (BreaksOff.ifOf statement' inner)
      (Grammar.ifOf statement) (Grammar.ifOf statement') := by
  refine after .skip fun _ => after .parenthesized fun _ => (blockOf tracks).bind fun _ =>
    after (.accept _) fun other => ?_
  cases other with
  | true => exact (blockOf tracks).before fun _ => .build _
  | false =>
    simp only [Bool.false_eq_true, ↓reduceIte]
    exact of_tracks (.build _) fun _ => not_false

theorem whileOf :
    TracksUnless tokens finish (BreaksOff.whileOf statement' inner)
      (Grammar.whileOf statement) (Grammar.whileOf statement') :=
  after .skip fun _ => after .parenthesized fun _ => (blockOf tracks).before fun _ => .build _

theorem doOf :
    TracksUnless tokens finish (BreaksOff.doOf statement' inner)
      (Grammar.doOf statement) (Grammar.doOf statement') :=
  after .skip fun _ => (blockOf tracks).before fun _ => .bind (.expectWord _) fun _ =>
    .bind .parenthesized fun _ => .bind (.expect _) fun _ => .build _

theorem statementOf
    (switch : TracksUnless tokens finish (BreaksOff.switchOf statement' inner)
      (Grammar.switchOf statement) (Grammar.switchOf statement')) :
    TracksUnless tokens finish (BreaksOff.statementOf statement' inner)
      (Grammar.statementOf statement) (Grammar.statementOf statement') := by
  refine after .peekKind fun kind => ?_
  split
  · exact of_tracks (.bind .skip fun _ => .pure _) (by simp)
  · exact ((blockOf tracks).map some).congr fun _ => by simp
  · exact ((ifOf tracks).map some).congr fun _ => by simp
  · exact ((whileOf tracks).map some).congr fun _ => by simp
  · exact ((doOf tracks).map some).congr fun _ => by simp
  · exact (switch.map some).congr fun _ => by simp
  · exact of_tracks (.map some .putc) (by simp)
  · next noBlock noIf noWhile noDo noSwitch _ =>
    refine of_tracks (.bind .expression fun _ => .bind (.expect _) fun _ => .pure _) fun _ => ?_
    rintro (⟨word, _⟩ | ⟨word, _⟩ | ⟨word, _⟩ | ⟨word, _⟩ | ⟨word, _⟩)
    · exact noBlock word
    · exact noIf word
    · exact noWhile word
    · exact noDo word
    · exact noSwitch word

end

theorem statement (depth depth' : Nat) :
    TracksUnless tokens finish (BreaksOff.statement depth') (Grammar.statement depth)
      (Grammar.statement depth') := by
  induction depth generalizing depth' with
  | zero => exact ⟨errors_relation.throw _, fun _ _ _ => .exhausted⟩
  | succ depth ih =>
    cases depth' with
    | zero => exact ⟨errors_relation.statement _, fun _ _ _ => .exhausted'⟩
    | succ depth' => exact statementOf (ih depth') (switchOf (ih depth'))

theorem block : TracksUnless tokens finish BreaksOff.block Grammar.block Grammar.block :=
  ⟨errors_relation.block, fun s t alike => (blockOf (statement _ _)).agree s t alike⟩

theorem globalDefinition :
    TracksUnless tokens finish BreaksOff.globalDefinition Grammar.globalDefinition
      Grammar.globalDefinition := by
  refine after .typeName fun _ => after .ident fun found => after .peekKind fun kind => ?_
  split
  · have enters : (closing tokens finish).Tracks (declareFunction found.1 found.2)
        (declareFunction found.1 found.2) := .declare (errors_relation.declareFunction _ _)
    refine (after .skip fun _ => after (.expect _) fun _ => after enters fun func =>
      block.before fun body => ?_).congr fun _ => by simp
    split
    · exact .defineFunction _ _
    · exact .pure _
  · exact of_tracks (.bind .skip fun _ => .bind (.declareVariable _ _ _) fun _ => .pure _) (by simp)
  · next noFunction _ => exact of_tracks (.unexpected _) fun _ broken => noFunction broken.1

theorem definitionRound (value : Unit) :
    TracksUnless tokens finish
      (After Grammar.peekKind fun kind s => (∃ name, kind = .ident name) ∧ BreaksOff.globalDefinition s)
      (Grammar.definitionRound value) (Grammar.definitionRound value) := by
  refine after .peekKind fun kind => ?_
  split
  · exact of_tracks (.pure _) (by simp)
  · exact of_tracks (.bind .structDefinition fun _ => .pure _) (by simp)
  · exact of_tracks (.bind .classDefinition fun _ => .pure _) (by simp)
  · exact (globalDefinition.before fun _ => .pure _).congr fun _ => by simp
  · next noName =>
    refine of_tracks (.unexpected _) fun _ => ?_
    rintro ⟨⟨name, rfl⟩, _⟩
    exact noName name rfl

theorem definitions :
    TracksUnless tokens finish BreaksOff.definitions Grammar.definitions Grammar.definitions :=
  repeatUntilDone definitionRound (fun _ never => never) (fun _ _ _ _ _ never => never.elim) ()

end TracksUnless

/-! ### Whole parses -/

/-- The end of the file that a list of tokens reads as when it is used up. -/
def endOf (tokens : List Token) : Token :=
  ⟨.eof, ((tokens.filter fun token => !token.kind.isComment).getLast?.map Token.pos).getD ⟨"", 1, 1⟩⟩

theorem alike_closed (tokens : List Token) :
    (closing tokens (endOf tokens).pos).Alike (State.ofTokens (tokens ++ [endOf tokens]))
      (State.ofTokens tokens) := by
  refine ⟨rfl, ?_, rfl, List.filter_sublist.subset⟩
  show (tokens ++ [endOf tokens]).filter _ = _
  rw [List.filter_append]
  rfl

end Grammar

namespace Program

open Grammar

/-- The tokens run out between the statements of a case. -/
def BreaksOffInCase (tokens : List Token) : Prop := BreaksOff.definitions (State.ofTokens tokens)

theorem errors_parse (s : State) : (finalState (definitions s)).errors <+: s.parse.2 := by
  have ends := Ends.definitions s
  unfold State.parse
  cases run : definitions s with
  | ok value s' => exact List.prefix_refl _
  | error stop s' =>
    rw [run] at ends
    obtain ⟨diagnostic, rfl, _⟩ := ends
    exact List.prefix_append _ _

theorem parse_of_error {s t : State} {diagnostic : Diagnostic}
    (stopped : definitions s = .error (.fatal diagnostic) t) :
    s.parse = (none, t.errors ++ [diagnostic]) := by
  unfold State.parse
  rw [stopped]

theorem ofTokens_closed {tokens : List Token} (whole : ¬BreaksOffInCase tokens) :
    ofTokens tokens = ofTokens (tokens ++ [endOf tokens]) := by
  have agree := (TracksUnless.definitions.agree _ _ (alike_closed tokens)).agree whole
  exact agree.parse.resolve_right id

namespace BreaksOffInCase

theorem reports {tokens : List Token} (broken : BreaksOffInCase tokens) :
    HasCase tokens ∧ ∃ reported more,
      ofTokens tokens = (none, reported ++ [.unexpectedToken (endOf tokens) "expression"]) ∧
      (ofTokens (tokens ++ [endOf tokens])).2 =
        reported ++ .missingCharacter '}' (endOf tokens).pos :: more := by
  have outcome := TracksUnless.definitions.agree _ _ (alike_closed tokens)
  obtain ⟨named, t, stopped, reported⟩ := outcome.apart_of_breaks broken
    (Ends.ne_exhausted (Ends.definitions _)) (Ends.ne_exhausted (Ends.definitions _))
  obtain ⟨more, errors⟩ := reported.trans (errors_parse _)
  refine ⟨named, t.errors, more, parse_of_error stopped, ?_⟩
  exact errors.symm.trans (List.append_assoc _ _ _)

theorem differs {tokens : List Token} (broken : BreaksOffInCase tokens) :
    ofTokens tokens ≠ ofTokens (tokens ++ [endOf tokens]) := by
  obtain ⟨_, reported, more, without, closed⟩ := broken.reports
  intro same
  rw [← same, without] at closed
  have first := (List.cons.inj (List.append_cancel_left closed)).1
  cases first

end BreaksOffInCase

/-- Tokens are read as if the end of the file followed them, unless they run out between the
statements of a case. Then one of them begins a case, and the parse stops for want of an expression
where the parse with an end of the file reports the brace of the switch. -/
theorem ofTokens_closed_iff (tokens : List Token) :
    (ofTokens tokens = ofTokens (tokens ++ [endOf tokens]) ↔ ¬BreaksOffInCase tokens) ∧
    (BreaksOffInCase tokens → HasCase tokens ∧ ∃ reported more,
      ofTokens tokens = (none, reported ++ [.unexpectedToken (endOf tokens) "expression"]) ∧
      (ofTokens (tokens ++ [endOf tokens])).2 =
        reported ++ .missingCharacter '}' (endOf tokens).pos :: more) :=
  ⟨⟨fun same broken => broken.differs same, ofTokens_closed⟩, BreaksOffInCase.reports⟩

/-- `void main() { switch (1) { default:` breaks off in a case and is read in two ways, but not
`void main() { while`. -/
theorem ofTokens_closed_iff_default :
    let place (kind : Token.Kind) : Token := ⟨kind, ⟨"f", 1, 1⟩⟩
    let broken := [.ident "void", .ident "main", .mark .lparen, .mark .rparen, .mark .lcurly,
      .keyword .switchWord, .mark .lparen, .integer "1", .mark .rparen, .mark .lcurly,
      .keyword .defaultWord, .mark .colon].map place
    let whole := [.ident "void", .ident "main", .mark .lparen, .mark .rparen, .mark .lcurly,
      .keyword .whileWord].map place
    BreaksOffInCase broken ∧ ofTokens broken ≠ ofTokens (broken ++ [endOf broken]) ∧
      ¬HasCase whole ∧ ofTokens whole = ofTokens (whole ++ [endOf whole]) := by
  intro place broken whole
  have differs : ofTokens broken ≠ ofTokens (broken ++ [endOf broken]) := fun same =>
    absurd (congrArg Prod.snd same) (by decide +kernel)
  have noCase : ¬HasCase whole := by
    unfold HasCase
    decide
  obtain ⟨same, _⟩ := ofTokens_closed_iff broken
  obtain ⟨same', reports⟩ := ofTokens_closed_iff whole
  have breaksOff : BreaksOffInCase broken := Classical.byContradiction fun whole =>
    differs (same.mpr whole)
  exact ⟨breaksOff, differs, noCase, same'.mpr fun breaks => noCase (reports breaks).1⟩

end Program

end IonLang
