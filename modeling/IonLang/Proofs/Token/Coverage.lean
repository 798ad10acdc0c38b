import IonLang.Proofs.Token.Lexeme
import Mathlib.Logic.ExistsUnique

/-!
# A scan accounts for every character

A line is made up of blanks, lexemes and stray characters, and its scan holds one token for each
lexeme and one diagnostic for each stray character, at the places where they stand (`Scanned`). So
every character that is not blank lies in one lexeme or is reported once, and nothing else is
reported but the dots that a number has too many.
-/

namespace IonLang

def Position.after (pos : Position) (text : List Char) : Position :=
  { pos with column := pos.column + Token.byteSize text }

def Position.Before (pos later : Position) : Prop :=
  pos.line < later.line ∨ pos.line = later.line ∧ pos.column < later.column

namespace Token

/-! ### Bytes -/

theorem byteSize_append (front back : List Char) :
    byteSize (front ++ back) = byteSize front + byteSize back := by
  induction front with
  | nil => simp [byteSize]
  | cons c front ih => simp [byteSize, ih, Nat.add_assoc]

theorem byteSize_pos {text : List Char} (nonempty : text ≠ []) : 0 < byteSize text := by
  cases text with
  | nil => exact absurd rfl nonempty
  | cons c rest => exact Nat.add_pos_left c.utf8Size_pos _

theorem byteSize_toList (text : String) : byteSize text.toList = text.utf8ByteSize := by
  have ofList : ∀ chars : List Char, byteSize chars = (String.ofList chars).utf8ByteSize := by
    intro chars
    induction chars with
    | nil => rfl
    | cons c rest ih =>
      rw [byteSize, ih, String.ofList_cons, String.utf8ByteSize_append,
        String.utf8ByteSize_singleton]
  rw [ofList, String.ofList_toList]

-- Two beginnings of one text are the same if they are equally long.
theorem eq_of_byteSize_eq {front back front' back' : List Char}
    (same : front ++ back = front' ++ back') (size : byteSize front = byteSize front') :
    front = front' := by
  have tail : ∀ {short long more : List Char}, long = short ++ more →
      byteSize short = byteSize long → short = long := by
    rintro short long more rfl size
    rw [byteSize_append] at size
    cases more with
    | nil => rw [List.append_nil]
    | cons c more =>
      have := byteSize_pos (List.cons_ne_nil c more)
      omega
  rcases List.append_eq_append_iff.mp same with ⟨more, longer, _⟩ | ⟨more, longer, _⟩
  · exact tail longer size
  · exact (tail longer size.symm).symm

-- A character of two texts in a row stands in the second of them or in the first.
theorem behind_or_inside {part rest front back : List Char} {c : Char}
    (whole : part ++ rest = front ++ c :: back) :
    (∃ more, front = part ++ more ∧ rest = more ++ c :: back) ∨
      ∃ inner, part = front ++ c :: inner := by
  rcases List.append_eq_append_iff.mp whole with ⟨more, longer, later⟩ | ⟨inner, inside, later⟩
  · exact Or.inl ⟨more, longer, later⟩
  · cases inner with
    | nil =>
      rw [List.append_nil] at inside
      exact Or.inl ⟨[], by rw [List.append_nil, inside], later.symm⟩
    | cons d inner =>
      cases later
      exact Or.inr ⟨inner, inside⟩

end Token

namespace Position

theorem after_append (pos : Position) (front back : List Char) :
    pos.after (front ++ back) = (pos.after front).after back := by
  simp [after, Token.byteSize_append, Nat.add_assoc]

theorem after_nil (pos : Position) : pos.after [] = pos := rfl

theorem after_inj {pos : Position} {front front' : List Char}
    (same : pos.after front = pos.after front') : Token.byteSize front = Token.byteSize front' := by
  simpa [after] using same

theorem after_ne_self {pos : Position} {text : List Char} (nonempty : text ≠ []) :
    pos.after text ≠ pos := by
  intro same
  have size := after_inj (same.trans pos.after_nil.symm)
  have := Token.byteSize_pos nonempty
  rw [size] at this
  exact Nat.lt_irrefl 0 this

end Position

namespace Token

open Text (isBlank)

/-! ### Where a token stands -/

/-- The lexeme of a token stands in a line that begins at `start`, between `before` and `after`. -/
structure Stands (token : Token) (start : Position) (line before lexeme after : List Char) :
    Prop where
  whole : line = before ++ (lexeme ++ after)
  pos : token.pos = start.after before
  lexeme : Lexeme token.kind lexeme
  toEnd : token.kind.isComment = true → after = []

/-- The `k`th character of a line lies in the lexeme of the token. -/
def Holds (token : Token) (start : Position) (line : List Char) (k : Nat) : Prop :=
  ∃ before lexeme after, token.Stands start line before lexeme after ∧ before.length ≤ k ∧
    k < before.length + lexeme.length

theorem Lexeme.ne_nil {kind : Kind} {text : List Char} (lexeme : Lexeme kind text) : text ≠ [] := by
  cases lexeme with
  | mark mark => cases mark <;> simp [Mark.chars]
  | keyword keyword => cases keyword <;> simp [Keyword.spelling]
  | ident word free => rintro empty; rw [empty] at word; exact word
  | integer numeral => exact numeral.1
  | float number dotted => rintro empty; rw [empty] at number; exact number
  | comment blank starts => simp

theorem Lexeme.unique {kind : Kind} {text text' rest rest' : List Char} (lexeme : Lexeme kind text)
    (lexeme' : Lexeme kind text') (toEnd : kind.isComment = true → rest = [])
    (toEnd' : kind.isComment = true → rest' = []) (same : text ++ rest = text' ++ rest') :
    text = text' := by
  cases lexeme with
  | comment blank starts =>
    rw [toEnd rfl, toEnd' rfl, List.append_nil, List.append_nil] at same
    exact same
  | _ => cases lexeme'; rfl

variable {token : Token} {start : Position} {line before lexeme after : List Char}

theorem Lexeme.stands {kind : Kind} {text rest : List Char} (spells : Lexeme kind text)
    (toEnd : kind.isComment = true → rest = []) (pos : Position) :
    Stands ⟨kind, pos⟩ pos (text ++ rest) [] text rest :=
  ⟨rfl, rfl, spells, toEnd⟩

theorem Lexeme.column_lt {kind : Kind} {text : List Char} (spells : Lexeme kind text)
    (pos : Position) : pos.column < (pos.after text).column :=
  Nat.lt_add_of_pos_right (byteSize_pos spells.ne_nil)

theorem Stands.unique {before' lexeme' after' : List Char}
    (stands : token.Stands start line before lexeme after)
    (stands' : token.Stands start line before' lexeme' after') :
    before = before' ∧ lexeme = lexeme' := by
  have same := stands.whole.symm.trans stands'.whole
  obtain rfl := eq_of_byteSize_eq same (Position.after_inj (stands.pos.symm.trans stands'.pos))
  exact ⟨rfl, stands.lexeme.unique stands'.lexeme stands.toEnd stands'.toEnd
    (List.append_cancel_left same)⟩

theorem Stands.holds_iff (stands : token.Stands start line before lexeme after) (k : Nat) :
    token.Holds start line k ↔ before.length ≤ k ∧ k < before.length + lexeme.length := by
  constructor
  · rintro ⟨_, _, _, other, inside⟩
    obtain ⟨rfl, rfl⟩ := stands.unique other
    exact inside
  · exact fun inside => ⟨before, lexeme, after, stands, inside⟩

theorem Stands.prepend {front : List Char}
    (stands : token.Stands (start.after front) line before lexeme after) :
    token.Stands start (front ++ line) (front ++ before) lexeme after where
  whole := by rw [stands.whole, List.append_assoc]
  pos := by rw [stands.pos, Position.after_append]
  lexeme := stands.lexeme
  toEnd := stands.toEnd

theorem Stands.line_eq (stands : token.Stands start line before lexeme after) :
    token.pos.line = start.line := by
  rw [stands.pos]
  rfl

theorem Stands.column_lt (stands : token.Stands start line before lexeme after) :
    start.column ≤ token.pos.column ∧ token.pos.column < start.column + byteSize line := by
  have size := byteSize_pos stands.lexeme.ne_nil
  rw [stands.pos, stands.whole, byteSize_append, byteSize_append, Position.after]
  dsimp only
  omega

/-! ### The parts of a line -/

/-- A text that begins at `pos` is made up of blanks, lexemes and stray characters, and the scan
holds what they contribute. -/
inductive Scanned : Position → List Char → Scan → Prop where
  | done (pos : Position) : Scanned pos [] {}
  | blank {pos : Position} {c : Char} {rest : List Char} {scan : Scan} (blank : isBlank c = true)
    (later : Scanned (pos.after [c]) rest scan) : Scanned pos (c :: rest) scan
  | token {pos : Position} {kind : Kind} {text rest : List Char} {scan : Scan}
    (lexeme : Lexeme kind text) (toEnd : kind.isComment = true → rest = [])
    (later : Scanned (pos.after text) rest scan) :
    Scanned pos (text ++ rest) (((Piece.token kind).scan pos).append scan)
  | stray {pos : Position} {c : Char} {rest : List Char} {scan : Scan} (solid : isBlank c = false)
    (later : Scanned (pos.after [c]) rest scan) :
    Scanned pos (c :: rest) (((Piece.stray c).scan pos).append scan)

theorem Cut.Sound.scanned {cut : Cut} {pos : Position} {scan : Scan} (sound : cut.Sound)
    (later : Scanned (pos.after cut.text) cut.rest scan) :
    Scanned pos (cut.text ++ cut.rest) ((cut.piece.scan pos).append scan) := by
  cases sound with
  | blank blank => exact .blank blank later
  | token lexeme toEnd => exact .token lexeme toEnd later
  | stray solid => exact .stray solid later

theorem scanned_scanFrom (pos : Position) (text : List Char) :
    Scanned pos text (scanFrom pos text) := by
  induction pos, text using scanFrom.induct with
  | case1 pos =>
    rw [scanFrom]
    exact .done pos
  | case2 pos c rest cut ih =>
    rw [scanFrom, ← Cut.text_append_rest c rest]
    exact (Cut.first_sound c rest).scanned ih

theorem tokens_scan_token (kind : Kind) (pos : Position) :
    ((Piece.token kind).scan pos).tokens = [⟨kind, pos⟩] := by
  cases kind <;> rfl

theorem errors_scan_token {kind : Kind} {pos : Position} {d : Diagnostic}
    (member : d ∈ ((Piece.token kind).scan pos).errors) :
    ∃ text, kind = .float text ∧ d = .extraDot pos := by
  cases kind with
  | float text => exact ⟨text, rfl, List.eq_of_mem_replicate member⟩
  | _ => cases member

variable {pos : Position} {text : List Char} {scan : Scan}

theorem Scanned.stands (scanned : Scanned pos text scan) : ∀ token ∈ scan.tokens,
    ∃ before lexeme after, token.Stands pos text before lexeme after := by
  induction scanned with
  | done pos => simp
  | @blank pos c rest scan blank later ih =>
    intro token member
    obtain ⟨before, lexeme, after, stands⟩ := ih token member
    exact ⟨[c] ++ before, lexeme, after, stands.prepend⟩
  | @token pos kind text rest scan lexeme toEnd later ih =>
    intro token member
    rcases List.mem_append.mp member with here | behind
    · rw [tokens_scan_token, List.mem_singleton] at here
      subst here
      exact ⟨[], text, rest, lexeme.stands toEnd pos⟩
    · obtain ⟨before, lexeme, after, stands⟩ := ih token behind
      exact ⟨text ++ before, lexeme, after, stands.prepend⟩
  | @stray pos c rest scan solid later ih =>
    intro token member
    obtain ⟨before, lexeme, after, stands⟩ := ih token member
    exact ⟨[c] ++ before, lexeme, after, stands.prepend⟩

theorem Scanned.line_eq (scanned : Scanned pos text scan) :
    ∀ token ∈ scan.tokens, token.pos.line = pos.line := by
  intro token member
  obtain ⟨before, lexeme, after, stands⟩ := scanned.stands token member
  exact stands.line_eq

theorem Scanned.column_lt (scanned : Scanned pos text scan) : ∀ token ∈ scan.tokens,
    pos.column ≤ token.pos.column ∧ token.pos.column < pos.column + byteSize text := by
  intro token member
  obtain ⟨before, lexeme, after, stands⟩ := scanned.stands token member
  exact stands.column_lt

theorem Scanned.ordered (scanned : Scanned pos text scan) :
    scan.tokens.Pairwise fun token later => token.pos.Before later.pos := by
  induction scanned with
  | done pos => exact .nil
  | blank blank later ih => exact ih
  | @token pos kind text rest scan lexeme toEnd later ih =>
    refine List.pairwise_append.mpr ⟨?_, ih, fun first here token member => ?_⟩
    · rw [tokens_scan_token]
      exact List.pairwise_singleton _ _
    · rw [tokens_scan_token, List.mem_singleton] at here
      subst here
      have further := (later.column_lt token member).1
      exact Or.inr ⟨(later.line_eq token member).symm,
        Nat.lt_of_lt_of_le (lexeme.column_lt pos) further⟩
  | stray solid later ih => exact ih

/-! ### What is reported -/

def ReportsStray (start : Position) (line : List Char) (d : Diagnostic) : Prop :=
  ∃ front c back, line = front ++ c :: back ∧ isBlank c = false ∧
    d = .strayCharacter c (start.after front)

def ReportsDot (tokens : List Token) (d : Diagnostic) : Prop :=
  ∃ token ∈ tokens, ∃ text, token.kind = .float text ∧ d = .extraDot token.pos

theorem ReportsStray.prepend {start : Position} {front line : List Char} {d : Diagnostic}
    (reports : ReportsStray (start.after front) line d) : ReportsStray start (front ++ line) d := by
  obtain ⟨before, c, back, rfl, solid, rfl⟩ := reports
  exact ⟨front ++ before, c, back, by rw [List.append_assoc], solid, by rw [Position.after_append]⟩

theorem ReportsDot.mono {tokens tokens' : List Token} {d : Diagnostic}
    (reports : ReportsDot tokens d) (subset : tokens ⊆ tokens') : ReportsDot tokens' d := by
  obtain ⟨token, member, float⟩ := reports
  exact ⟨token, subset member, float⟩

theorem Scanned.reports (scanned : Scanned pos text scan) :
    ∀ d ∈ scan.errors, ReportsStray pos text d ∨ ReportsDot scan.tokens d := by
  induction scanned with
  | done pos => simp
  | @blank pos c rest scan blank later ih =>
    intro d member
    exact (ih d member).imp_left fun reports => reports.prepend
  | @token pos kind text rest scan lexeme toEnd later ih =>
    intro d member
    rcases List.mem_append.mp member with here | behind
    · obtain ⟨text, float, rfl⟩ := errors_scan_token here
      refine Or.inr ⟨⟨kind, pos⟩, List.mem_append_left _ ?_, text, float, rfl⟩
      rw [tokens_scan_token]
      exact List.mem_singleton.mpr rfl
    · exact (ih d behind).imp ReportsStray.prepend
        fun reports => reports.mono (List.subset_append_right _ _)
  | @stray pos c rest scan solid later ih =>
    intro d member
    rcases List.mem_append.mp member with here | behind
    · exact Or.inl ⟨[], c, rest, rfl, solid, List.mem_singleton.mp here⟩
    · exact (ih d behind).imp_left fun reports => reports.prepend

theorem Scanned.position (scanned : Scanned pos text scan) : ∀ d ∈ scan.errors,
    ∃ place, d.position? = some place ∧ place.line = pos.line ∧ pos.column ≤ place.column := by
  intro d member
  rcases scanned.reports d member with ⟨front, c, back, _, _, rfl⟩ | ⟨token, found, _, _, rfl⟩
  · exact ⟨pos.after front, rfl, rfl, Nat.le_add_right _ _⟩
  · exact ⟨token.pos, rfl, scanned.line_eq token found, (scanned.column_lt token found).1⟩

theorem Scanned.count_eq_zero (scanned : Scanned pos text scan) {d : Diagnostic} {place : Position}
    (stands : d.position? = some place)
    (elsewhere : place.line ≠ pos.line ∨ place.column < pos.column) : scan.errors.count d = 0 := by
  rw [List.count_eq_zero]
  intro member
  obtain ⟨_, found, line, column⟩ := scanned.position d member
  cases stands.symm.trans found
  omega

/-- A float with `d` dots is reported `d - 1` times, at its start. -/
def DotsReported (errors : List Diagnostic) (token : Token) : Prop :=
  ∀ text, token.kind = .float text →
    errors.count (.extraDot token.pos) = text.toList.count '.' - 1

theorem Scanned.dots (scanned : Scanned pos text scan) :
    ∀ token ∈ scan.tokens, DotsReported scan.errors token := by
  induction scanned with
  | done pos => simp
  | blank blank later ih => exact ih
  | @token pos kind lexeme rest scan spells toEnd later ih =>
    have further := spells.column_lt pos
    intro token member text float
    rw [Scan.append, List.count_append]
    rcases List.mem_append.mp member with here | behind
    · rw [tokens_scan_token, List.mem_singleton] at here
      subst here
      cases float
      rw [later.count_eq_zero rfl (Or.inr further), Piece.scan, List.count_replicate_self,
        Nat.add_zero]
    · have first : ((Piece.token kind).scan pos).errors.count (.extraDot token.pos) = 0 := by
        rw [List.count_eq_zero]
        intro reported
        obtain ⟨_, _, same⟩ := errors_scan_token reported
        have start : token.pos = pos := by injection same
        have column := (later.column_lt token behind).1
        rw [start] at column
        omega
      rw [first, ih token behind text float, Nat.zero_add]
  | stray solid later ih =>
    intro token member text float
    rw [Scan.append, List.count_append, ih token member text float]
    simp [Piece.scan]

/-! ### Every character is accounted for -/

/-- The character `c` behind `front` lies in the lexeme of one token, or it is reported once. -/
def Accounted (scan : Scan) (start : Position) (line front : List Char) (c : Char) : Prop :=
  (∃! token, token ∈ scan.tokens ∧ token.Holds start line front.length) ∧
      (∀ d, scan.errors.count (.strayCharacter d (start.after front)) = 0) ∨
    (¬∃ token, token ∈ scan.tokens ∧ token.Holds start line front.length) ∧
      ∀ d, scan.errors.count (.strayCharacter d (start.after front)) = if d = c then 1 else 0

theorem Accounted.congr {scan scan' : Scan} {start start' : Position}
    {line line' front front' : List Char} {c : Char} (accounted : Accounted scan start line front c)
    (tokens : ∀ token, token ∈ scan'.tokens ∧ token.Holds start' line' front'.length ↔
      token ∈ scan.tokens ∧ token.Holds start line front.length)
    (errors : ∀ d, scan'.errors.count (.strayCharacter d (start'.after front')) =
      scan.errors.count (.strayCharacter d (start.after front))) :
    Accounted scan' start' line' front' c := by
  unfold Accounted
  simp only [tokens, errors]
  exact accounted

theorem Scanned.holds_behind {front rest : List Char} (later : Scanned (pos.after front) rest scan)
    (k : Nat) : ∀ token ∈ scan.tokens,
      (token.Holds pos (front ++ rest) (front.length + k) ↔
        token.Holds (pos.after front) rest k) := by
  intro token member
  obtain ⟨before, lexeme, after, stands⟩ := later.stands token member
  rw [stands.holds_iff, stands.prepend.holds_iff, List.length_append]
  omega

theorem Scanned.not_holds_front {front rest : List Char}
    (later : Scanned (pos.after front) rest scan) {k : Nat} (inside : k < front.length) :
    ∀ token ∈ scan.tokens, ¬ token.Holds pos (front ++ rest) k := by
  intro token member
  obtain ⟨before, lexeme, after, stands⟩ := later.stands token member
  rw [stands.prepend.holds_iff, List.length_append]
  omega

theorem count_stray_scan_token (kind : Kind) (pos place : Position) (d : Char) :
    ((Piece.token kind).scan pos).errors.count (.strayCharacter d place) = 0 := by
  rw [List.count_eq_zero]
  intro reported
  obtain ⟨_, _, same⟩ := errors_scan_token reported
  cases same

-- A first piece that says nothing about a place behind it leaves that place as it was.
theorem Accounted.behind {piece : Scan} {part rest front : List Char} {c : Char}
    (accounted : Accounted scan (pos.after part) rest front c)
    (later : Scanned (pos.after part) rest scan)
    (tokens : ∀ token ∈ piece.tokens, ¬ token.Holds pos (part ++ rest) (part ++ front).length)
    (errors : ∀ d, piece.errors.count (.strayCharacter d (pos.after (part ++ front))) = 0) :
    Accounted (piece.append scan) pos (part ++ rest) (part ++ front) c := by
  refine accounted.congr (fun token => ⟨?_, ?_⟩) fun d => ?_
  · rintro ⟨member, holds⟩
    rcases List.mem_append.mp member with first | behind
    · exact absurd holds (tokens token first)
    · rw [List.length_append] at holds
      exact ⟨behind, (later.holds_behind front.length token behind).mp holds⟩
  · rintro ⟨behind, holds⟩
    rw [List.length_append]
    exact ⟨List.mem_append_right _ behind, (later.holds_behind front.length token behind).mpr holds⟩
  · rw [Scan.append, List.count_append, errors d, Nat.zero_add, Position.after_append]

theorem Scanned.accounted_token {kind : Kind} {lexeme rest front : List Char} {c : Char}
    {inner : List Char} (spells : Lexeme kind lexeme) (toEnd : kind.isComment = true → rest = [])
    (later : Scanned (pos.after lexeme) rest scan) (inside : lexeme = front ++ c :: inner) :
    Accounted (((Piece.token kind).scan pos).append scan) pos (lexeme ++ rest) front c := by
  have within : front.length < lexeme.length := by
    rw [inside, List.length_append, List.length_cons]
    omega
  refine Or.inl ⟨⟨⟨kind, pos⟩, ⟨?_, ?_⟩, ?_⟩, fun d => ?_⟩
  · rw [Scan.append, tokens_scan_token]
    exact List.mem_cons_self
  · rw [(spells.stands toEnd pos).holds_iff, List.length_nil]
    omega
  · rintro token ⟨member, holds⟩
    rw [Scan.append, tokens_scan_token] at member
    rcases List.mem_cons.mp member with first | behind
    · exact first
    · exact absurd holds (later.not_holds_front within token behind)
  · have left : (pos.after front).column < (pos.after lexeme).column := by
      rw [inside, Position.after_append]
      exact Nat.lt_add_of_pos_right (byteSize_pos (List.cons_ne_nil c inner))
    rw [Scan.append, List.count_append, count_stray_scan_token,
      later.count_eq_zero rfl (Or.inr left)]

theorem Scanned.accounted_stray {rest : List Char} {c : Char}
    (later : Scanned (pos.after [c]) rest scan) :
    Accounted (((Piece.stray c).scan pos).append scan) pos ([c] ++ rest) [] c := by
  refine Or.inr ⟨?_, fun d => ?_⟩
  · rintro ⟨token, member, holds⟩
    exact later.not_holds_front Nat.zero_lt_one token member holds
  · have left : pos.column < (pos.after [c]).column :=
      Nat.lt_add_of_pos_right (byteSize_pos (List.cons_ne_nil c []))
    rw [Scan.append, List.count_append, Position.after_nil,
      later.count_eq_zero rfl (Or.inr left), Piece.scan, List.count_singleton]
    by_cases same : d = c
    · simp [same]
    · simp [same, Ne.symm same]

theorem Scanned.accounted (scanned : Scanned pos text scan) : ∀ front c back,
    text = front ++ c :: back → isBlank c = false → Accounted scan pos text front c := by
  induction scanned with
  | done pos => simp
  | @blank pos first rest scan blank later ih =>
    intro front c back whole solid
    cases front with
    | nil =>
      cases whole
      rw [blank] at solid
      cases solid
    | cons _ front =>
      cases whole
      show Accounted (Scan.append {} scan) pos ([first] ++ _) ([first] ++ front) c
      exact (ih front c back rfl solid).behind later (by simp) (by simp)
  | @token pos kind lexeme rest scan spells toEnd later ih =>
    intro front c back whole solid
    rcases behind_or_inside whole with ⟨more, rfl, split⟩ | ⟨inner, inside⟩
    · refine (ih more c back split solid).behind later ?_
        fun d => count_stray_scan_token kind pos _ d
      rw [tokens_scan_token]
      intro token member
      rw [List.mem_singleton.mp member, (spells.stands toEnd pos).holds_iff, List.length_append,
        List.length_nil]
      omega
    · exact later.accounted_token spells toEnd inside
  | @stray pos first rest scan solid later ih =>
    intro front c back whole solid
    cases front with
    | nil =>
      cases whole
      exact later.accounted_stray
    | cons _ front =>
      cases whole
      show Accounted _ pos ([first] ++ _) ([first] ++ front) c
      refine (ih front c back rfl solid).behind later (by simp [Piece.scan]) fun d => ?_
      rw [Piece.scan, List.count_eq_zero]
      intro reported
      injection List.mem_singleton.mp reported with _ place
      exact Position.after_ne_self (List.cons_ne_nil first front) place

/-! ### The lines of a source text -/

theorem scanned_scanLine (file : String) (n : Nat) (line : String) :
    Scanned ⟨file, n, 1⟩ line.toList (scanLine file n line) :=
  scanned_scanFrom _ _

theorem Lexeme.ne_eof {kind : Kind} {lexeme : List Char} (spells : Lexeme kind lexeme) :
    kind ≠ .eof := by
  cases spells <;> simp

theorem Holds.ne_eof {k : Nat} (holds : token.Holds start line k) : token.kind ≠ .eof := by
  obtain ⟨_, _, _, stands, _⟩ := holds
  exact stands.lexeme.ne_eof

theorem Holds.line_eq {k : Nat} (holds : token.Holds start line k) :
    token.pos.line = start.line := by
  obtain ⟨_, _, _, stands, _⟩ := holds
  exact stands.line_eq

variable {file : String} {lines : List String}

theorem tokens_scanLine_subset (eof : Position) {n i : Nat} {text : String}
    (located : lines[i]? = some text) :
    (scanLine file (n + i) text).tokens ⊆ (scanLines file n eof lines).tokens := by
  induction lines generalizing n i eof with
  | nil => simp at located
  | cons first rest ih =>
    rw [scanLines, Scan.append]
    cases i with
    | zero =>
      cases located
      exact List.subset_append_left _ _
    | succ i =>
      have later := ih ⟨file, n, first.utf8ByteSize + 1⟩ (n := n + 1) (i := i) located
      rw [Nat.add_right_comm] at later
      exact List.subset_append_of_subset_right _ later

theorem exists_scanLine_of_mem {n : Nat} {eof : Position} :
    ∀ token ∈ (scanLines file n eof lines).tokens, token.kind ≠ .eof →
      ∃ i text, lines[i]? = some text ∧ token ∈ (scanLine file (n + i) text).tokens := by
  induction lines generalizing n eof with
  | nil =>
    intro token member solid
    rw [List.mem_singleton.mp member] at solid
    exact absurd rfl solid
  | cons first rest ih =>
    intro token member solid
    rcases List.mem_append.mp member with here | behind
    · exact ⟨0, first, rfl, here⟩
    · obtain ⟨i, text, located, found⟩ := ih token behind solid
      rw [Nat.add_right_comm] at found
      exact ⟨i + 1, text, located, found⟩

theorem exists_scanLine_of_mem_errors {n : Nat} {eof : Position} :
    ∀ d ∈ (scanLines file n eof lines).errors,
      ∃ i text, lines[i]? = some text ∧ d ∈ (scanLine file (n + i) text).errors := by
  induction lines generalizing n eof with
  | nil => simp [scanLines]
  | cons first rest ih =>
    intro d member
    rcases List.mem_append.mp member with here | behind
    · exact ⟨0, first, rfl, here⟩
    · obtain ⟨i, text, located, found⟩ := ih d behind
      rw [Nat.add_right_comm] at found
      exact ⟨i + 1, text, located, found⟩

theorem mem_scanLine_of_line {n i : Nat} {eof : Position} {text : String}
    (located : lines[i]? = some text) (member : token ∈ (scanLines file n eof lines).tokens)
    (solid : token.kind ≠ .eof) (here : token.pos.line = n + i) :
    token ∈ (scanLine file (n + i) text).tokens := by
  obtain ⟨j, other, other_at, found⟩ := exists_scanLine_of_mem token member solid
  have line := (scanned_scanLine file (n + j) other).line_eq token found
  obtain rfl : j = i := by
    dsimp only at line
    omega
  cases located.symm.trans other_at
  exact found

theorem count_errors_scanLines {n i : Nat} {eof place : Position} {text : String} {d : Diagnostic}
    (located : lines[i]? = some text) (stands : d.position? = some place)
    (here : place.line = n + i) :
    (scanLines file n eof lines).errors.count d = (scanLine file (n + i) text).errors.count d := by
  induction lines generalizing n i eof with
  | nil => simp at located
  | cons first rest ih =>
    rw [scanLines, Scan.append, List.count_append]
    cases i with
    | zero =>
      cases located
      -- What the later lines report stands on later lines.
      have later : ∀ eof, (scanLines file (n + 1) eof rest).errors.count d = 0 := by
        intro eof
        rw [List.count_eq_zero]
        intro member
        obtain ⟨j, other, _, found⟩ := exists_scanLine_of_mem_errors d member
        obtain ⟨_, same, line, _⟩ := (scanned_scanLine file (n + 1 + j) other).position d found
        cases stands.symm.trans same
        dsimp only at line
        omega
      rw [later, Nat.add_zero, Nat.add_zero]
    | succ i =>
      have none := (scanned_scanLine file n first).count_eq_zero stands (by dsimp only; omega)
      rw [none, Nat.zero_add, ih located (by omega), Nat.add_right_comm, Nat.add_assoc]

/-- The end of a file whose lines are numbered from `n`: behind the last of them, or at `eof` if
there is none. -/
def endOfFile (file : String) (n : Nat) (eof : Position) (lines : List String) : Position :=
  match lines.getLast? with
  | none => eof
  | some last => ⟨file, n + lines.length - 1, last.utf8ByteSize + 1⟩

theorem endOfFile_cons (n : Nat) (eof : Position) (first : String) (rest : List String) :
    endOfFile file n eof (first :: rest) =
      endOfFile file (n + 1) ⟨file, n, first.utf8ByteSize + 1⟩ rest := by
  cases rest with
  | nil => rfl
  | cons second rest =>
    simp only [endOfFile, List.getLast?_cons_cons, List.length_cons]
    split
    · next none => simp at none
    · rw [Nat.add_right_comm n 1, ← Nat.add_assoc n]

theorem scanLines_closed (n : Nat) (eof : Position) : ∃ front,
    (scanLines file n eof lines).tokens = front ++ [⟨.eof, endOfFile file n eof lines⟩] ∧
      ∀ token ∈ front, token.kind ≠ .eof := by
  induction lines generalizing n eof with
  | nil => exact ⟨[], rfl, by simp⟩
  | cons first rest ih =>
    obtain ⟨front, tokens, solid⟩ := ih (n + 1) ⟨file, n, first.utf8ByteSize + 1⟩
    refine ⟨(scanLine file n first).tokens ++ front, ?_, fun token member => ?_⟩
    · rw [scanLines, Scan.append, tokens, endOfFile_cons, List.append_assoc]
    · rcases List.mem_append.mp member with here | behind
      · obtain ⟨_, _, _, stands⟩ := (scanned_scanLine file n first).stands token here
        exact stands.lexeme.ne_eof
      · exact solid token behind

theorem pos_eq_endOfFile {n : Nat} {eof : Position}
    (member : token ∈ (scanLines file n eof lines).tokens) (last : token.kind = .eof) :
    token.pos = endOfFile file n eof lines := by
  obtain ⟨front, tokens, solid⟩ := @scanLines_closed file lines n eof
  rw [tokens] at member
  rcases List.mem_append.mp member with inFront | isLast
  · exact absurd last (solid token inFront)
  · rw [List.mem_singleton.mp isLast]

theorem before_endOfFile {n : Nat} {pos : Position} (first : String) (rest : List String)
    (line : pos.line = n) (column : pos.column < first.utf8ByteSize + 1) :
    pos.Before (endOfFile file (n + 1) ⟨file, n, first.utf8ByteSize + 1⟩ rest) := by
  unfold endOfFile
  split
  · exact Or.inr ⟨line, column⟩
  · next last found =>
    have := List.length_pos_of_mem (List.mem_of_getLast? found)
    refine Or.inl ?_
    dsimp only
    omega

theorem scanLines_ordered (n : Nat) (eof : Position) :
    (scanLines file n eof lines).tokens.Pairwise fun token later => token.pos.Before later.pos := by
  induction lines generalizing n eof with
  | nil => exact List.pairwise_singleton _ _
  | cons first rest ih =>
    have scanned := scanned_scanLine file n first
    refine List.pairwise_append.mpr ⟨scanned.ordered, ih _ _, fun token here later behind => ?_⟩
    have line := scanned.line_eq token here
    -- Only the end of the file can stand on the line of a token before it.
    by_cases last : later.kind = .eof
    · have column := (scanned.column_lt token here).2
      rw [byteSize_toList, Nat.add_comm] at column
      rw [pos_eq_endOfFile behind last]
      exact before_endOfFile first rest line column
    · obtain ⟨j, other, _, found⟩ := exists_scanLine_of_mem later behind last
      have further := (scanned_scanLine file (n + 1 + j) other).line_eq later found
      dsimp only at line further
      exact Or.inl (by omega)

theorem reports_scan {file source : String} {d : Diagnostic}
    (member : d ∈ (Token.scan file source).errors) :
    (∃ i line, (Text.lines source)[i]? = some line ∧ ReportsStray ⟨file, i + 1, 1⟩ line.toList d) ∨
      ReportsDot (Token.scan file source).tokens d := by
  obtain ⟨i, line, located, found⟩ := exists_scanLine_of_mem_errors d member
  rcases (scanned_scanLine file (1 + i) line).reports d found with stray | dot
  · rw [Nat.add_comm 1 i] at stray
    exact .inl ⟨i, line, located, stray⟩
  · exact .inr (dot.mono (tokens_scanLine_subset _ located))

/-- The scan of a source text with these lines loses nothing and invents nothing. -/
structure Scan.Faithful (scan : Scan) (file : String) (lines : List String) : Prop where
  chars : ∀ i line, lines[i]? = some line → ∀ front c back, line.toList = front ++ c :: back →
    isBlank c = false → Accounted scan ⟨file, i + 1, 1⟩ line.toList front c
  lexemes : ∀ token ∈ scan.tokens, token.kind ≠ .eof → ∃ i line before lexeme after,
    lines[i]? = some line ∧ token.Stands ⟨file, i + 1, 1⟩ line.toList before lexeme after
  reports : ∀ d ∈ scan.errors,
    (∃ i line, lines[i]? = some line ∧ ReportsStray ⟨file, i + 1, 1⟩ line.toList d) ∨
      ReportsDot scan.tokens d
  dots : ∀ token ∈ scan.tokens, DotsReported scan.errors token
  ordered : scan.tokens.Pairwise fun token later => token.pos.Before later.pos
  closed : ∃ front, scan.tokens = front ++ [⟨.eof, endOfFile file 1 ⟨file, 1, 1⟩ lines⟩] ∧
    ∀ token ∈ front, token.kind ≠ .eof

/-- Every character of a source text that is not blank lies in one lexeme or is reported once, every
token stands where its lexeme does, and the end of the file is the last token and the only one. -/
theorem scan_faithful (file source : String) :
    (Token.scan file source).Faithful file (Text.lines source) := by
  unfold Token.scan
  refine ⟨fun i line located front c back whole solid => ?_, fun token member solid => ?_,
    fun d => reports_scan, fun token member text float => ?_, scanLines_ordered 1 _,
    scanLines_closed 1 _⟩
  · -- What holds or reports a character of a line comes from the scan of that line.
    rw [Nat.add_comm i 1]
    have scanned := scanned_scanLine file (1 + i) line
    refine (scanned.accounted front c back whole solid).congr (fun token => ?_) fun d =>
      count_errors_scanLines located rfl rfl
    refine and_congr_left fun holds => ⟨fun member => ?_, fun member => ?_⟩
    · exact mem_scanLine_of_line located member holds.ne_eof holds.line_eq
    · exact tokens_scanLine_subset _ located member
  · obtain ⟨i, line, located, found⟩ := exists_scanLine_of_mem token member solid
    have scanned := scanned_scanLine file (1 + i) line
    obtain ⟨before, lexeme, after, stands⟩ := scanned.stands token found
    rw [Nat.add_comm 1 i] at stands
    exact ⟨i, line, before, lexeme, after, located, stands⟩
  · have solid : token.kind ≠ .eof := by simp [float]
    obtain ⟨i, line, located, found⟩ := exists_scanLine_of_mem token member solid
    have scanned := scanned_scanLine file (1 + i) line
    rw [count_errors_scanLines located rfl (scanned.line_eq token found)]
    exact scanned.dots token found text float

example : Token.scan "f" "é 1.2.3 // x" =
    ⟨[⟨.float "1.2.3", ⟨"f", 1, 4⟩⟩, ⟨.comment "x", ⟨"f", 1, 10⟩⟩, ⟨.eof, ⟨"f", 1, 14⟩⟩],
      [.strayCharacter 'é' ⟨"f", 1, 1⟩, .extraDot ⟨"f", 1, 4⟩]⟩ := by
  decide +kernel

end Token

end IonLang
