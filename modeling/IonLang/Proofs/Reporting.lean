import IonLang.Program.Assemble
import IonLang.Proofs.Grammar.Progress

/-!
# What a compilation reports

Scanning and parsing record diagnostics that are not fatal. A fatal one ends the pass, so it is the
last one, and a pass that it ends has no program. A compilation that fails says why.
-/

namespace IonLang

def Diagnostic.Recoverable (errors : List Diagnostic) : Prop := ∀ d ∈ errors, d.isFatal = false

namespace Diagnostic.Recoverable

theorem append {front back : List Diagnostic} (first : Recoverable front) (second : Recoverable back) :
    Recoverable (front ++ back) := by
  intro d member
  rcases List.mem_append.mp member with found | found
  · exact first d found
  · exact second d found

theorem singleton {d : Diagnostic} (mild : d.isFatal = false) : Recoverable [d] := by
  intro other member
  rw [List.mem_singleton.mp member]
  exact mild

end Diagnostic.Recoverable

namespace Token

open Diagnostic (Recoverable)

theorem recoverable_piece (pos : Position) (piece : Piece) : Recoverable (piece.scan pos).errors := by
  unfold Piece.scan
  split
  · intro d member
    cases member
  · exact .singleton rfl
  · intro d member
    rw [List.eq_of_mem_replicate member]
    rfl
  · intro d member
    cases member

theorem recoverable_scanFrom (pos : Position) (text : List Char) :
    Recoverable (scanFrom pos text).errors := by
  fun_induction scanFrom pos text with
  | case1 => intro d member; cases member
  | case2 pos c rest cut ih => exact (recoverable_piece pos cut.piece).append ih

theorem recoverable_scanLines (file : String) (lines : List String) (line : Nat) (eof : Position) :
    Recoverable (scanLines file line eof lines).errors := by
  induction lines generalizing line eof with
  | nil => intro d member; cases member
  | cons text rest ih =>
    exact (recoverable_scanFrom ⟨file, line, 1⟩ text.toList).append (ih _ _)

end Token

namespace Grammar

open Diagnostic (Recoverable)

theorem recoverable_relation :
    DefinitionRelation fun s s' => Recoverable s.errors → Recoverable s'.errors :=
  .of_reading (fun first second => second ∘ first) (fun s recoverable => by rwa [next_errors])
    (fun _ _ mild recoverable => recoverable.append (.singleton mild))
    fun _ _ _ errors recoverable => by rwa [errors]

end Grammar

namespace Program

open Diagnostic (Recoverable)
open Grammar (State)

/-- A program comes with recoverable diagnostics only, and no program with a single fatal one, which
is the last. -/
def Settled : Option Program × List Diagnostic → Prop
  | (some _, errors) => Recoverable errors
  | (none, errors) => ∃ recovered fatal, errors = recovered ++ [fatal] ∧ fatal.isFatal = true ∧
      Recoverable recovered

theorem settled_ofTokens (tokens : List Token) : Settled (ofTokens tokens) := by
  have ends := Grammar.Ends.definitions (State.ofTokens tokens)
  have kept := Grammar.recoverable_relation.definitions
  have start : Recoverable (State.ofTokens tokens).errors := fun d member => by cases member
  unfold ofTokens State.parse
  cases run : Grammar.definitions (State.ofTokens tokens) with
  | ok value s => exact kept.of_ok run start
  | error stop s =>
    rw [run] at ends
    obtain ⟨fatal, rfl, isFatal⟩ := ends
    exact ⟨s.errors, fatal, rfl, isFatal, kept.of_error run start⟩

theorem Settled.scanned {errors : List Diagnostic} {parsed : Option Program × List Diagnostic}
    (recoverable : Recoverable errors) (settled : Settled parsed) :
    Settled (parsed.1, errors ++ parsed.2) := by
  obtain ⟨program, reported⟩ := parsed
  cases program with
  | some program => exact recoverable.append settled
  | none =>
    obtain ⟨recovered, fatal, rfl, isFatal, mild⟩ := settled
    exact ⟨errors ++ recovered, fatal, (List.append_assoc _ _ _).symm, isFatal, recoverable.append mild⟩

theorem settled_ofSource (file source : String) : Settled (ofSource file source) :=
  (settled_ofTokens _).scanned (Token.recoverable_scanLines file _ 1 _)

theorem Settled.none_iff {parsed : Option Program × List Diagnostic} (settled : Settled parsed) :
    parsed.1 = none ↔ ∃ d ∈ parsed.2, d.isFatal = true := by
  obtain ⟨program, errors⟩ := parsed
  cases program with
  | some program =>
    refine iff_of_false (by simp) ?_
    rintro ⟨d, member, isFatal⟩
    rw [settled d member] at isFatal
    cases isFatal
  | none =>
    obtain ⟨recovered, fatal, rfl, isFatal, _⟩ := settled
    exact iff_of_true rfl ⟨fatal, by simp, isFatal⟩

theorem Settled.errors_ne_nil {errors : List Diagnostic} (settled : Settled (none, errors)) :
    errors ≠ [] := by
  obtain ⟨recovered, fatal, rfl, _⟩ := settled
  simp

/-- A pass has no program exactly if it met a fatal diagnostic, which is then the only one and the
last. Diagnostics of the scan come before those of the parse, a compilation that fails reports
something, and one that succeeds has reported nothing. -/
theorem ofSource_fatal_last (file source : String) :
    ((ofSource file source).1 = none ↔ ∃ d ∈ (ofSource file source).2, d.isFatal = true) ∧
    ((ofSource file source).1 = none → ∃ recovered fatal,
      (ofSource file source).2 = recovered ++ [fatal] ∧ fatal.isFatal = true ∧
        ∀ d ∈ recovered, d.isFatal = false) ∧
    (ofSource file source).2 =
      (Token.scan file source).errors ++ (ofTokens (Token.scan file source).tokens).2 ∧
    (∀ errors, compile file source = .error errors → errors ≠ []) ∧
    ∀ code, compile file source = .ok code → (ofSource file source).2 = [] := by
  have settled := settled_ofSource file source
  refine ⟨settled.none_iff, ?_, rfl, ?_, ?_⟩
  · intro missing
    have stopped : Settled (none, (ofSource file source).2) := missing ▸ settled
    exact stopped
  · intro errors failed
    unfold compile at failed
    split at failed
    · next program _ =>
      cases assembled : program.assemble with
      | ok code => rw [assembled] at failed; cases failed
      | error reason => rw [assembled] at failed; cases failed; simp
    · next program reported notQuiet parsed =>
      cases failed
      rintro rfl
      cases program with
      | some program => exact notQuiet program rfl rfl
      | none => exact (parsed ▸ settled).errors_ne_nil rfl
  · intro code compiled
    unfold compile at compiled
    split at compiled
    · next parsed => rw [parsed]
    · cases compiled

/-- A stray character and an unknown variable are reported before a division ends the pass, a
program without an entry function is refused, and an empty entry function is compiled. -/
theorem ofSource_fatal_last_division :
    (ofSource "a" "@ void main() y / 2;").1 = none ∧
      (ofSource "a" "@ void main() y / 2;").2.length = 3 ∧
      (∃ recovered fatal, (ofSource "a" "@ void main() y / 2;").2 = recovered ++ [fatal] ∧
        fatal.isFatal = true ∧ ∀ d ∈ recovered, d.isFatal = false) ∧
      (∃ errors, compile "a" "void f() ;" = .error errors ∧ errors ≠ []) ∧
      ∃ code, compile "a" "void main() ;" = .ok code ∧ (ofSource "a" "void main() ;").2 = [] := by
  have stopped : (ofSource "a" "@ void main() y / 2;").1.isNone = true := by decide +kernel
  have refused : (compile "a" "void f() ;").isOk = false := by decide +kernel
  have accepted : (compile "a" "void main() ;").isOk = true := by decide +kernel
  rw [Option.isNone_iff_eq_none] at stopped
  obtain ⟨-, last, -⟩ := ofSource_fatal_last "a" "@ void main() y / 2;"
  obtain ⟨-, -, -, reported, -⟩ := ofSource_fatal_last "a" "void f() ;"
  obtain ⟨-, -, -, -, quiet⟩ := ofSource_fatal_last "a" "void main() ;"
  refine ⟨stopped, by decide +kernel, last stopped, ?_, ?_⟩
  · cases failed : compile "a" "void f() ;" with
    | ok code => rw [failed] at refused; cases refused
    | error errors => exact ⟨errors, rfl, reported errors failed⟩
  · cases compiled : compile "a" "void main() ;" with
    | ok code => exact ⟨code, rfl, quiet code compiled⟩
    | error errors => rw [compiled] at accepted; cases accepted

end Program

end IonLang
