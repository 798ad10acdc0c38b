import IonLang.Grammar.Definition
import IonLang.Node.Code

/-!
# Assembly of a program

The unit of a program reserves its storage, holds the code of its functions, and ends with the
start code, which calls the entry function and exits with status 0.
-/

namespace IonLang.Program

def entryName : String := "main"

/-- The storage of a program: the character cell, then one quadword for each variable. -/
def storage (program : Program) : List Line :=
  .reserve charCell .byte 1 ::
    program.vars.map fun var => .reserve var.id.label .qword 1

def functionCode (func : Function) : Except Diagnostic (List Line) := do
  let body ← Node.codeOption func.body
  .ok ([.label func.id.label (some func.name)] ++ body ++ [.inst .ret])

def functionsCode : List Function → Except Diagnostic (List Line)
  | [] => .ok []
  | func :: rest => do
    let first ← functionCode func
    let rest ← functionsCode rest
    .ok (first ++ rest)

def startCode (entry : FuncId) : List Line :=
  [.directive "global _start", .plainLabel "_start", .inst (.call entry.label),
    .plainLabel "exit", Snippet.mov (.reg .rax) (.imm "60"), Snippet.mov (.reg .rdi) (.imm "0"),
    .inst .syscall]

def assemble (program : Program) : Except Diagnostic Assembly :=
  match program.findFunction? entryName with
  | none => .error .missingEntryPoint
  | some entry => do
    let functions ← functionsCode program.functions
    .ok ⟨[.directive "BITS 64", .directive "segment .bss"] ++ program.storage ++
      [.directive "segment .text"] ++ functions ++ startCode entry.id⟩

/-- Compiles a source text. Code is made only if nothing at all was reported. -/
def compile (file source : String) : Except (List Diagnostic) Assembly :=
  match ofSource file source with
  | (some program, []) => program.assemble.mapError fun diagnostic => [diagnostic]
  | (_, errors) => .error errors

theorem compile_eq_ok {file source : String} {code : Assembly} (compiled : compile file source = .ok code) :
    ∃ program, ofSource file source = (some program, []) ∧ program.assemble = .ok code := by
  unfold compile at compiled
  split at compiled
  · next program parsed =>
    refine ⟨program, parsed, ?_⟩
    cases assembled : program.assemble with
    | error diagnostic =>
      rw [assembled] at compiled
      cases compiled
    | ok unit =>
      rw [assembled] at compiled
      cases compiled
      rfl
  · cases compiled

theorem exists_code {file source : String} (isOk : (compile file source).isOk = true) :
    ∃ code, compile file source = .ok code := by
  cases compiled : compile file source with
  | ok code => exact ⟨code, rfl⟩
  | error errors =>
    rw [compiled] at isOk
    cases isOk

end IonLang.Program
