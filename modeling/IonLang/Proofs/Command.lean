import IonLang.Command.Compiler
import IonLang.Proofs.Directory
import IonLang.Proofs.Sequence

/-!
# The compiler command

The command does what `Program.compile` says: on errors it prints their reports and touches no file,
otherwise it writes the assembly text and the symbol map where the paths lead. Whether it prints
listings makes no difference to its status and its files (`action_alike`).
-/

namespace IonLang.Command

/-! ### Actions up to what they print -/

variable {α β : Type}

/-- The end of an action without the streams. -/
def muted : EStateM.Result UInt32 Console α → Except UInt32 α × Directory
  | .ok value console => (.ok value, console.dir)
  | .error status console => (.error status, console.dir)

/-- On the same files both actions come to the same end, whatever has been printed. -/
def Alike (first second : Action α) : Prop :=
  ∀ console console' : Console, console.dir = console'.dir →
    muted (first console) = muted (second console')

namespace Alike

theorem pure (value : α) : Alike (Pure.pure value) (Pure.pure value) := by
  intro console console' same
  exact congrArg (Prod.mk _) same

theorem say (text text' : String) : Alike (Command.say text) (Command.say text') := by
  intro console console' same
  exact congrArg (Prod.mk _) same

/-- Both return the same value or end with the same status, on the same files. -/
theorem cases {first second : Action α} (alike : Alike first second) {console console' : Console}
    (same : console.dir = console'.dir) :
    (∃ value after after', first console = .ok value after ∧ second console' = .ok value after' ∧
      after.dir = after'.dir) ∨
    ∃ status after after', first console = .error status after ∧
      second console' = .error status after' ∧ after.dir = after'.dir := by
  have ends := alike console console' same
  cases done : first console with
  | ok value after =>
    cases done' : second console' with
    | ok value' after' =>
      simp only [done, done', muted, Prod.mk.injEq, Except.ok.injEq] at ends
      obtain ⟨rfl, dirs⟩ := ends
      exact .inl ⟨value, after, after', rfl, rfl, dirs⟩
    | error status' after' => simp [done, done', muted] at ends
  | error status after =>
    cases done' : second console' with
    | ok value' after' => simp [done, done', muted] at ends
    | error status' after' =>
      simp only [done, done', muted, Prod.mk.injEq, Except.error.injEq] at ends
      obtain ⟨rfl, dirs⟩ := ends
      exact .inr ⟨status, after, after', rfl, rfl, dirs⟩

theorem bind {first second : Action α} {next next' : α → Action β} (alike : Alike first second)
    (rest : ∀ value, Alike (next value) (next' value)) :
    Alike (first >>= next) (second >>= next') := by
  intro console console' same
  simp only [Bind.bind, EStateM.bind]
  rcases alike.cases same with ⟨value, after, after', done, done', dirs⟩ |
    ⟨status, after, after', done, done', dirs⟩
  · rw [done, done']
    exact rest value after after' dirs
  · rw [done, done']
    exact congrArg (Prod.mk _) dirs

theorem get {next next' : Console → Action α}
    (rest : ∀ console console', console.dir = console'.dir →
      Alike (next console) (next' console')) :
    Alike (MonadState.get >>= next) (MonadState.get >>= next') :=
  fun console console' same => rest console console' same console console' same

theorem perform {first second : Action Unit} (alike : Alike first second) (dir : Directory) :
    (Command.perform dir first).status = (Command.perform dir second).status ∧
      (Command.perform dir first).console.dir = (Command.perform dir second).console.dir := by
  unfold Command.perform
  rcases alike.cases (rfl : Console.dir { dir } = Console.dir { dir }) with
    ⟨value, after, after', done, done', dirs⟩ | ⟨status, after, after', done, done', dirs⟩
  · rw [done, done']
    exact ⟨rfl, dirs⟩
  · rw [done, done']
    exact ⟨rfl, dirs⟩

end Alike

namespace Compiler

theorem alike_fail (sources : SourceLines) (errors : List Diagnostic) :
    Alike (fail sources errors : Action α) (fail sources errors) := by
  intro console console' same
  exact congrArg (Prod.mk _) same

theorem alike_require (sources : SourceLines) (result : Except Diagnostic α) :
    Alike (require sources result) (require sources result) := by
  cases result with
  | ok value => exact .pure value
  | error diagnostic => exact alike_fail sources [diagnostic]

theorem alike_parse (sources : SourceLines) (file source : String) :
    Alike (parse sources file source) (parse sources file source) := by
  unfold parse
  split
  · exact .pure _
  · exact alike_fail _ _

/-- Only one of the two may print a listing. -/
theorem alike_list (verbose verbose' : Bool) (listing : String) :
    Alike (list verbose listing) (list verbose' listing) := by
  intro console console' same
  cases verbose <;> cases verbose' <;> exact congrArg (Prod.mk _) same

theorem alike_writeFile (sources : SourceLines) (path text : String) :
    Alike (writeFile sources path text) (writeFile sources path text) := by
  refine .bind (.say _ _) fun _ => .get fun console console' same => ?_
  rw [same]
  exact .bind (alike_require _ _) fun dir _ _ _ => rfl

/-- The flag for listings changes nothing but what is printed. -/
theorem action_alike {args args' : Arguments} (other : args'.other = args.other)
    (values : ∀ name, name ≠ "verbose" → args'.value? name = args.value? name) :
    Alike (action args) (action args') := by
  have input' : input args' = input args := by rw [input, other, input]
  have output' (settings : Settings) : outputPath args' settings = outputPath args settings := by
    rw [outputPath, values "output" (by decide), input', outputPath]
  have symbols' (settings : Settings) : symbolsPath args' settings = symbolsPath args settings := by
    rw [symbolsPath, values "symbols" (by decide), symbolsPath]
  have finishes (settings : Settings) (sources : SourceLines) (program : Program) :
      Alike (finish args settings sources program) (finish args' settings sources program) := by
    unfold finish
    rw [output', symbols']
    refine .bind (alike_list _ _ _) fun _ => .bind (.say _ _) fun _ =>
      .bind (alike_require _ _) fun code => .bind (alike_list _ _ _) fun _ =>
      .bind (.say _ _) fun _ => .bind (alike_writeFile _ _ _) fun _ => ?_
    split
    · exact alike_writeFile _ _ _
    · exact .pure ()
  unfold action
  rw [values "config" (by decide), input']
  refine .bind (.say _ _) fun _ => .get fun console console' same => ?_
  rw [same]
  exact .bind (alike_require _ _) fun settings => .bind (.say _ _) fun _ =>
    .bind (alike_require _ _) fun source => .bind (.say _ _) fun _ =>
    .bind (alike_parse _ _ _) fun program => finishes settings _ program

/-! ### Runs -/

section Steps

variable (sources : SourceLines) (console : Console) (next : α → Action β)
  (resume : Unit → Action β)

theorem say_bind (text : String) :
    (say text >>= resume) console =
      resume () { console with stdout := console.stdout ++ text } := rfl

theorem list_bind (verbose : Bool) (listing : String) :
    (list verbose listing >>= resume) console =
      resume () { console with stdout := console.stdout ++ if verbose then listing else "" } := by
  cases verbose with
  | true => rfl
  | false =>
    simp only [Bool.false_eq_true, ↓reduceIte, String.append_empty]
    rfl

theorem get_bind (next : Console → Action β) :
    (MonadState.get >>= next) console = next console console := rfl

theorem require_ok_bind (value : α) :
    (require sources (.ok value) >>= next) console = next value console := rfl

theorem fail_bind (errors : List Diagnostic) :
    (fail sources errors >>= next) console =
      .error 1 { console with
        stdout := console.stdout ++ String.join (errors.map (Diagnostic.report sources))
        stderr := console.stderr ++ (Text.alarm "Compilation failed" ++ ": " ++
          toString errors.length ++ " error(s)\n") } := rfl

theorem require_error_bind (diagnostic : Diagnostic) :
    (require sources (.error diagnostic) >>= next) console =
      (fail sources [diagnostic] >>= next) console := rfl

theorem writeFile_run {path : String} {place : Directory.Place} (text : String)
    (writable : console.dir.Writable path place) :
    writeFile sources path text console =
      .ok () { console with
        dir := console.dir.store text.toUTF8 place
        stdout := console.stdout ++ ("  > " ++ path ++ "\n") } := by
  have written : (console.dir.writeText path text).mapError Diagnostic.fileAccess =
      .ok (console.dir.store text.toUTF8 place) := by
    rw [writable.writeText text]
    rfl
  simp only [writeFile, say_bind, get_bind, written, require_ok_bind]
  rfl

end Steps

variable {args : Arguments} {dir : Directory} {settings : Settings} {source : String}

def heading (args : Arguments) : String :=
  "Ion Compiler by kanade-k-1228\n" ++ ("1. Tokenize\n  < " ++ input args ++ "\n") ++ "2. Parse\n"

theorem action_run (loads : Settings.discover dir (args.value? "config") = .ok settings)
    (reads : dir.readText (input args) = .ok source) :
    action args { dir } =
      (parse (SourceLines.ofFile (input args) source) (input args) source >>=
        finish args settings (SourceLines.ofFile (input args) source))
        { dir, stdout := heading args } := by
  have found : (dir.readText (input args)).mapError Diagnostic.fileAccess = .ok source := by
    rw [reads]
    rfl
  simp only [action, say_bind, get_bind, loads, require_ok_bind, found, String.empty_append]
  rfl

def progress (args : Arguments) (settings : Settings) (source : String) : String :=
  heading args ++
    match Program.ofSource (input args) source with
    | (some program, []) =>
      (if isVerbose args settings then program.listing else "") ++ "3. Assemble\n"
    | _ => ""

theorem action_error (loads : Settings.discover dir (args.value? "config") = .ok settings)
    (reads : dir.readText (input args) = .ok source) {errors : List Diagnostic}
    (failed : Program.compile (input args) source = .error errors) :
    action args { dir } = .error 1
      { dir
        stdout := progress args settings source ++
          String.join (errors.map (Diagnostic.report (SourceLines.ofFile (input args) source)))
        stderr := Text.alarm "Compilation failed" ++ ": " ++ toString errors.length ++
          " error(s)\n" } := by
  rw [action_run loads reads]
  unfold Program.compile at failed
  unfold parse progress
  generalize Program.ofSource (input args) source = parsed at failed ⊢
  obtain ⟨made, reported⟩ := parsed
  cases made with
  | none =>
    cases failed
    simp only [fail_bind, String.append_empty, String.empty_append]
  | some program =>
    cases reported with
    | cons first rest =>
      cases failed
      simp only [fail_bind, String.append_empty, String.empty_append]
    | nil =>
      replace failed : program.assemble.mapError (fun diagnostic => [diagnostic]) = .error errors :=
        failed
      cases assembled : program.assemble with
      | ok code =>
        rw [assembled] at failed
        cases failed
      | error diagnostic =>
        rw [assembled] at failed
        cases failed
        simp only [pure_bind, finish, list_bind, say_bind, assembled, require_error_bind, fail_bind,
          String.append_assoc, String.empty_append]

def delivered (dir : Directory) (code : Assembly) (program : Program) (outputAt : Directory.Place)
    (symbolsAt : Option Directory.Place) : Directory :=
  let dir := dir.store code.render.toUTF8 outputAt
  match symbolsAt with
  | some place => dir.store (SymbolMap.ofProgram program).render.toUTF8 place
  | none => dir

theorem action_ok (loads : Settings.discover dir (args.value? "config") = .ok settings)
    (reads : dir.readText (input args) = .ok source) {code : Assembly} {program : Program}
    (compiled : Program.compile (input args) source = .ok code)
    (parsed : (Program.ofSource (input args) source).1 = some program)
    {outputAt symbolsAt : Directory.Place}
    (output : dir.Writable (outputPath args settings) outputAt)
    (symbols : ∀ path, symbolsPath args settings = some path → dir.Writable path symbolsAt) :
    ∃ console, action args { dir } = .ok () console ∧
      console.dir = delivered dir code program outputAt
        ((symbolsPath args settings).map fun _ => symbolsAt) := by
  obtain ⟨found, read, assembled⟩ := Program.compile_eq_ok compiled
  obtain rfl : found = program := by
    rw [read] at parsed
    exact Option.some.inj parsed
  rw [action_run loads reads]
  simp only [parse, read, pure_bind, finish, list_bind, say_bind, assembled, require_ok_bind]
  rw [bind_run (writeFile_run _ _ _ output)]
  cases wanted : symbolsPath args settings with
  | none => exact ⟨_, rfl, rfl⟩
  | some path =>
    have still := (symbols path wanted).store output code.render.toUTF8
    exact ⟨_, writeFile_run _ _ _ still, rfl⟩

/-- What the command leaves in its files. -/
theorem delivered_files {code : Assembly} {program : Program} {output : String}
    {symbols : Option String} {outputAt symbolsAt : Directory.Place}
    (outputs : dir.Writable output outputAt)
    (maps : ∀ path, symbols = some path → dir.Writable path symbolsAt ∧
      ∀ key, outputAt = .file key → symbolsAt ≠ .file key) :
    let after := delivered dir code program outputAt (symbols.map fun _ => symbolsAt)
    (∀ key, outputAt = .file key → after.read output = .ok code.render.toUTF8) ∧
    (∀ path key, symbols = some path → symbolsAt = .file key →
      after.read path = .ok (SymbolMap.ofProgram program).render.toUTF8) ∧
    (∀ key, outputAt ≠ .file key → (symbols = none ∨ symbolsAt ≠ .file key) →
      after.files.get? key = dir.files.get? key) ∧
    after.folders = dir.folders := by
  have reopened := outputs.store outputs code.render.toUTF8
  cases symbols with
  | none =>
    refine ⟨fun key isFile => ?_, fun path key absent => ?_, fun key other _ => ?_,
      Directory.folders_store _ _⟩
    · subst isFile
      refine reopened.leads.read ?_
      rw [Directory.get?_store, if_pos rfl]
    · cases absent
    · exact (Directory.get?_store _ _ _).trans (if_neg other)
  | some path =>
    obtain ⟨mapped, apart⟩ := maps path rfl
    have remapped := mapped.store outputs code.render.toUTF8
    refine ⟨fun key isFile => ?_, fun other key same isFile => ?_, fun key other otherMap => ?_, ?_⟩
    · subst isFile
      refine (reopened.store remapped _).leads.read ?_
      rw [Directory.get?_store, if_neg (apart key rfl), Directory.get?_store, if_pos rfl]
    · cases same
      subst isFile
      refine (remapped.store remapped _).leads.read ?_
      rw [Directory.get?_store, if_pos rfl]
    · have noMap : symbolsAt ≠ .file key := by simpa using otherMap
      exact (Directory.get?_store _ _ _).trans <| (if_neg noMap).trans <|
        (Directory.get?_store _ _ _).trans (if_neg other)
    · exact (Directory.folders_store _ _).trans (Directory.folders_store _ _)

theorem run_of_parse {words : List String} (parses : Arguments.parse options words = .ok args)
    (dir : Directory) : tool.run words dir = perform dir (action args) := by
  have parses' : Arguments.parse tool.options words = .ok args := parses
  rw [Tool.run, parses']
  rfl

/-- The command agrees with `Program.compile`. On errors it prints their reports in order, states
their number and changes no file. Otherwise the assembly text and the symbol map can be read at their
paths, and no other file has changed. Listings have no influence on the status and the files. -/
theorem run_agrees_with_compile (words : List String) (args : Arguments) (dir : Directory)
    (settings : Settings) (source : String)
    (parses : Arguments.parse options words = .ok args)
    (loads : Settings.discover dir (args.value? "config") = .ok settings)
    (reads : dir.readText (input args) = .ok source) :
    (∀ errors, Program.compile (input args) source = .error errors →
      tool.run words dir = ⟨1,
        { dir
          stdout := progress args settings source ++
            String.join (errors.map (Diagnostic.report (SourceLines.ofFile (input args) source)))
          stderr := Text.alarm "Compilation failed" ++ ": " ++ toString errors.length ++
            " error(s)\n" }⟩) ∧
    (∀ code program outputAt symbolsAt, Program.compile (input args) source = .ok code →
      (Program.ofSource (input args) source).1 = some program →
      dir.Writable (outputPath args settings) outputAt →
      (∀ path, symbolsPath args settings = some path → dir.Writable path symbolsAt ∧
        ∀ key, outputAt = .file key → symbolsAt ≠ .file key) →
      let after := (tool.run words dir).console.dir
      (tool.run words dir).status = 0 ∧
      (∀ key, outputAt = .file key →
        after.read (outputPath args settings) = .ok code.render.toUTF8) ∧
      (∀ path key, symbolsPath args settings = some path → symbolsAt = .file key →
        after.read path = .ok (SymbolMap.ofProgram program).render.toUTF8) ∧
      (∀ key, outputAt ≠ .file key →
        (symbolsPath args settings = none ∨ symbolsAt ≠ .file key) →
        after.files.get? key = dir.files.get? key) ∧
      after.folders = dir.folders) ∧
    (∀ words' args', Arguments.parse options words' = .ok args' → args'.other = args.other →
      (∀ name, name ≠ "verbose" → args'.value? name = args.value? name) →
      (tool.run words' dir).status = (tool.run words dir).status ∧
      (tool.run words' dir).console.dir = (tool.run words dir).console.dir) := by
  refine ⟨fun errors failed => ?_,
    fun code program outputAt symbolsAt compiled parsed output symbols => ?_,
    fun words' args' parses' other values => ?_⟩
  · rw [run_of_parse parses, perform, action_error loads reads failed]
  · obtain ⟨console, done, files⟩ := action_ok loads reads compiled parsed output fun path wanted =>
      (symbols path wanted).1
    rw [run_of_parse parses, perform, done]
    refine ⟨rfl, ?_⟩
    rw [files]
    exact delivered_files output symbols
  · have same := (action_alike other values).perform dir
    rw [run_of_parse parses, run_of_parse parses']
    exact ⟨same.1.symm, same.2.symm⟩

/-- A program with both files, in a directory that holds only the source. -/
theorem run_agrees_with_compile_map :
    let source := "void main() 1;"
    let dir : Directory := { files := .ofList [("f", source.toUTF8)] }
    let outcome := tool.run ["f", "-og", "-s", "m"] dir
    ∃ code program, Program.compile "f" source = .ok code ∧
      (Program.ofSource "f" source).1 = some program ∧ outcome.status = 0 ∧
      outcome.console.dir.read "g" = .ok code.render.toUTF8 ∧
      outcome.console.dir.read "m" = .ok (SymbolMap.ofProgram program).render.toUTF8 := by
  intro source dir outcome
  let args : Arguments :=
    { values := .ofList [("output", "g"), ("symbols", "m")], other := some "f" }
  have parses : Arguments.parse options ["f", "-og", "-s", "m"] = .ok args :=
    eq_ok_of_toOption (by decide +kernel)
  have loads : Settings.discover dir (args.value? "config") = .ok {} :=
    eq_ok_of_toOption (by decide +kernel)
  have reads : dir.readText (input args) = .ok source := eq_ok_of_toOption (by decide +kernel)
  have output : dir.Writable (outputPath args {}) (.file "g") :=
    ⟨eq_ok_of_toOption (by decide +kernel), by simp⟩
  have map : dir.Writable "m" (.file "m") := ⟨eq_ok_of_toOption (by decide +kernel), by simp⟩
  obtain ⟨code, compiled⟩ := Program.exists_code (show (Program.compile "f" source).isOk = true by
    decide +kernel)
  obtain ⟨program, read, _⟩ := Program.compile_eq_ok compiled
  have parsed : (Program.ofSource "f" source).1 = some program := by rw [read]
  obtain ⟨_, delivers, _⟩ := run_agrees_with_compile _ args dir {} source parses loads reads
  have apart (path : String) (wanted : symbolsPath args {} = some path) :
      dir.Writable path (.file "m") ∧ ∀ key, Directory.Place.file "g" = .file key →
        Directory.Place.file "m" ≠ .file key := by
    obtain rfl : "m" = path := Option.some.inj wanted
    exact ⟨map, by simp⟩
  obtain ⟨status, asm, symbols, _⟩ :=
    delivers code program (.file "g") (.file "m") compiled parsed output apart
  exact ⟨code, program, compiled, parsed, status, asm "g" rfl, symbols "m" "m" rfl rfl⟩

end Compiler

end IonLang.Command
