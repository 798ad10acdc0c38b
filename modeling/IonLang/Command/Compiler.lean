import IonLang.Command.Console
import IonLang.Diagnostic.Report
import IonLang.Program.Assemble
import IonLang.Program.Listing
import IonLang.Settings
import IonLang.SymbolMap

/-!
# The compiler command

Reads the settings and a source file, and writes the assembly text and, if asked, the symbol map.
What the arguments say goes before what the settings say. On failure the diagnostics are printed
and the status is 1.
-/

namespace IonLang.Command.Compiler

def defaultInput : String := "main.ion"

def options : List OptionSpec :=
  [{ name := "output", letter := 'o' }, { name := "config", letter := 'c' },
    { name := "symbols", letter := 's' }, { name := "verbose", letter := 'v', isFlag := true }]

def input (args : Arguments) : String := args.other.getD defaultInput

def outputPath (args : Arguments) (settings : Settings) : String :=
  (args.value? "output").getD (settings.outputFor (input args))

def symbolsPath (args : Arguments) (settings : Settings) : Option String :=
  (args.value? "symbols").or settings.symbols

def isVerbose (args : Arguments) (settings : Settings) : Bool :=
  args.flag "verbose" || settings.verbose

def fail {α : Type} (sources : SourceLines) (errors : List Diagnostic) : Action α := do
  say (String.join (errors.map (Diagnostic.report sources)))
  complain (Text.alarm "Compilation failed" ++ ": " ++ toString errors.length ++ " error(s)\n")
  throw 1

/-- The value of a step, or the end of the command with its diagnostic. -/
def require {α : Type} (sources : SourceLines) : Except Diagnostic α → Action α
  | .ok value => pure value
  | .error diagnostic => fail sources [diagnostic]

/-- The program of a source text, or the end of the command with all that was reported. -/
def parse (sources : SourceLines) (input source : String) : Action Program :=
  match Program.ofSource input source with
  | (some program, []) => pure program
  | (_, errors) => fail sources errors

def list (verbose : Bool) (listing : String) : Action Unit :=
  if verbose then say listing else pure ()

def writeFile (sources : SourceLines) (path text : String) : Action Unit := do
  say ("  > " ++ path ++ "\n")
  let console ← get
  let dir ← require sources ((console.dir.writeText path text).mapError .fileAccess)
  modify fun console => { console with dir }

def finish (args : Arguments) (settings : Settings) (sources : SourceLines) (program : Program) :
    Action Unit := do
  list (isVerbose args settings) program.listing
  say "3. Assemble\n"
  let code ← require sources program.assemble
  list (isVerbose args settings) code.listing
  say "4. Write\n"
  writeFile sources (outputPath args settings) code.render
  match symbolsPath args settings with
  | some path => writeFile sources path (SymbolMap.ofProgram program).render
  | none => pure ()

def action (args : Arguments) : Action Unit := do
  say "Ion Compiler by kanade-k-1228\n"
  let dir := (← get).dir
  let settings ← require {} (Settings.discover dir (args.value? "config"))
  say ("1. Tokenize\n  < " ++ input args ++ "\n")
  let source ← require {} ((dir.readText (input args)).mapError .fileAccess)
  let sources := SourceLines.ofFile (input args) source
  say "2. Parse\n"
  finish args settings sources (← parse sources (input args) source)

def tool : Tool where
  version := "ionc 0.1.0"
  usage := "Usage: ionc [OPTIONS] [INPUT]\n"
  options
  action
  reads args := [input args, (args.value? "config").getD Settings.defaultFile]
  writes args := (args.value? "output").toList ++ (args.value? "symbols").toList

end IonLang.Command.Compiler
