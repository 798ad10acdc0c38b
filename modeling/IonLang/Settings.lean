import IonLang.Diagnostic
import IonLang.Yaml.Decode

/-!
# Settings

The settings of the compiler, which a YAML mapping gives. Keys that name no setting are ignored, and
a setting must not be given twice.
-/

namespace IonLang

structure Settings where
  /-- The file for the assembly text. -/
  output : Option String := none
  /-- The file for the symbol map. -/
  symbols : Option String := none
  verbose : Bool := false
  deriving DecidableEq, Repr

namespace Settings

def ofYaml (node : Yaml) : Yaml.Decode Settings := do
  let fields ← Yaml.Decode.fields ["output", "symbols", "verbose"] node
  return {
    output := ← Yaml.Decode.field fields "output" none Yaml.Decode.optionalText
    symbols := ← Yaml.Decode.field fields "symbols" none Yaml.Decode.optionalText
    verbose := ← Yaml.Decode.field fields "verbose" false Yaml.Decode.bool }

def parse (text : String) : Except Diagnostic Settings :=
  match Yaml.decode? ofYaml text with
  | some settings => .ok settings
  | none => .error .invalidSettings

def defaultFile : String := "ion.yaml"

def load (dir : Directory) (path : String) : Except Diagnostic Settings := do
  parse (← (dir.readText path).mapError .fileAccess)

/-- The settings of the named file, else of the default file if it exists, else the defaults. -/
def discover (dir : Directory) : Option String → Except Diagnostic Settings
  | some path => load dir path
  | none => if dir.contains defaultFile then load dir defaultFile else .ok {}

def outputFor (settings : Settings) (input : String) : String :=
  settings.output.getD (input ++ ".asm")

end Settings

end IonLang
