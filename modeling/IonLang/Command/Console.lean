import IonLang.Command.Arguments
import IonLang.Directory

/-!
# Commands

A command is a function from its arguments and the files it can reach to an exit status, texts for
the two output streams and changed files.
-/

namespace IonLang.Command

/-- The streams and files of a command. -/
structure Console where
  dir : Directory := {}
  stdout : String := ""
  stderr : String := ""

/-- An action of a command; it may end the command with a status. -/
abbrev Action := EStateM UInt32 Console

def say (text : String) : Action Unit :=
  modify fun console => { console with stdout := console.stdout ++ text }

def complain (text : String) : Action Unit :=
  modify fun console => { console with stderr := console.stderr ++ text }

/-- What a command leaves behind. -/
structure Outcome where
  status : UInt32
  console : Console

def perform (dir : Directory) (action : Action Unit) : Outcome :=
  match action { dir } with
  | .ok _ console => ⟨0, console⟩
  | .error status console => ⟨status, console⟩

structure Tool where
  /-- What is printed on request. -/
  version : String
  usage : String
  options : List OptionSpec
  /-- What the tool does with its arguments. -/
  action : Arguments → Action Unit
  /-- The files that the tool may read. -/
  reads : Arguments → List String
  /-- The files that the tool may write. -/
  writes : Arguments → List String

/-- Runs a tool. Wrong usage ends with status 2 and does nothing else. -/
def Tool.run (tool : Tool) (args : List String) (dir : Directory) : Outcome :=
  perform dir <|
    match Arguments.parse tool.options args with
    | .ok args => tool.action args
    | .error .help => say tool.usage
    | .error .version => say (tool.version ++ "\n")
    | .error .wrongUsage => do
      complain tool.usage
      throw 2

end IonLang.Command
