import IonLang.Command.Compiler
import IonLang.Command.Emulator

/-!
# The program

The first argument names the tool, the others are for the tool. The files that the tool may read
are loaded before it runs, and the files that it changed are written afterwards.
-/

namespace IonLang.Command

def loadPath (dir : Directory) (path : String) : IO Directory := do
  try
    match (← (← IO.FS.realPath path).metadata).type with
    | .dir => return { dir with folders := path :: dir.folders }
    | .file => return { dir with files := dir.files.insert path (← IO.FS.readBinFile path) }
    | _ => return dir
  catch _ => return dir

/-- Everything that a tool can see of the file system: the files it names, and the folders on the
way to them. -/
def loadDirectory (paths : List String) : IO Directory := do
  let mut dir : Directory := {}
  for path in paths do
    for location in Directory.visited path do
      if !Directory.isGiven location then dir ← loadPath dir (Directory.join location)
  return dir

def Tool.runIn (tool : Tool) (args : List String) : IO UInt32 := do
  let named :=
    match Arguments.parse tool.options args with
    | .ok args => tool.reads args ++ tool.writes args
    | .error _ => []
  let dir ← loadDirectory named
  let outcome := tool.run args dir
  for (path, content) in dir.changes outcome.console.dir do
    IO.FS.writeBinFile path content
  IO.print outcome.console.stdout
  IO.eprint outcome.console.stderr
  return outcome.status

end IonLang.Command

def main (args : List String) : IO UInt32 :=
  match args with
  | "ionc" :: args => IonLang.Command.Compiler.tool.runIn args
  | "ionemu" :: args => IonLang.Command.Emulator.tool.runIn args
  | _ => do
    IO.eprintln "Usage: (ionc | ionemu) [ARGUMENTS]"
    return 2
