import IonLang.Command.Console
import IonLang.Diagnostic.Report
import IonLang.Monitor.Session
import IonLang.Program.Assemble

/-!
# The emulator command

Compiles a source file and runs it under the monitor. A run ends when the program exits, when an
instruction faults, or after a given number of instructions.
-/

namespace IonLang.Command.Emulator

def defaultInput : String := "main.ion"

def options : List OptionSpec :=
  [{ name := "tmax", letter := 't', accepts := fun text => (Text.wordOf? text).isSome },
    { name := "dump-cfg", letter := 'd' }, { name := "dump-all", letter := 'a', isFlag := true },
    { name := "output", letter := 'o' }, { name := "style", letter := 's', isFlag := true }]

def input (args : Arguments) : String := args.other.getD defaultInput

/-- The greatest number of instructions; without a limit it is the greatest word. -/
def limit (args : Arguments) : Nat :=
  (((args.value? "tmax").bind Text.wordOf?).map UInt64.toNat).getD (UInt64.size - 1)

def fail {α : Type} (message : String) : Action α := do
  complain (Text.alarm "error" ++ ": " ++ message ++ "\n")
  throw 1

def banner (input : String) : String :=
  let rule := "+" ++ Text.fill 47 '-' ++ "+\n"
  "Ion Emulator by kanade-k-1228\n" ++ rule ++ "| " ++ Text.padEnd 45 input ++ " |\n" ++ rule

def loadMachine (input : String) : Action Machine := do
  match (← get).dir.readText input with
  | .error fault => fail ("Failed to open File: " ++ input ++ ": " ++ fault.message)
  | .ok source =>
    match Program.compile input source with
    | .error errors =>
      let sources := SourceLines.ofFile input source
      say (String.join (errors.map (Diagnostic.report sources)))
      fail (toString errors.length ++ " compile error(s)")
    | .ok code =>
      match Machine.load code with
      | .ok machine => pure machine
      | .error fault => fail fault.message

def openWatch (args : Arguments) : Action Monitor.Watch := do
  let all := args.flag "dump-all"
  match args.value? "dump-cfg" with
  | none => pure { all }
  | some file =>
    match (← get).dir.readText file with
    | .error .notText => fail Diagnostic.invalidSettings.message
    | .error .isADirectory => fail (Diagnostic.settingsAccess .isADirectory).message
    | .error fault => fail (Diagnostic.fileAccess fault).message
    | .ok text =>
      match Monitor.WatchList.parse? text with
      | some points => pure { file := some file, points, all }
      | none => fail Diagnostic.invalidSettings.message

/-- The serial output that the arguments ask for. Its file is created at once. -/
def openSerial (args : Arguments) : Action Monitor.Serial := do
  let styled := args.flag "style"
  match args.value? "output" with
  | none => pure { styled }
  | some path =>
    match (← get).dir.create path with
    | .error fault => fail (Diagnostic.fileAccess fault).message
    | .ok (dir, place) =>
      modify fun console => { console with dir }
      pure { styled, sink := some { place } }

def ending (machine : Machine) : String :=
  "\n" ++ Text.fill 49 '=' ++ "\n" ++
    match machine.exit with
    | some status => "exit status: " ++ toString status.toNat ++ "\n"
    | none => "stopped at pc=" ++ toString machine.pc ++ " (tmax reached)\n"

def adopt (session : Monitor.Session) : Action Unit :=
  set (Console.mk session.dir session.stdout session.stderr)

/-- Runs a session to its end. After a fault the bytes that have not reached the file are lost. -/
def runSession (session : Monitor.Session) (limit : Nat) : Action Unit := do
  match session.announce.run limit with
  | (session, some (time, fault)) =>
    adopt session
    fail ("[" ++ Monitor.Watch.timeText time ++ "] " ++ fault.message)
  | (session, none) =>
    adopt session.close
    say (ending session.machine)

def action (args : Arguments) : Action Unit := do
  say (banner (input args))
  let machine ← loadMachine (input args)
  say "[INIT]\n"
  let watch ← openWatch args
  let serial ← openSerial args
  let ⟨dir, stdout, stderr⟩ ← get
  runSession { machine, watch, serial, dir, stdout, stderr } (limit args)

def tool : Tool where
  version := "Ion Emulator v1.0.0"
  usage := "Usage: ionemu [OPTIONS] [INPUT_FILE]\n"
  options
  action
  reads args := input args :: (args.value? "dump-cfg").toList
  writes args := (args.value? "output").toList

end IonLang.Command.Emulator
