import IonLang.Dictionary

/-!
# Command line arguments

Options have a long name and a letter. Letters can be joined behind one dash, a value follows as
the next argument or is attached, and `--` ends the options. An option is given at most once, and
there is at most one argument that is no option. `help` and `version` are always there.
-/

namespace IonLang.Command

/-- An option of a command. A flag takes no value; a value has to be accepted. -/
structure OptionSpec where
  name : String
  letter : Char
  isFlag : Bool := false
  accepts : String → Bool := fun _ => true

/-- Why a command does not run: the user asked for something else, or the usage is wrong. -/
inductive Refusal where
  | help | version | wrongUsage
  deriving DecidableEq, Repr

/-- What was given: the values of options by their long names, and the other argument. -/
structure Arguments where
  values : Dictionary String := {}
  other : Option String := none
  deriving DecidableEq

namespace Arguments

def value? (args : Arguments) (name : String) : Option String := args.values.get? name

def flag (args : Arguments) (name : String) : Bool := args.values.contains name

/-- Adds an option with its value, which is empty for a flag. -/
def addOption (args : Arguments) (spec : OptionSpec) (value : String) :
    Except Refusal Arguments :=
  if args.values.contains spec.name || !(spec.isFlag || spec.accepts value) then
    .error .wrongUsage
  else .ok { args with values := args.values.insert spec.name value }

def addOther (args : Arguments) (text : String) : Except Refusal Arguments :=
  match args.other with
  | none => .ok { args with other := some text }
  | some _ => .error .wrongUsage

/-- Reads letters behind a dash. An option that still needs its value is given back. -/
def readLetters (specs : List OptionSpec) (args : Arguments) :
    List Char → Except Refusal (Arguments × Option OptionSpec)
  | [] => .ok (args, none)
  | letter :: rest =>
    match specs.find? fun spec => spec.letter == letter with
    | none =>
      if letter = 'h' then .error .help
      else if letter = 'V' then .error .version
      else .error .wrongUsage
    | some spec =>
      if spec.isFlag then do
        let args ← args.addOption spec ""
        readLetters specs args rest
      else if rest.isEmpty then .ok (args, some spec)
      else do
        let value := if rest.head? == some '=' then rest.drop 1 else rest
        let args ← args.addOption spec (String.ofList value)
        .ok (args, none)

/-- Reads what follows two dashes. An option that still needs its value is given back. -/
def readLong (specs : List OptionSpec) (args : Arguments) (text : List Char) :
    Except Refusal (Arguments × Option OptionSpec) :=
  let name := String.ofList (text.takeWhile (· != '='))
  let attached := (text.dropWhile (· != '=')).tail?.map String.ofList
  match specs.find? (fun spec => spec.name == name), attached with
  | some spec, none =>
    if spec.isFlag then do
      let args ← args.addOption spec ""
      .ok (args, none)
    else .ok (args, some spec)
  | some spec, some value =>
    if spec.isFlag then .error .wrongUsage
    else do
      let args ← args.addOption spec value
      .ok (args, none)
  | none, none =>
    if name == "help" then .error .help
    else if name == "version" then .error .version
    else .error .wrongUsage
  | none, some _ => .error .wrongUsage

/-- Whether an argument begins an option; a single dash does not. -/
def looksLikeOption (arg : String) : Bool := arg.startsWith "-" && arg != "-"

def readOption (specs : List OptionSpec) (args : Arguments) (arg : String) :
    Except Refusal (Arguments × Option OptionSpec) :=
  match arg.toList with
  | '-' :: '-' :: name => readLong specs args name
  | _ :: letters => readLetters specs args letters
  | [] => .error .wrongUsage

def readAll (specs : List OptionSpec) (args : Arguments) :
    List String → Except Refusal Arguments
  | [] => .ok args
  | arg :: rest =>
    if arg == "--" then rest.foldlM addOther args
    else if looksLikeOption arg then do
      match ← readOption specs args arg with
      | (args, none) => readAll specs args rest
      | (args, some spec) =>
        match rest with
        | [] => .error .wrongUsage
        | value :: rest =>
          if looksLikeOption value then .error .wrongUsage
          else do
            let args ← args.addOption spec value
            readAll specs args rest
    else do
      let args ← args.addOther arg
      readAll specs args rest

def parse (specs : List OptionSpec) (args : List String) : Except Refusal Arguments :=
  readAll specs {} args

end Arguments

end IonLang.Command
