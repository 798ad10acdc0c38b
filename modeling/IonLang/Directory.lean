import IonLang.Dictionary

/-!
# Directories

The files that a command can reach, as a value: contents by path. A path is walked name by name from
the working folder or, behind a leading slash, from the root. Every name on the way has to lead to a
folder. A folder exists when it is listed, when a file lies below it, or when every system has it;
the folders around the working folder exist, and nothing is known to be in them.

Of the devices, one is always empty and takes every write, and one refuses every write.
-/

namespace IonLang

namespace Directory

inductive Fault where
  | notFound | notADirectory | isADirectory | noSpace | nameTooLong | zeroInName | notText
  deriving DecidableEq, Repr

def Fault.message : Fault → String
  | .notFound => "No such file or directory (os error 2)"
  | .notADirectory => "Not a directory (os error 20)"
  | .isADirectory => "Is a directory (os error 21)"
  | .noSpace => "No space left on device (os error 28)"
  | .nameTooLong => "File name too long (os error 36)"
  | .zeroInName => "file name contained an unexpected NUL byte"
  | .notText => "stream did not contain valid UTF-8"

/-- Files that are not stored. Standard input counts as empty. -/
inductive Device where
  /-- Empty, and takes every write. -/
  | null
  /-- Refuses every write. -/
  | full
  deriving DecidableEq, Repr

/-- What a path leads to: a stored file, by its path, or a device. -/
inductive Place where
  | file (path : String)
  | device (device : Device)
  deriving DecidableEq, Repr

/-! ### Locations -/

/-- The way to a file or folder: names from the working folder on. A leading `/` is the root, and
leading `..` go outwards; there is neither anywhere else. -/
abbrev Location := List String

def join : Location → String
  | "/" :: names => "/" ++ "/".intercalate names
  | names => "/".intercalate names

/-- The folder around a location. The root has none but itself. -/
def around (location : Location) : Location :=
  if location == ["/"] then location
  else if location.all (· == "..") then ".." :: location
  else location.dropLast

def follow (here : Location) (name : String) : Location :=
  if name == "." then here else if name == ".." then around here else here ++ [name]

def names (path : String) : List String :=
  ((path.toList.splitOn '/').map String.ofList).filter (· != "")

def isRooted (path : String) : Bool := path.toList.head? == some '/'

def start (path : String) : Location := if isRooted path then ["/"] else []

def visited (path : String) : List Location :=
  ((names path).foldl (fun seen name => follow (seen.headD []) name :: seen) [start path]).reverse

/-- How many bytes a path has less than. -/
def pathLimit : Nat := 4096

def nameLimit : Nat := 255

def systemFolders : List String :=
  ["bin", "boot", "dev", "etc", "home", "lib", "media", "mnt", "opt", "proc", "root", "run", "sbin",
    "srv", "sys", "tmp", "usr", "var"]

def devices : List (Location × Device) :=
  [(["/", "dev", "null"], .null), (["/", "dev", "stdin"], .null), (["/", "dev", "full"], .full)]

/-- Whether a location is a folder in any case. -/
def isGiven (location : Location) : Bool :=
  location.all (· == "..") ||
    match location with
    | ["/"] => true
    | ["/", name] => systemFolders.contains name
    | _ => false

end Directory

/-- Files and folders that can be reached. -/
structure Directory where
  files : Dictionary ByteArray := {}
  folders : List String := []

namespace Directory

inductive Entry where
  | folder
  | place (place : Place)
  deriving DecidableEq, Repr

def hasFolder (dir : Directory) (location : Location) : Bool :=
  isGiven location ||
    dir.folders.any (fun path => location.isPrefixOf (start path ++ names path)) ||
    dir.files.keys.any fun path =>
      location.isPrefixOf (start path ++ names path) && join location != path

def entry? (dir : Directory) (location : Location) : Option Entry :=
  match devices.lookup location with
  | some device => some (.place (.device device))
  | none =>
    if dir.files.contains (join location) then some (.place (.file (join location)))
    else if dir.hasFolder location then some .folder
    else none

/-! ### Walks -/

def enter (dir : Directory) (here : Location) (name : String) : Except Fault Location :=
  if name == "." || name == ".." then .ok (follow here name)
  else if nameLimit < name.utf8ByteSize then .error .nameTooLong
  else
    match dir.entry? (follow here name) with
    | some .folder => .ok (follow here name)
    | some (.place _) => .error .notADirectory
    | none => .error .notFound

inductive Goal where
  /-- A folder, by the form of the path. -/
  | folder
  /-- A name in a folder; a slash behind it says that it is a folder. -/
  | name (folder : Location) (name : String) (slash : Bool)

/-- Walks along a path up to its last name. -/
def walk (dir : Directory) (path : String) : Except Fault Goal := do
  if path.toList.contains '\x00' then .error .zeroInName
  if path.isEmpty then .error .notFound
  if pathLimit ≤ path.utf8ByteSize then .error .nameTooLong
  let here ← (names path).dropLast.foldlM dir.enter (start path)
  match (names path).getLast? with
  | none | some "." | some ".." => return .folder
  | some name => return .name here name (path.toList.getLast? == some '/')

def find (dir : Directory) (path : String) : Except Fault Entry := do
  match ← dir.walk path with
  | .folder => return .folder
  | .name folder name slash =>
    if nameLimit < name.utf8ByteSize then .error .nameTooLong
    match dir.entry? (folder ++ [name]) with
    | some .folder => return .folder
    | some (.place place) => if slash then .error .notADirectory else return .place place
    | none => .error .notFound

def contains (dir : Directory) (path : String) : Bool := (dir.find path).isOk

/-! ### Reading and writing -/

def read (dir : Directory) (path : String) : Except Fault ByteArray := do
  match ← dir.find path with
  | .folder => .error .isADirectory
  | .place (.device .null) => .ok ByteArray.empty
  | .place (.device .full) => .error .notText
  | .place (.file name) =>
    match dir.files.get? name with
    | some content => .ok content
    | none => .error .notFound

def readText (dir : Directory) (path : String) : Except Fault String := do
  match String.fromUTF8? (← dir.read path) with
  | some text => .ok text
  | none => .error .notText

/-- Appends bytes at a place that has been opened. -/
def append (dir : Directory) (bytes : ByteArray) : Place → Except Fault Directory
  | .file name =>
    let content := (dir.files.get? name).getD ByteArray.empty
    .ok { dir with files := dir.files.insert name (content ++ bytes) }
  | .device .null => .ok dir
  | .device .full => if bytes.isEmpty then .ok dir else .error .noSpace

/-- Opens a path for writing: a file that stands there is empty afterwards. -/
def create (dir : Directory) (path : String) : Except Fault (Directory × Place) := do
  match ← dir.walk path with
  | .folder => .error .isADirectory
  | .name folder name slash =>
    if slash then .error .isADirectory
    if nameLimit < name.utf8ByteSize then .error .nameTooLong
    let fresh := join (folder ++ [name])
    match (dir.entry? (folder ++ [name])).getD (.place (.file fresh)) with
    | .folder => .error .isADirectory
    | .place (.file name) =>
      return ({ dir with files := dir.files.insert name ByteArray.empty }, .file name)
    | .place (.device device) => return (dir, .device device)

def writeText (dir : Directory) (path text : String) : Except Fault Directory := do
  let (dir, place) ← dir.create path
  dir.append text.toUTF8 place

/-- The files that are new or have another content than before. -/
def changes (before after : Directory) : List (String × ByteArray) :=
  after.files.entries.filter fun entry =>
    match before.files.get? entry.1 with
    | some content => content.data != entry.2.data
    | none => true

/-- Whether a path of a stored file leads to a place in the working folder or below. -/
def isInside (path : String) : Bool := !isRooted path && (names path).head? != some ".."

end Directory

end IonLang
