import IonLang.Yaml
import IonLang.Yaml.Token.Scan

/-!
# Documents from tokens

The grammar of nodes and documents over tokens. A text holds at most one document.

Anchors are numbered: the number of an anchor is that of the distinct names in front of it. A name
that is used anew thus may share its number with a later one, and of several anchors with one number
the last stands for it.
-/

namespace IonLang.Yaml

/-- The tokens that are left, and what is known about the document in front of them. -/
structure Reading where
  tokens : List Token
  /-- What the handles of tags stand for. -/
  handles : List (String × List UInt8) := []
  /-- The number of each anchor name. -/
  names : List (String × Nat) := []
  /-- The anchored nodes that have begun, by anchor number and counted in order, latest first. -/
  begun : List (Nat × Nat) := []
  /-- The anchored nodes that are complete, as counted in `begun`. -/
  complete : List (Nat × Yaml) := []

abbrev Reader := StateT Reading Option

namespace Reader

def peek : Reader Token := do
  match (← get).tokens with
  | token :: _ => return token
  | [] => failure

def skip : Reader Unit := modify fun r => { r with tokens := r.tokens.drop 1 }

def skipIf (token : Token) : Reader Bool := do
  if (← peek) == token then
    skip
    return true
  else return false

/-- A node that is left out if one of some tokens comes next. -/
def unlessAt (tokens : List Token) (node : Reader Yaml) : Reader Yaml := do
  if tokens.contains (← peek) then return empty else node

/-! ### Tags and anchors -/

def resolveTag (tag : TagName) : Reader (List UInt8) := do
  if tag.handle.isEmpty then return tag.suffix
  match (← get).handles.lookup tag.handle with
  | some expansion => return expansion ++ tag.suffix
  | none => failure

def tag? : Reader (Option (List UInt8)) := do
  match ← peek with
  | .tag name =>
    skip
    return some (← resolveTag name)
  | _ => return none

def anchor? : Reader (Option String) := do
  match ← peek with
  | .anchor name =>
    skip
    return some name
  | _ => return none

def properties : Reader (Option String × Option (List UInt8)) := do
  match ← anchor? with
  | some name => return (some name, ← tag?)
  | none =>
    match ← tag? with
    | some tag => return (← anchor?, some tag)
    | none => return (none, none)

def beginAnchored (name : String) : Reader Nat :=
  modifyGet fun r =>
    let id := r.names.length
    let place := r.begun.length
    (place,
      { r with
        names := (name, id) :: r.names.filter (·.1 != name)
        begun := (id, place) :: r.begun })

def endAnchored (place : Nat) (node : Yaml) : Reader Unit :=
  modify fun r => { r with complete := (place, node) :: r.complete }

def aliased (name : String) : Reader Yaml := do
  match (← get).names.lookup name with
  | some id => return .aliasOf id
  | none => failure

/-! ### Nodes -/

/-- A scalar with a tag. The shortest tag says only that no tag is meant. -/
def tagged (text : String) (style : Style) (tag : Option (List UInt8)) : Yaml :=
  .scalar text style (tag.filter (· != "!".toUTF8.toList))

mutual

/-- A node. Block collections stand only in blocks, and entries of a sequence that are not indented
only in mappings. -/
def node (block entries : Bool) : Nat → Reader Yaml
  | 0 => failure
  | fuel + 1 => do
    match ← peek with
    | .aliasOf name =>
      skip
      aliased name
    | _ =>
      let (anchor, tag) ← properties
      match anchor with
      | none => content block entries tag (tag.isSome) fuel
      | some name =>
        let place ← beginAnchored name
        let node ← content block entries tag true fuel
        endAnchored place node
        return node
termination_by structural fuel => fuel

/-- A node behind its tag and anchor. It may be left out only if it has one of them. -/
def content (block entries : Bool) (tag : Option (List UInt8)) (optional : Bool) :
    Nat → Reader Yaml
  | 0 => failure
  | fuel + 1 => do
    match ← peek, block, entries with
    | .blockEntry, _, true => return .sequence (← looseItems fuel)
    | .scalar text style, _, _ =>
      skip
      return tagged text style tag
    | .flowSequenceStart, _, _ =>
      skip
      return .sequence (← flowItems true fuel)
    | .flowMappingStart, _, _ =>
      skip
      return .mapping (← flowEntries true fuel)
    | .blockSequenceStart, true, _ =>
      skip
      return .sequence (← blockItems fuel)
    | .blockMappingStart, true, _ =>
      skip
      return .mapping (← blockEntries fuel)
    | _, _, _ => if optional then return .scalar "" .plain tag else failure
termination_by structural fuel => fuel

def blockItems : Nat → Reader (List Yaml)
  | 0 => failure
  | fuel + 1 => do
    if ← skipIf .blockEntry then
      let item ← unlessAt [.blockEntry, .blockEnd] (node true false fuel)
      return item :: (← blockItems fuel)
    else if ← skipIf .blockEnd then return []
    else failure
termination_by structural fuel => fuel

/-- The items of a sequence that is not indented, which ends where no entry follows. -/
def looseItems : Nat → Reader (List Yaml)
  | 0 => failure
  | fuel + 1 => do
    if ← skipIf .blockEntry then
      let item ← unlessAt [.blockEntry, .key, .value, .blockEnd] (node true false fuel)
      return item :: (← looseItems fuel)
    else return []
termination_by structural fuel => fuel

def blockEntries : Nat → Reader (List (Yaml × Yaml))
  | 0 => failure
  | fuel + 1 => do
    if ← skipIf .key then
      let ends := [Token.key, .value, .blockEnd]
      let key ← unlessAt ends (node true true fuel)
      let value ←
        if ← skipIf .value then unlessAt ends (node true true fuel) else pure empty
      return (key, value) :: (← blockEntries fuel)
    else if ← skipIf .blockEnd then return []
    else failure
termination_by structural fuel => fuel

/-- The items of a flow sequence. All but the first stand behind a comma, and the last comma may be
followed by nothing. -/
def flowItems (first : Bool) : Nat → Reader (List Yaml)
  | 0 => failure
  | fuel + 1 => do
    if ← skipIf .flowSequenceEnd then return []
    if !first then
      if !(← skipIf .flowEntry) then failure
    if ← skipIf .key then
      let item ← flowPair fuel
      return item :: (← flowItems false fuel)
    else if ← skipIf .flowSequenceEnd then return []
    else
      let item ← node false false fuel
      return item :: (← flowItems false fuel)
termination_by structural fuel => fuel

/-- A mapping with one entry as an item of a flow sequence. A key that is left out takes the token
behind it with it. -/
def flowPair : Nat → Reader Yaml
  | 0 => failure
  | fuel + 1 => do
    let key ←
      if [Token.value, .flowEntry, .flowSequenceEnd].contains (← peek) then
        skip
        pure empty
      else node false false fuel
    let value ←
      if ← skipIf .value then
        unlessAt [.flowEntry, .flowSequenceEnd] (node false false fuel)
      else pure empty
    return .mapping [(key, value)]
termination_by structural fuel => fuel

/-- The entries of a flow mapping. A node with no key mark is a key without a value. -/
def flowEntries (first : Bool) : Nat → Reader (List (Yaml × Yaml))
  | 0 => failure
  | fuel + 1 => do
    if ← skipIf .flowMappingEnd then return []
    if !first then
      if !(← skipIf .flowEntry) then failure
    if ← skipIf .key then
      let key ← unlessAt [.value, .flowEntry, .flowMappingEnd] (node false false fuel)
      let value ←
        if ← skipIf .value then
          unlessAt [.flowEntry, .flowMappingEnd] (node false false fuel)
        else pure empty
      return (key, value) :: (← flowEntries false fuel)
    else if ← skipIf .flowMappingEnd then return []
    else
      let key ← node false false fuel
      return (key, empty) :: (← flowEntries false fuel)
termination_by structural fuel => fuel

end

/-! ### Documents -/

def standardHandles : List (String × List UInt8) :=
  [("!", "!".toUTF8.toList), ("!!", "tag:yaml.org,2002:".toUTF8.toList)]

/-- The directives in front of a document. The version is given at most once and is 1.1 or 1.2, and
a handle is given at most once. -/
def directives (versioned : Bool) (handles : List (String × List UInt8)) : Nat → Reader Unit
  | 0 => failure
  | fuel + 1 => do
    match ← peek with
    | .version major minor =>
      if versioned || major != 1 || (minor != 1 && minor != 2) then failure
      skip
      directives true handles fuel
    | .tagDirective handle expansion =>
      if (handles.lookup handle).isSome then failure
      skip
      directives versioned ((handle, expansion) :: handles) fuel
    | _ => modify fun r => { r with handles := handles ++ standardHandles }

def beginsDocument : Token → Bool
  | .version _ _ | .tagDirective _ _ | .documentStart => true
  | _ => false

def root (fuel : Nat) : Reader Yaml := do
  if (← peek) == .streamEnd then return empty
  let marked := beginsDocument (← peek)
  directives false [] fuel
  if marked then
    if !(← skipIf .documentStart) then failure
    let token ← peek
    if beginsDocument token || token == .documentEnd || token == .streamEnd then return empty
  node true false fuel

def skipEnds : Reader Unit :=
  modify fun r => { r with tokens := r.tokens.dropWhile (· == .documentEnd) }

def document (fuel : Nat) : Reader Document := do
  let root ← root fuel
  skipEnds
  if (← peek) != .streamEnd then failure
  let r ← get
  let anchored := r.begun.filterMap fun (id, place) => (r.complete.lookup place).map (id, ·)
  return { root, anchored }

end Reader

def Document.parse? (text : String) : Option Document := do
  let tokens ← Token.scan? text
  let (document, _) ← (Reader.document (4 * tokens.length + 16)).run { tokens }
  some document

end IonLang.Yaml
