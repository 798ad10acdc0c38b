import IonLang.Yaml.Cursor
import IonLang.Yaml.Token

/-!
# Tags, directives and the names of anchors

A tag is written as a handle with a suffix, or whole between angle brackets. Characters outside the
set of a tag are written as the bytes of their encoding, each as a percent sign with two hexadecimal
digits.
-/

namespace IonLang.Yaml

def anchorName? (cur : Cursor) : Option (String × Cursor) :=
  let (name, cur) := cur.span isNameChar
  let closed :=
    atGap cur.rest ||
      cur.rest.head?.any (['?', ':', ',', ']', '}', '%', '@', '\x60'].contains ·)
  if name.isEmpty || !closed then none else some (String.ofList name, cur)

/-! ### Tags -/

/-- Characters that may stand in a tag. Brackets and commas are among them only where they cannot be
taken for marks of a flow collection. -/
def isTagChar (whole : Bool) (c : Char) : Bool :=
  isNameChar c ||
    [';', '/', '?', ':', '@', '&', '=', '+', '$', '.', '%', '!', '~', '*', '\'', '(', ')'].contains
      c ||
    (whole && [',', '[', ']'].contains c)

def encodedWidth? (byte : Nat) : Option Nat :=
  if byte < 0x80 then some 1
  else if 0xC0 ≤ byte && byte < 0xE0 then some 2
  else if 0xE0 ≤ byte && byte < 0xF0 then some 3
  else if 0xF0 ≤ byte && byte < 0xF8 then some 4
  else none

/-- The bytes of the characters of a tag, and whether they are well formed. `pending` counts the
bytes that the encoded character begun before still lacks. -/
def tagBytes? : Nat → List Char → Option (List UInt8)
  | 0, [] => some []
  | _ + 1, [] => none
  | pending, '%' :: high :: low :: rest => do
    let byte := 16 * (← hexDigit? high) + (← hexDigit? low)
    let pending ←
      match pending with
      | 0 => (encodedWidth? byte).map (· - 1)
      | pending + 1 => if 0x80 ≤ byte && byte < 0xC0 then some pending else none
    some (byte.toUInt8 :: (← tagBytes? pending rest))
  | 0, c :: rest =>
    if c == '%' then none else (tagBytes? 0 rest).map ((String.singleton c).toUTF8.toList ++ ·)
  | _ + 1, _ :: _ => none

/-- The bytes of a tag or of a part of one, which a zero byte ends, and the cursor behind it. -/
def tagText? (whole : Bool) (cur : Cursor) : Option (List UInt8 × Cursor) := do
  let (text, cur) := cur.span (isTagChar whole)
  let bytes ← tagBytes? 0 text
  some (bytes.takeWhile (· != 0), cur)

/-- A handle: a mark, a name, which may be empty, and maybe a second mark. -/
def tagHandle? (cur : Cursor) : Option (List Char × Cursor) :=
  if !cur.looksAt '!' then none
  else
    let (name, cur) := cur.next.span isNameChar
    if cur.looksAt '!' then some ('!' :: name ++ ['!'], cur.next) else some ('!' :: name, cur)

/-- A tag at its first mark. What looks like a handle with no second mark is part of the suffix of
the shortest handle. -/
def tagName? (cur : Cursor) : Option (TagName × Cursor) := do
  if cur.next.looksAt '<' then
    let start := cur.advance 2
    let (suffix, cur) ← tagText? true start
    if cur.rest.length < start.rest.length && cur.looksAt '>' then some (⟨"", suffix⟩, cur.next)
    else none
  else
    let (handle, start) ← tagHandle? cur
    let (suffix, cur) ← tagText? false start
    if 1 < handle.length && handle.getLast? == some '!' then
      if cur.rest.length < start.rest.length then some (⟨String.ofList handle, suffix⟩, cur)
      else none
    else
      let suffix := (String.ofList (handle.drop 1)).toUTF8.toList ++ suffix
      if suffix.isEmpty then some (⟨"", "!".toUTF8.toList⟩, cur) else some (⟨"!", suffix⟩, cur)

/-! ### Directives -/

/-- A number of one to nine digits. -/
def versionNumber? (cur : Cursor) : Option (Nat × Cursor) :=
  let (digits, cur) := cur.span isDigit
  if digits.isEmpty || 9 < digits.length then none
  else some (digits.foldl (fun value digit => 10 * value + (digit.toNat - '0'.toNat)) 0, cur)

def versionDirective? (cur : Cursor) : Option (Token × Cursor) := do
  let (major, cur) ← versionNumber? (cur.skip isBlank)
  if !cur.looksAt '.' then none
  let (minor, cur) ← versionNumber? cur.next
  some (.version major minor, cur)

def tagDirective? (cur : Cursor) : Option (Token × Cursor) := do
  let (handle, cur) ← tagHandle? (cur.skip isBlank)
  if handle != ['!'] && handle.getLast? != some '!' then none
  if !cur.rest.head?.any isBlank then none
  let start := cur.skip isBlank
  let (expansion, cur) ← tagText? true start
  if cur.rest.length < start.rest.length && atGap cur.rest then
    some (.tagDirective (String.ofList handle) expansion, cur)
  else none

def directive? (cur : Cursor) : Option (Token × Cursor) := do
  let (name, cur) := cur.span isNameChar
  if !atGap cur.rest then none
  let (token, cur) ←
    match String.ofList name with
    | "YAML" => versionDirective? cur
    | "TAG" => tagDirective? cur
    | _ => none
  some (token, ← cur.finishLine?)

end IonLang.Yaml
