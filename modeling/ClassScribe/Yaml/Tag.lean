import ClassScribe.Yaml.Scalar

/-! # Anchors, tags and directives

A tag has a handle, which a directive can expand, and a suffix in the characters of an address.
Octets written by number come in groups whose first one tells how many follow, as in a text.
-/
namespace ClassScribe.Yaml

/-- Characters of an address that stand for themselves. -/
def isAddressChar (verbatim : Bool) (c : Char) : Bool :=
  isWordChar c || ";/?:@&=+$.!~*'()".toList.contains c || (verbatim && ",[]".toList.contains c)

/-- How many octets of a character follow its first one. -/
def followers? (n : Nat) : Option Nat :=
  if n < 0x80 then some 0
  else if n < 0xC0 then none
  else if n < 0xE0 then some 1
  else if n < 0xF0 then some 2
  else if n < 0xF8 then some 3
  else none

/-- What is still to come after an octet written by number, where `left` octets are to come. -/
def octetsLeft? (left octet : Nat) : Option Nat :=
  if left = 0 then followers? octet else if octet / 64 = 2 then some (left - 1) else none

/-- An address; `left` octets of a character are still to come. The octets so far are kept last
one first. -/
def scanAddress (verbatim : Bool) (left : Nat) (octets : List UInt8) :
    List Char → Except Fault (List UInt8 × List Char)
  | '%' :: a :: b :: rest =>
    match hexValue? a, hexValue? b with
    | some high, some low =>
      let octet := high * 16 + low
      match octetsLeft? left octet with
      | some left => scanAddress verbatim left (UInt8.ofNat octet :: octets) rest
      | none => .error .tagText
    | _, _ => .error .tagText
  | c :: rest =>
    if left != 0 || c == '%' then .error .tagText
    else if isAddressChar verbatim c then
      scanAddress verbatim 0 (UInt8.ofNat c.toNat :: octets) rest
    else .ok (octets.reverse, c :: rest)
  | [] => if left = 0 then .ok (octets.reverse, []) else .error .tagText

/-- A handle `!`, `!!` or `!word!`, or the beginning `!word` of a tag. -/
def scanHandle (cs : List Char) : Except Fault (List Char × List Char) :=
  match cs with
  | '!' :: rest =>
    let word := rest.takeWhile isWordChar
    match rest.dropWhile isWordChar with
    | '!' :: rest => .ok ('!' :: word ++ ['!'], rest)
    | rest => .ok ('!' :: word, rest)
  | _ => .error .tagText

def bareTag : Token := .tag "" (.ofText "!")

def scanTagText (cs : List Char) : Except Fault (Token × List Char) :=
  match cs with
  | '!' :: '<' :: rest => do
    match ← scanAddress true 0 [] rest with
    | ([], _) => .error .tagText
    | (address, '>' :: rest) => .ok (.tag "" (.upToZero address), rest)
    | _ => .error .tagText
  | cs => do
    let (handle, rest) ← scanHandle cs
    if 1 < handle.length && handle.getLast? == some '!' then
      let (suffix, rest) ← scanAddress false 0 [] rest
      if suffix.isEmpty then .error .tagText
      else .ok (.tag (String.ofList handle) (.upToZero suffix), rest)
    else
      let word := (handle.drop 1).map fun c => UInt8.ofNat c.toNat
      let (suffix, rest) ← scanAddress false 0 word.reverse rest
      let suffix := Tag.upToZero suffix
      .ok (if suffix.octets.isEmpty then bareTag else .tag "!" suffix, rest)

def scanTag (flow : Bool) (cs : List Char) : Except Fault (Token × List Char) := do
  let (t, rest) ← scanTagText cs
  if atGap rest || (flow && nextIn "," rest) then .ok (t, rest) else .error .tagText

def scanName (cs : List Char) : Except Fault (String × List Char) :=
  let name := cs.takeWhile isWordChar
  let rest := cs.dropWhile isWordChar
  if !name.isEmpty && (atGap rest || nextIn "?:,]\x7d%@\x60" rest) then
    .ok (String.ofList name, rest)
  else .error .anchorName

def skipBlanks (cs : List Char) : List Char := cs.dropWhile isSpaceOrTab

/-- White space and a comment up to the end of the line. -/
def skipLineEnd (fault : Fault) (cs : List Char) : Except Fault (List Char) :=
  let rest := skipBlanks cs
  let rest := if nextIn "#" rest then rest.dropWhile (!isBreak ·) else rest
  if atBreak rest then .ok rest else .error fault

/-- A part of a version, at most nine digits. -/
def scanVersionPart (cs : List Char) : Except Fault (Nat × List Char) :=
  let digits := cs.takeWhile Char.isDigit
  if digits.isEmpty || 9 < digits.length then .error .directive
  else .ok (digits.foldl (fun n c => n * 10 + (c.toNat - '0'.toNat)) 0, cs.dropWhile Char.isDigit)

def scanVersion (cs : List Char) : Except Fault (Token × List Char) := do
  let (major, rest) ← scanVersionPart (skipBlanks cs)
  match rest with
  | '.' :: rest =>
    let (minor, rest) ← scanVersionPart rest
    .ok (.version major minor, rest)
  | _ => .error .directive

def scanExpansion (cs : List Char) : Except Fault (Token × List Char) := do
  let (handle, rest) ← scanHandle (skipBlanks cs)
  if (handle.length == 1 || handle.getLast? == some '!') && (rest.head?.any isSpaceOrTab) then
    let (address, rest) ← scanAddress true 0 [] (skipBlanks rest)
    if address.isEmpty || !atGap rest then .error .directive
    else .ok (.handle (String.ofList handle) (.upToZero address), rest)
  else .error .directive

/-- A directive after its `%`, up to the break behind it. -/
def scanDirective (cs : List Char) : Except Fault (Token × List Char) := do
  let name := String.ofList (cs.takeWhile isWordChar)
  let rest := cs.dropWhile isWordChar
  if !atGap rest then .error .directive
  else
    let (t, rest) ← if name = "YAML" then scanVersion rest
      else if name = "TAG" then scanExpansion rest
      else .error .directive
    .ok (t, ← skipLineEnd .directive rest)

end ClassScribe.Yaml
