import ClassScribe.Number.Numeral

/-! # What a JSON text shows

A text is read as far as it follows the grammar. The result is a sketch: the value, with the place
where the grammar breaks left open, so that a later stage can meet earlier problems first. Three
more problems stay inside a sketch because they matter only where the value is used: a number that
is too large, an escape that names no character, and the depth of nesting.
-/
namespace ClassScribe.Json
open Number

inductive Sketch where
  | null
  | flag (b : Bool)
  /-- None when the number is too large. -/
  | number (n : Option Numeral)
  /-- None when an escape in it names no character. -/
  | text (s : Option String)
  | list (items : List Sketch) (closed : Bool)
  | record (members : List (Option String × Sketch)) (closed : Bool)
  /-- No value stands here. -/
  | broken
  deriving Repr

def isSpace (c : Char) : Bool := c == ' ' || c == '\n' || c == '\t' || c == '\r'

def skipSpace (cs : List Char) : List Char := cs.dropWhile isSpace

def hexValue? (c : Char) : Option Nat :=
  if '0' ≤ c && c ≤ '9' then some (c.toNat - '0'.toNat)
  else if 'a' ≤ c && c ≤ 'f' then some (c.toNat - 'a'.toNat + 10)
  else if 'A' ≤ c && c ≤ 'F' then some (c.toNat - 'A'.toNat + 10)
  else none

def hexUnit? (a b c d : Char) : Option Nat := do
  return (((← hexValue? a) * 16 + (← hexValue? b)) * 16 + (← hexValue? c)) * 16 + (← hexValue? d)

/-- The characters read so far, last first; an open first half of a pair; no escape was wrong. -/
structure TextState where
  chars : List Char := []
  half : Option Nat := none
  sound : Bool := true

def TextState.push (t : TextState) (c : Char) : TextState :=
  ⟨c :: t.chars, none, t.sound && t.half.isNone⟩

/-- A unit written by number: a character, or half of a pair. -/
def TextState.unit (t : TextState) (n : Nat) : TextState :=
  if 0xD800 ≤ n && n < 0xDC00 then ⟨t.chars, some n, t.sound && t.half.isNone⟩
  else if 0xDC00 ≤ n && n < 0xE000 then
    match t.half with
    | some h =>
      ⟨Char.ofNat (0x10000 + (h - 0xD800) * 0x400 + (n - 0xDC00)) :: t.chars, none, t.sound⟩
    | none => { t with sound := false }
  else t.push (Char.ofNat n)

def TextState.finish (t : TextState) : Option String :=
  if t.sound && t.half.isNone then some (String.ofList t.chars.reverse) else none

def simpleEscape? (c : Char) : Option Char :=
  if c == '"' || c == '\\' || c == '/' then some c
  else if c == 'b' then some (Char.ofNat 8)
  else if c == 'f' then some (Char.ofNat 12)
  else if c == 'n' then some '\n'
  else if c == 'r' then some '\r'
  else if c == 't' then some '\t'
  else none

/-- The rest of a text after its opening quote; none when the grammar breaks in it. -/
def readText (t : TextState) : List Char → Option (Option String × List Char)
  | '"' :: rest => some (t.finish, rest)
  | '\\' :: 'u' :: a :: b :: c :: d :: rest =>
    match hexUnit? a b c d with
    | some n => readText (t.unit n) rest
    | none => none
  | '\\' :: c :: rest =>
    match simpleEscape? c with
    | some e => readText (t.push e) rest
    | none => none
  | c :: rest => if c.toNat < 0x20 || c == '\\' then none else readText (t.push c) rest
  | [] => none

/-- An optional power of ten; none when it is begun without digits. -/
def readPower : List Char → Option (Option (Bool × List Char) × List Char)
  | c :: rest =>
    if c == 'e' || c == 'E' then
      let (negative, rest) := match rest with
        | '+' :: r => (false, r)
        | '-' :: r => (true, r)
        | r => (false, r)
      let digits := rest.takeWhile Char.isDigit
      if digits.isEmpty then none
      else some (some (negative, digits), rest.dropWhile Char.isDigit)
    else some (none, c :: rest)
  | [] => some (none, [])

/-- An optional part behind the point; none when the point has no digit behind it. -/
def readPart : List Char → Option (Option (List Char) × List Char)
  | '.' :: rest =>
    let digits := rest.takeWhile Char.isDigit
    if digits.isEmpty then none else some (some digits, rest.dropWhile Char.isDigit)
  | cs => some (none, cs)

/-- A number without its sign; none when the grammar breaks in it. -/
def readNumber (negative : Bool) (cs : List Char) : Option (Option Numeral × List Char) :=
  let whole := cs.takeWhile Char.isDigit
  if whole.isEmpty || (whole.head? == some '0' && 1 < whole.length) then none
  else do
    let (part, rest) ← readPart (cs.dropWhile Char.isDigit)
    let (power, rest) ← readPower rest
    return (Numeral.ofParts? ⟨negative, whole, part, power⟩, rest)

/-- A sketch and what follows it, unless the grammar breaks in it. -/
abbrev Reading := Sketch × Option (List Char)

def word (w : List Char) (v : Sketch) (cs : List Char) : Reading :=
  if w.isPrefixOf cs then (v, some (cs.drop w.length)) else (.broken, none)

mutual

/-- The fuel bounds the number of values and separators ahead. -/
def readValue : Nat → List Char → Reading
  | 0, _ => (.broken, none)
  | fuel + 1, cs =>
    match skipSpace cs with
    | '"' :: rest =>
      match readText {} rest with
      | some (s, rest) => (.text s, some rest)
      | none => (.broken, none)
    | '[' :: rest =>
      match skipSpace rest with
      | ']' :: rest => (.list [] true, some rest)
      | rest => let (items, closed, rest) := readItems fuel rest; (.list items closed, rest)
    | '{' :: rest =>
      match skipSpace rest with
      | '}' :: rest => (.record [] true, some rest)
      | rest => let (members, closed, rest) := readMembers fuel rest; (.record members closed, rest)
    | '-' :: rest =>
      match readNumber true rest with
      | some (n, rest) => (.number n, some rest)
      | none => (.broken, none)
    | c :: rest =>
      if c.isDigit then
        match readNumber false (c :: rest) with
        | some (n, rest) => (.number n, some rest)
        | none => (.broken, none)
      else if c == 'n' then word "null".toList .null (c :: rest)
      else if c == 't' then word "true".toList (.flag true) (c :: rest)
      else word "false".toList (.flag false) (c :: rest)
    | [] => (.broken, none)

def readItems : Nat → List Char → List Sketch × Bool × Option (List Char)
  | 0, _ => ([], false, none)
  | fuel + 1, cs =>
    match readValue fuel cs with
    | (v, none) => ([v], false, none)
    | (v, some rest) =>
      match skipSpace rest with
      | ']' :: rest => ([v], true, some rest)
      | ',' :: rest =>
        let (items, closed, rest) := readItems fuel rest
        (v :: items, closed, rest)
      | _ => ([v], false, none)

def readMembers : Nat → List Char → List (Option String × Sketch) × Bool × Option (List Char)
  | 0, _ => ([], false, none)
  | fuel + 1, cs =>
    match skipSpace cs with
    | '"' :: rest =>
      match readText {} rest with
      | none => ([], false, none)
      | some (key, rest) =>
        match skipSpace rest with
        | ':' :: rest =>
          match readValue fuel rest with
          | (v, none) => ([(key, v)], false, none)
          | (v, some rest) =>
            match skipSpace rest with
            | '}' :: rest => ([(key, v)], true, some rest)
            | ',' :: rest =>
              let (members, closed, rest) := readMembers fuel rest
              ((key, v) :: members, closed, rest)
            | _ => ([(key, v)], false, none)
        | _ => ([(key, .broken)], false, none)
    | _ => ([], false, none)

end

/-- A whole text: its sketch, and whether nothing but space follows it. -/
def sketch (s : String) : Sketch × Bool :=
  let cs := s.toList
  match readValue (2 * cs.length + 1) cs with
  | (v, some rest) => (v, (skipSpace rest).isEmpty)
  | (v, none) => (v, false)

mutual

def Sketch.complete : Sketch → Bool
  | .list items closed => closed && completeItems items
  | .record members closed => closed && completeMembers members
  | .broken => false
  | _ => true

def completeItems : List Sketch → Bool
  | [] => true
  | v :: rest => v.complete && completeItems rest

def completeMembers : List (Option String × Sketch) → Bool
  | [] => true
  | (_, v) :: rest => v.complete && completeMembers rest

end

end ClassScribe.Json
