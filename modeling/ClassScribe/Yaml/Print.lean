import ClassScribe.Json.Tree
import ClassScribe.Yaml.Core
import ClassScribe.Yaml.Cursor
import ClassScribe.Yaml.Token

/-! # Writing YAML

A value in block style, lists at the column of the record they are in. A text of several lines is a
literal block. Any other text stands plain where it reads back as itself, and is quoted once where
that suffices. Texts that no other style can hold are quoted twice, with escapes.
-/
namespace ClassScribe.Yaml

def isShown (c : Char) : Bool :=
  let n := c.toNat
  n == 0xA || (0x20 ≤ n && n ≤ 0x7E) || (0xA0 ≤ n && n ≤ 0xD7FF) ||
  (0xE000 ≤ n && n ≤ 0xFFFD && c != byteOrderMark) || 0x10000 ≤ n

def anyPair (p : Char → Char → Bool) (cs : List Char) : Bool :=
  (cs.zip cs.tail).any fun (a, b) => p a b

def hasSpaceBeforeBreak (cs : List Char) : Bool := anyPair (fun a b => a == ' ' && isBreak b) cs

def hasBreakBeforeSpace (cs : List Char) : Bool := anyPair (fun a b => isBreak a && b == ' ') cs

/-- A colon in front of a gap, or a comment sign behind one. -/
def hasInnerSign (afterGap : Bool) : List Char → Bool
  | [] => false
  | c :: rest =>
    (c == ':' && atGap rest) || (c == '#' && afterGap) ||
      hasInnerSign (isSpaceOrTab c || isBreak c) rest

/-- What would be read as part of the notation. -/
def hasSign (cs : List Char) : Bool :=
  "---".toList.isPrefixOf cs || "...".toList.isPrefixOf cs ||
  nextIn ",[]\x7b\x7d&*!|>'\"%@\x60" cs || (nextIn "?-" cs && atGap cs.tail) ||
  hasInnerSign true cs

def fitsPlain (cs : List Char) : Bool :=
  cs.all (fun c => isShown c && !isBreak c) && cs.head? != some ' ' && cs.getLast? != some ' ' &&
  !hasSign cs

def fitsSingle (cs : List Char) : Bool :=
  cs.all isShown && !hasSpaceBeforeBreak cs && !hasBreakBeforeSpace cs

def fitsLiteral (cs : List Char) : Bool :=
  cs.all isShown && !hasSpaceBeforeBreak cs && cs.getLast? != some ' '

/-- A plain scalar that means its text, also to readers for which padded digits are a number. -/
def meansText (s : String) : Bool :=
  !Core.isPadded s.toList &&
  match Core.datum? s with
  | some (.text _) => true
  | _ => false

def styleOf (s : String) : Style :=
  let cs := s.toList
  if cs.contains '\n' then (if fitsLiteral cs then .literal else .doubleQuoted)
  else if meansText s && fitsPlain cs then .plain
  else if fitsSingle cs then .singleQuoted
  else .doubleQuoted

def margin (indent : Nat) : List Char := List.replicate indent ' '

/-- The content of a scalar, with a margin after every break. -/
def indented (indent : Nat) (write : Char → List Char) (atStart : Bool) : List Char → List Char
  | [] => []
  | c :: rest =>
    if isBreak c then c :: indented indent write true rest
    else (if atStart then margin indent else []) ++ write c ++ indented indent write false rest

def endsInBreak (cs : List Char) : Bool := cs.getLast?.any isBreak

/-- How a literal block keeps its end: dropped, kept as one break, or kept with all breaks. -/
def literalHeader (cs : List Char) : List Char :=
  let hint := if cs.head?.any (fun c => c == ' ' || isBreak c) then ['2'] else []
  let chomping :=
    if !endsInBreak cs then ['-']
    else if cs.dropLast.isEmpty || endsInBreak cs.dropLast then ['+']
    else []
  '|' :: hint ++ chomping

def literalChars (indent : Nat) (cs : List Char) : List Char :=
  literalHeader cs ++ '\n' :: indented indent ([·]) true cs ++
    (if endsInBreak cs then [] else ['\n'])

def singleChars (indent : Nat) (cs : List Char) : List Char :=
  let double (c : Char) : List Char := if c == '\'' then ['\'', '\''] else [c]
  let last := if endsInBreak cs then margin indent else []
  '\'' :: indented indent double false cs ++ last ++ ['\'']

/-- Characters with an escape of their own. -/
def escapes : List (Nat × Char) := [
  (0x00, '0'), (0x07, 'a'), (0x08, 'b'), (0x09, 't'), (0x0A, 'n'), (0x0B, 'v'), (0x0C, 'f'),
  (0x0D, 'r'), (0x1B, 'e'), (0x22, '"'), (0x5C, '\\'), (0x85, 'N'), (0x2028, 'L'), (0x2029, 'P')]

def hexText (width n : Nat) : List Char :=
  let digits := (Nat.toDigits 16 n).map Char.toUpper
  List.replicate (width - digits.length) '0' ++ digits

/-- All characters beyond the first plane are shown, so four digits suffice. -/
def doubleChar (c : Char) : List Char :=
  match escapes.lookup c.toNat with
  | some e => ['\\', e]
  | none =>
    if isShown c then [c]
    else if c.toNat ≤ 0xFF then '\\' :: 'x' :: hexText 2 c.toNat
    else '\\' :: 'u' :: hexText 4 c.toNat

/-- A text behind its key or dash, to the end of its last line. -/
def textChars (indent : Nat) (s : String) : List Char :=
  match styleOf s with
  | .literal => literalChars indent s.toList
  | .singleQuoted => singleChars indent s.toList ++ ['\n']
  | .doubleQuoted => '"' :: s.toList.flatMap doubleChar ++ ['"', '\n']
  | _ => s.toList ++ ['\n']

mutual

/-- A value behind a dash (`listed`) or a key that stands at a column. -/
def valueChars (column : Nat) (listed : Bool) : Json → List Char
  | .null => " null\n".toList
  | .flag b => ' ' :: Json.flagChars b ++ ['\n']
  | .number n => ' ' :: Nat.toDigits 10 n ++ ['\n']
  | .text s => ' ' :: textChars (column + 2) s
  | .list [] => " []\n".toList
  | .record [] => " \x7b\x7d\n".toList
  | .list items =>
    if listed then ' ' :: (itemsChars (column + 2) items).drop (column + 2)
    else '\n' :: itemsChars column items
  | .record members =>
    if listed then ' ' :: (membersChars (column + 2) members).drop (column + 2)
    else '\n' :: membersChars (column + 2) members

def itemsChars (column : Nat) : List Json → List Char
  | [] => []
  | v :: rest => margin column ++ '-' :: valueChars column true v ++ itemsChars column rest

/-- Keys are words that need no quotes. -/
def membersChars (column : Nat) : List (String × Json) → List Char
  | [] => []
  | (k, v) :: rest =>
    margin column ++ k.toList ++ ':' :: valueChars column false v ++ membersChars column rest

end

def print (v : Json) : String :=
  String.ofList <| match v with
  | .list (x :: xs) => itemsChars 0 (x :: xs)
  | .record (m :: ms) => membersChars 0 (m :: ms)
  | v => (valueChars 0 false v).drop 1

end ClassScribe.Yaml
