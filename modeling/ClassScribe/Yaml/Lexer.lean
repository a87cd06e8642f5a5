import ClassScribe.Yaml.Tag

/-! # From a text to tokens

A key is known to be one only when its colon comes. Until then an empty slot keeps its place among
the tokens; the colon fills it. Each flow collection has a pending key of its own. Indentation is
counted in block collections only, where it opens and closes them.
-/
namespace ClassScribe.Yaml

/-- Something that is a key if a colon follows it on its line, within 1024 octets. -/
structure PendingKey where
  slot : Nat
  /-- Nothing but a key may stand there. -/
  required : Bool
  place : Place

structure Lexer where
  rest : List Char
  place : Place := {}
  slots : Array (List Token) := #[]
  /-- Columns of the open block collections, innermost first. -/
  indents : List Nat := []
  /-- A key may begin at the next token. -/
  keyAllowed : Bool := true
  pending : Option PendingKey := none
  /-- Pending keys around the open flow collections, innermost first. -/
  around : List (Option PendingKey) := []
  done : Bool := false

/-- Past white space, breaks and comments. A line may begin with a byte order mark, which takes a
column. -/
def skipGap (flow keyAllowed comment : Bool) (p : Place) : List Char → Bool × Place × List Char
  | [] => (keyAllowed, p, [])
  | '\r' :: '\n' :: rest => skipGap flow (keyAllowed || !flow) false p.nextLine rest
  | c :: rest =>
    if isBreak c then skipGap flow (keyAllowed || !flow) false p.nextLine rest
    else if comment then skipGap flow keyAllowed true (p.past c) rest
    else if c == ' ' || (c == '\t' && (flow || !keyAllowed)) ||
        (c == byteOrderMark && p.column == 0) then
      skipGap flow keyAllowed false (p.past c) rest
    else if c == '#' then skipGap flow keyAllowed true (p.step 1) rest
    else (keyAllowed, p, c :: rest)

def pastBreak (p : Place) : List Char → Place × List Char
  | '\r' :: '\n' :: rest => (p.nextLine, rest)
  | c :: rest => if isBreak c then (p.nextLine, rest) else (p, c :: rest)
  | [] => (p, [])

namespace Lexer

def flow (s : Lexer) : Bool := !s.around.isEmpty

/-- The column of the innermost block collection, `-1` outside all. -/
def indent (s : Lexer) : Int :=
  match s.indents with
  | [] => -1
  | n :: _ => n

def emit (s : Lexer) (t : Token) : Lexer := { s with slots := s.slots.push [t] }

def forward (s : Lexer) (n : Nat) : Lexer :=
  { s with rest := s.rest.drop n, place := (s.rest.take n).foldl Place.past s.place }

def advance (s : Lexer) (rest : List Char) : Lexer := s.forward (s.rest.length - rest.length)

def allowKey (s : Lexer) (allowed : Bool) : Lexer := { s with keyAllowed := allowed }

def skip (s : Lexer) : Lexer :=
  let (allowed, p, rest) := skipGap s.flow s.keyAllowed false s.place s.rest
  { s with keyAllowed := allowed, place := p, rest := rest }

def dropKey (s : Lexer) : Except Fault Lexer :=
  if s.pending.any (·.required) then .error .missingColon else .ok { s with pending := none }

/-- What begins here may turn out to be a key. -/
def openKey (s : Lexer) : Except Fault Lexer :=
  if s.keyAllowed then do
    let s ← s.dropKey
    let key := ⟨s.slots.size, !s.flow && s.indent == s.place.column, s.place⟩
    .ok { s with slots := s.slots.push [], pending := some key }
  else .ok s

def staleKey (now : Place) : Option PendingKey → Except Fault (Option PendingKey)
  | none => .ok none
  | some k =>
    if k.place.line < now.line || k.place.octets + 1024 < now.octets then
      if k.required then .error .missingColon else .ok none
    else .ok (some k)

/-- Give up keys whose colon can no longer come. -/
def dropStaleKeys (s : Lexer) : Except Fault Lexer := do
  return { s with
    pending := ← staleKey s.place s.pending, around := ← s.around.mapM (staleKey s.place) }

/-- Close the block collections whose column does not stay. -/
def unroll (s : Lexer) (stays : Nat → Bool) : Lexer :=
  let closed := s.indents.takeWhile (!stays ·)
  { s with
    indents := s.indents.dropWhile (!stays ·)
    slots := s.slots ++ (closed.map fun _ => [Token.blockEnd]).toArray }

def unrollAll (s : Lexer) : Lexer := s.unroll fun _ => false

/-- Open a block collection in a column, unless one is open there: its token, if one is opened. -/
def roll (s : Lexer) (column : Nat) (start : Token) : Lexer × List Token :=
  if !s.flow && s.indent < column then ({ s with indents := column :: s.indents }, [start])
  else (s, [])

def rollHere (s : Lexer) (start : Token) : Except Fault Lexer :=
  if s.flow then .ok s
  else if !s.keyAllowed then .error .misplaced
  else
    let (s, opened) := s.roll s.place.column start
    .ok { s with slots := s.slots.push opened }

def finish (s : Lexer) : Except Fault Lexer := do
  let s ← s.unrollAll.dropKey
  return { s.emit .streamEnd with done := true }

/-- A token of one character, and whether a key may follow it. -/
def mark (s : Lexer) (t : Token) (keyAllowed : Bool) : Lexer :=
  ((s.emit t).forward 1).allowKey keyAllowed

def documentMark (s : Lexer) (t : Token) : Except Fault Lexer := do
  let s ← s.unrollAll.dropKey
  return ((s.emit t).forward 3).allowKey false

def directive (s : Lexer) (rest : List Char) : Except Fault Lexer := do
  let s ← s.unrollAll.dropKey
  let (t, rest) ← scanDirective rest
  let s := ((s.emit t).advance rest).allowKey false
  let (p, rest) := pastBreak s.place s.rest
  return { s with place := p, rest := rest }

def openFlow (s : Lexer) (t : Token) : Except Fault Lexer := do
  let s ← s.openKey
  return { s with pending := none, around := s.pending :: s.around }.mark t true

def closeFlow (s : Lexer) (t : Token) : Except Fault Lexer := do
  let s ← s.dropKey
  let s := match s.around with
    | [] => s
    | key :: around => { s with pending := key, around := around }
  return s.mark t false

def separate (s : Lexer) : Except Fault Lexer := do
  return (← s.dropKey).mark .flowEntry true

def entry (s : Lexer) : Except Fault Lexer := do
  let s ← (← s.rollHere .blockSequenceStart).dropKey
  return s.mark .blockEntry true

def explicitKey (s : Lexer) : Except Fault Lexer := do
  let s ← (← s.rollHere .blockMappingStart).dropKey
  return s.mark .key !s.flow

/-- A colon makes the pending key a key; without one, the key is empty. -/
def value (s : Lexer) : Except Fault Lexer :=
  match s.pending with
  | some k =>
    let (s, opened) := s.roll k.place.column .blockMappingStart
    let slots := s.slots.setIfInBounds k.slot (opened ++ [.key])
    .ok ({ s with pending := none, slots := slots }.mark .value false)
  | none => do
    let s ← s.rollHere .blockMappingStart
    return s.mark .value !s.flow

def content (s : Lexer) (scan : List Char → Except Fault (Token × List Char)) (cs : List Char) :
    Except Fault Lexer := do
  let s ← s.openKey
  let (t, rest) ← scan cs
  return ((s.emit t).advance rest).allowKey false

def scalar (s : Lexer) (style : Style) (r : Scanned) : Lexer :=
  { s.emit (.scalar style r.text) with place := r.place, rest := r.rest }

def quoted (s : Lexer) (style : Style) (scan : Fold → Place → List Char → Except Fault Scanned)
    (rest : List Char) : Except Fault Lexer := do
  let s ← s.openKey
  return (s.allowKey false).scalar style (← scan {} (s.place.step 1) rest)

def plain (s : Lexer) : Except Fault Lexer := do
  let s ← s.openKey
  let r ← scanPlain s.flow (s.indent + 1) .start {} s.place s.rest
  return (s.allowKey r.broke).scalar .plain r

def block (s : Lexer) (style : Style) (rest : List Char) : Except Fault Lexer := do
  let s ← s.dropKey
  let (header, rest) := blockHeader rest
  let s := s.advance (← skipLineEnd .blockHeader rest)
  let (p, rest) := pastBreak s.place s.rest
  let indent := header.increment.map fun n => (max s.indent 0).toNat + n
  let r ← scanBlock (style == .folded) header.chomping s.indent { indent := indent } p rest
  return (s.allowKey true).scalar style r

def beginsPlain (flow : Bool) (c : Char) (rest : List Char) : Bool :=
  !(isSpaceOrTab c || "-?:,[]\x7b\x7d#&*!|>'\"%@\x60".toList.contains c) ||
  (c == '-' && !rest.head?.any isSpaceOrTab) ||
  (!flow && (c == '?' || c == ':') && !atGap rest)

/-- Read one token, at a place where no gap is left. -/
def token (s : Lexer) : Except Fault Lexer :=
  match s.rest with
  | [] => s.finish
  | c :: rest =>
    if s.place.column == 0 && c == '%' then s.directive rest
    else if s.place.column == 0 && atDocumentMark s.rest then
      s.documentMark (if c == '-' then .documentStart else .documentEnd)
    else if c == '[' then s.openFlow .flowSequenceStart
    else if c == '{' then s.openFlow .flowMappingStart
    else if c == ']' then s.closeFlow .flowSequenceEnd
    else if c == '}' then s.closeFlow .flowMappingEnd
    else if c == ',' then s.separate
    else if c == '-' && atGap rest then s.entry
    else if c == '?' && (s.flow || atGap rest) then s.explicitKey
    else if c == ':' && (s.flow || atGap rest) then s.value
    else if c == '*' then
      s.content (fun cs => do let (name, rest) ← scanName cs; return (.alias name, rest)) rest
    else if c == '&' then
      s.content (fun cs => do let (name, rest) ← scanName cs; return (.anchor name, rest)) rest
    else if c == '!' then s.content (scanTag s.flow) s.rest
    else if c == '|' && !s.flow then s.block .literal rest
    else if c == '>' && !s.flow then s.block .folded rest
    else if c == '\'' then s.quoted .singleQuoted scanSingle rest
    else if c == '"' then s.quoted .doubleQuoted (scanDouble none) rest
    else if beginsPlain s.flow c rest then s.plain
    else .error .token

def step (s : Lexer) : Except Fault Lexer := do
  let s ← s.skip.dropStaleKeys
  (if s.flow then s else s.unroll (· ≤ s.place.column)).token

/-- The fuel bounds the tokens ahead; each takes at least one character. -/
def run : Nat → Lexer → Except Fault Lexer
  | 0, _ => .error .token
  | fuel + 1, s => do
    let s ← s.step
    if s.done then return s else run fuel s

end Lexer

def tokens (text : String) : Except Fault (List Token) := do
  let cs := text.toList
  if cs.all isPermitted then
    let s ← Lexer.run (cs.length + 1) { rest := cs }
    return s.slots.toList.flatten
  else .error .character

end ClassScribe.Yaml
