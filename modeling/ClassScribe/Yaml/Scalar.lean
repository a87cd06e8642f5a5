import ClassScribe.Yaml.Cursor
import ClassScribe.Yaml.Fault
import ClassScribe.Yaml.Token

/-! # Reading scalars

One pass over the characters for each of the three ways to write a scalar. Plain and quoted
scalars share the folding of line breaks: a single break becomes a space, further breaks stay,
and white space around breaks is dropped.
-/
namespace ClassScribe.Yaml

/-- A text being folded; all parts but `lead` are kept last character first. -/
structure Fold where
  text : List Char := []
  /-- White space since the last character of the text, in front of any break. -/
  blanks : List Char := []
  /-- The first break since then. -/
  lead : List Char := []
  /-- The further breaks. -/
  trail : List Char := []
  /-- A break, written out or escaped, was met since then. -/
  broke : Bool := false

namespace Fold

def addBlank (f : Fold) (c : Char) : Fold :=
  if f.broke then f else { f with blanks := c :: f.blanks }

def addBreak (f : Fold) (c : Char) : Fold :=
  if f.broke then { f with trail := breakText c :: f.trail }
  else { f with blanks := [], lead := [breakText c], broke := true }

/-- Settle what stands between the text so far and its next character. -/
def join (f : Fold) : Fold :=
  if !f.broke then { text := f.blanks ++ f.text }
  else if f.lead == ['\n'] then
    { text := if f.trail.isEmpty then ' ' :: f.text else f.trail ++ f.text }
  else { text := f.trail ++ f.lead ++ f.text }

def push (f : Fold) (c : Char) : Fold := { f with text := c :: f.text }

def result (f : Fold) : String := String.ofList f.text.reverse

end Fold

/-- A scalar, whether a break came last in it, and where it ends. -/
structure Scanned where
  text : String
  broke : Bool := false
  place : Place
  rest : List Char

inductive PlainMode where
  | start
  | text
  | gap
  deriving DecidableEq

/-- Outside flow collections a plain scalar goes on only in columns from `indent`. -/
def scanPlain (flow : Bool) (indent : Int) (mode : PlainMode) (f : Fold) (p : Place) :
    List Char → Except Fault Scanned
  | [] => .ok ⟨f.result, f.broke, p, []⟩
  | '\r' :: '\n' :: rest => scanPlain flow indent .gap (f.addBreak '\n') p.nextLine rest
  | c :: rest =>
    if isBreak c then scanPlain flow indent .gap (f.addBreak c) p.nextLine rest
    else if isSpaceOrTab c then
      if f.broke && c == '\t' && p.column < indent then .error .tab
      else scanPlain flow indent .gap (f.addBlank c) (p.step 1) rest
    else if mode == .gap && !flow && p.column < indent then .ok ⟨f.result, f.broke, p, c :: rest⟩
    else if mode != .text && (c == '#' || (p.column == 0 && atDocumentMark (c :: rest))) then
      .ok ⟨f.result, f.broke, p, c :: rest⟩
    else if flow && c == ':' && nextIn ",?[]\x7b\x7d" rest then .error .plainText
    else if (c == ':' && atGap rest) || (flow && ",[]\x7b\x7d".toList.contains c) then
      .ok ⟨f.result, f.broke, p, c :: rest⟩
    else scanPlain flow indent .text (f.join.push c) (p.past c) rest

def hexValue? (c : Char) : Option Nat :=
  if '0' ≤ c && c ≤ '9' then some (c.toNat - '0'.toNat)
  else if 'a' ≤ c && c ≤ 'f' then some (c.toNat - 'a'.toNat + 10)
  else if 'A' ≤ c && c ≤ 'F' then some (c.toNat - 'A'.toNat + 10)
  else none

def escapeValue? (c : Char) : Option Char :=
  if c == '0' then some (Char.ofNat 0)
  else if c == 'a' then some (Char.ofNat 7)
  else if c == 'b' then some (Char.ofNat 8)
  else if c == 't' || c == '\t' then some '\t'
  else if c == 'n' then some '\n'
  else if c == 'v' then some (Char.ofNat 0xB)
  else if c == 'f' then some (Char.ofNat 0xC)
  else if c == 'r' then some '\r'
  else if c == 'e' then some (Char.ofNat 0x1B)
  else if c == ' ' || c == '"' || c == '/' || c == '\\' then some c
  else if c == 'N' then some (Char.ofNat 0x85)
  else if c == '_' then some (Char.ofNat 0xA0)
  else if c == 'L' then some (Char.ofNat 0x2028)
  else if c == 'P' then some (Char.ofNat 0x2029)
  else none

def escapeDigits (c : Char) : Nat :=
  if c == 'x' then 2 else if c == 'u' then 4 else if c == 'U' then 8 else 0

/-- `code` is an escape by number that is under way: the digits left and the value so far. -/
def scanDouble (code : Option (Nat × Nat)) (f : Fold) (p : Place) :
    List Char → Except Fault Scanned
  | [] => .error .quotedText
  | '\\' :: '\r' :: '\n' :: rest =>
    if code.isSome then .error .quotedText
    else scanDouble none { f.join with broke := true } p.nextLine rest
  | '\\' :: c :: rest =>
    if code.isSome then .error .quotedText
    else if isBreak c then scanDouble none { f.join with broke := true } p.nextLine rest
    else if 0 < escapeDigits c then scanDouble (some (escapeDigits c, 0)) f.join (p.step 2) rest
    else match escapeValue? c with
      | some e => scanDouble none (f.join.push e) (p.step 2) rest
      | none => .error .quotedText
  | '\r' :: '\n' :: rest =>
    if code.isSome then .error .quotedText
    else scanDouble none (f.addBreak '\n') p.nextLine rest
  | c :: rest =>
    match code with
    | some (left, value) =>
      match hexValue? c with
      | none => .error .quotedText
      | some h =>
        let value := value * 16 + h
        if 1 < left then scanDouble (some (left - 1, value)) f (p.step 1) rest
        else if (0xD800 ≤ value && value ≤ 0xDFFF) || 0x10FFFF < value then .error .quotedText
        else scanDouble none (f.push (Char.ofNat value)) (p.step 1) rest
    | none =>
      if isBreak c then scanDouble none (f.addBreak c) p.nextLine rest
      else if isSpaceOrTab c then scanDouble none (f.addBlank c) (p.step 1) rest
      else if p.column == 0 && atDocumentMark (c :: rest) then .error .quotedText
      else if c == '"' then .ok ⟨f.join.result, false, p.step 1, rest⟩
      else if c == '\\' then .error .quotedText
      else scanDouble none (f.join.push c) (p.past c) rest

def scanSingle (f : Fold) (p : Place) : List Char → Except Fault Scanned
  | [] => .error .quotedText
  | '\'' :: '\'' :: rest => scanSingle (f.join.push '\'') (p.step 2) rest
  | '\r' :: '\n' :: rest => scanSingle (f.addBreak '\n') p.nextLine rest
  | c :: rest =>
    if isBreak c then scanSingle (f.addBreak c) p.nextLine rest
    else if isSpaceOrTab c then scanSingle (f.addBlank c) (p.step 1) rest
    else if p.column == 0 && atDocumentMark (c :: rest) then .error .quotedText
    else if c == '\'' then .ok ⟨f.join.result, false, p.step 1, rest⟩
    else scanSingle (f.join.push c) (p.past c) rest

/-- Which of the breaks at the end of a block scalar stay. -/
inductive Chomping where
  | strip
  | clip
  | keep
  deriving DecidableEq

structure BlockHeader where
  chomping : Chomping := .clip
  /-- Columns of indentation beyond the parent, when they are written. -/
  increment : Option Nat := none

def increment? (c : Char) : Option Nat :=
  if '1' ≤ c && c ≤ '9' then some (c.toNat - '0'.toNat) else none

def chomping? (c : Char) : Option Chomping :=
  if c == '+' then some .keep else if c == '-' then some .strip else none

/-- The indicators behind `|` or `>`, in either order. -/
def blockHeader : List Char → BlockHeader × List Char
  | [] => ({}, [])
  | c :: rest =>
    match chomping? c, increment? c with
    | some h, _ =>
      match rest with
      | d :: more => match increment? d with
        | some n => (⟨h, some n⟩, more)
        | none => (⟨h, none⟩, rest)
      | [] => (⟨h, none⟩, [])
    | none, some n =>
      match rest with
      | d :: more => match chomping? d with
        | some h => (⟨h, some n⟩, more)
        | none => (⟨.clip, some n⟩, rest)
      | [] => (⟨.clip, some n⟩, [])
    | none, none => ({}, c :: rest)

/-- A block scalar being read; the parts of its text are kept last character first. -/
structure BlockState where
  text : List Char := []
  lead : List Char := []
  trail : List Char := []
  /-- The indentation, once it is known. -/
  indent : Option Nat
  widest : Nat := 0
  /-- The line before begins with white space. -/
  leadingBlank : Bool := false
  inLine : Bool := false

namespace BlockState

/-- Inside the margin, where spaces only indent. -/
def inMargin (s : BlockState) (column : Nat) : Bool :=
  match s.indent with
  | none => true
  | some n => column < n

/-- The indentation of the scalar when its first line of text is met in some column. -/
def settled (s : BlockState) (parent : Int) (column : Nat) : Nat :=
  s.indent.getD (max (max (max s.widest column) (parent + 1).toNat) 1)

/-- Begin a line of text with `c`; a fold joins two lines that begin without white space. -/
def beginLine (s : BlockState) (folded : Bool) (indent : Nat) (c : Char) : BlockState :=
  let blank := isSpaceOrTab c
  let kept :=
    if folded && s.lead == ['\n'] && !s.leadingBlank && !blank then
      if s.trail.isEmpty then [' '] else []
    else s.lead
  { s with
    text := c :: (s.trail ++ kept ++ s.text), lead := [], trail := [], indent := some indent,
    leadingBlank := blank, inLine := true }

def breakLine (s : BlockState) (column : Nat) (c : Char) : BlockState :=
  if s.inLine then { s with lead := [breakText c], inLine := false }
  else { s with trail := breakText c :: s.trail, widest := max s.widest column }

def result (s : BlockState) (h : Chomping) : String :=
  let tail := match h with
    | .strip => []
    | .clip => s.lead
    | .keep => s.trail ++ s.lead
  String.ofList (tail ++ s.text).reverse

end BlockState

/-- The lines of a block scalar below a parent indented by `parent`. -/
def scanBlock (folded : Bool) (h : Chomping) (parent : Int) (s : BlockState) (p : Place) :
    List Char → Except Fault Scanned
  | [] => .ok ⟨s.result h, false, p, []⟩
  | '\r' :: '\n' :: rest =>
    scanBlock folded h parent (s.breakLine p.column '\n') p.nextLine rest
  | c :: rest =>
    if isBreak c then scanBlock folded h parent (s.breakLine p.column c) p.nextLine rest
    else if s.inLine then
      scanBlock folded h parent { s with text := c :: s.text } (p.past c) rest
    else if s.inMargin p.column && c == ' ' then scanBlock folded h parent s (p.step 1) rest
    else if s.inMargin p.column && c == '\t' then .error .tab
    else
      let indent := s.settled parent p.column
      if p.column == indent then
        scanBlock folded h parent (s.beginLine folded indent c) (p.past c) rest
      else .ok ⟨s.result h, false, p, c :: rest⟩

end ClassScribe.Yaml
