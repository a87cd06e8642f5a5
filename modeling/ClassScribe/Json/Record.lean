import ClassScribe.Json.Sketch
import ClassScribe.Record.Buffered

/-! # Reading records from JSON

The first problem from left to right is the one reported, and a value of the wrong shape is
reported before any break of the grammar behind it. Records may be written as lists. Lists and
records nest up to a limit, except inside values that are passed over.
-/
namespace ClassScribe.Json
open Number

inductive ReadError where
  /-- The text breaks the grammar, nests too deeply, or holds a number or text without a value. -/
  | malformed
  | shape (e : ShapeError)
  deriving Repr

/-- What is told of a value of the wrong shape; breaks of the grammar are only told as such. -/
def ReadError.detail? : ReadError → Option String
  | .malformed => none
  | .shape e => some e.message

abbrev Reader := Except ReadError

def maxDepth : Nat := 127

def malformed {α : Type} : Reader α := .error .malformed

/-- Refuse a value that is not what is wanted; a value that cannot be read at all is malformed. -/
def wrong {α : Type} (wanted : Wanted) : Sketch → Reader α
  | .null => .error (.shape (.wrongType .null wanted))
  | .flag b => .error (.shape (.wrongType (.flag b) wanted))
  | .number (some n) => .error (.shape (.wrongType (.number n) wanted))
  | .text (some s) => .error (.shape (.wrongType (.text s) wanted))
  | .list _ _ => .error (.shape (.wrongType .list wanted))
  | .record _ _ => .error (.shape (.wrongType .record wanted))
  | _ => malformed

def readString : Sketch → Reader String
  | .text (some s) => .ok s
  | v => wrong .text v

def readFlag : Sketch → Reader Bool
  | .flag b => .ok b
  | v => wrong .flag v

def readCount : Sketch → Reader Nat
  | .number (some (.natural n)) => .ok n
  | .number (some (.negative n)) => .error (.shape (.negativeCount n))
  | v => wrong .count v

def readOptional {α : Type} (read : Sketch → Reader α) : Sketch → Reader (Option α)
  | .null => .ok none
  | v => some <$> read v

def readList {α : Type} (depth : Nat) (read : Sketch → Reader α) : Sketch → Reader (List α)
  | .list items closed =>
    if depth = 0 then malformed
    else do
      let values ← items.mapM read
      if closed then return values else malformed
  | v => wrong .list v

variable {ρ : Type}

/-- Members in the order of the text; `given` fields were read already. -/
def recordMembers (s : Shape Sketch Reader ρ) (closed : Bool) (given : List String) (r : ρ) :
    List (Option String × Sketch) → Reader ρ
  | [] =>
    if closed then
      match s.missing? given with
      | some name => .error (.shape (.missingField name))
      | none => .ok r
    else malformed
  | (none, _) :: _ => malformed
  | (some key, v) :: rest =>
    match s.field? key with
    | none => if v.complete then recordMembers s closed given r rest else malformed
    | some f =>
      if given.contains key then .error (.shape (.duplicateField key))
      else do recordMembers s closed (key :: given) ((← f.read v) r) rest

/-- Items in field order; `done` fields were read already. -/
def recordItems (title : String) (total done : Nat) (closed : Bool) (r : ρ) :
    List (Field Sketch Reader ρ) → List Sketch → Reader ρ
  | [], [] => if closed then .ok r else malformed
  | [], _ :: _ => malformed
  | f :: fields, [] =>
    if !closed then malformed
    else if f.presence = .defaulted then recordItems title total (done + 1) closed r fields []
    else .error (.shape (.tooShort done title total))
  | f :: fields, v :: rest => do
    recordItems title total (done + 1) closed ((← f.read v) r) fields rest

def readRecord (depth : Nat) (s : Shape Sketch Reader ρ) : Sketch → Reader ρ
  | .record members closed =>
    if depth = 0 then malformed else recordMembers s closed [] s.blank members
  | .list items closed =>
    if depth = 0 then malformed
    else recordItems s.title s.fields.length 0 closed s.blank s.fields items
  | v => wrong (.titled s.title) v

mutual

/-- Buffer a whole value; none when anything in it cannot be read. -/
def buffer? (depth : Nat) : Sketch → Option Datum
  | .null => some .null
  | .flag b => some (.flag b)
  | .number n => n.map .number
  | .text s => s.map .text
  | .list items closed =>
    if depth = 0 || !closed then none else (bufferItems? (depth - 1) items).map .list
  | .record members closed =>
    if depth = 0 || !closed then none else (bufferMembers? (depth - 1) members).map .record
  | .broken => none

def bufferItems? (depth : Nat) : List Sketch → Option (List Datum)
  | [] => some []
  | v :: rest => do return (← buffer? depth v) :: (← bufferItems? depth rest)

def bufferMembers? (depth : Nat) : List (Option String × Sketch) → Option (List (Datum × Datum))
  | [] => some []
  | (key, v) :: rest => do
    return (.text (← key), ← buffer? depth v) :: (← bufferMembers? depth rest)

end

def orMalformed {α : Type} (v : Option α) : Reader α := v.elim malformed .ok

def readVariant (u : Union) : Sketch → Reader String
  | .text (some name) =>
    if u.variants.contains name then .ok name
    else .error (.shape (.unknownVariant name u.variants))
  | v => wrong .variant v

/-- Members of a union in the order of the text, with the variant once it was met. -/
def unionMembers (u : Union) (depth : Nat) (closed : Bool) (variant : Option String)
    (buffered : List (Datum × Datum)) : List (Option String × Sketch) → Reader (String × Datum)
  | [] =>
    if !closed then malformed
    else match variant with
      | some name => .ok (name, .record buffered.reverse)
      | none => .error (.shape (.missingField u.tag))
  | (none, _) :: _ => malformed
  | (some key, v) :: rest =>
    if key = u.tag then
      if variant.isSome then .error (.shape (.duplicateField u.tag))
      else do unionMembers u depth closed (some (← readVariant u v)) buffered rest
    else do
      let d ← orMalformed (buffer? depth v)
      unionMembers u depth closed variant ((.text key, d) :: buffered) rest

def readUnion (depth : Nat) (u : Union) : Sketch → Reader (String × Datum)
  | .record members closed =>
    if depth = 0 then malformed else unionMembers u (depth - 1) closed none [] members
  | .list [] closed =>
    if depth = 0 || !closed then malformed else .error (.shape (.missingField u.tag))
  | .list (v :: rest) closed =>
    if depth = 0 then malformed
    else do
      let name ← readVariant u v
      let items ← orMalformed (bufferItems? (depth - 1) rest)
      if closed then return (name, .list items) else malformed
  | v => wrong (.titled u.title) v

def source : Source Sketch Reader where
  text := readString
  optional := readOptional
  flag := readFlag
  count := readCount
  list := readList
  record := readRecord
  union := readUnion
  refuse := fun e => .error (.shape e)

/-- Read a whole text: the value, then nothing but space. -/
def readText? {α : Type} (read : Sketch → Reader α) (text : String) : Reader α := do
  let (v, ends) := sketch text
  let value ← read v
  if ends then return value else malformed

end ClassScribe.Json
