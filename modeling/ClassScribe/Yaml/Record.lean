import ClassScribe.Record.Buffered
import ClassScribe.Yaml.Core
import ClassScribe.Yaml.Parse

/-! # Reading records from YAML

A text is the text of any scalar, whatever it would mean by itself. An empty plain scalar is also
an empty list and a record without members. Aliases are followed where a value is read, and only
so often in all, so that a small text cannot grow without bound.
-/
namespace ClassScribe.Yaml

/-- The state counts the aliases followed. -/
abbrev Reader := StateT Nat (Except Fault)

namespace Reader

def maxDepth : Nat := 128

def fail {α : Type} (f : Fault) : Reader α := throw f

def wrong {α : Type} (found : Found) (wanted : Wanted) : Reader α :=
  fail (.shape (.wrongType found wanted))

def found : Node → Found
  | .scalar _ _ _ s => .text s
  | .sequence _ _ _ => .list
  | _ => .record

def orFail {α : Type} (f : Fault) (v : Option α) : Reader α := v.elim (fail f) pure

variable (d : Document)

/-- The node itself, or the marked one that an alias means. -/
def follow : Node → Reader Node
  | .alias n => do
    let followed ← get
    set (followed + 1)
    if 100 * d.weight < followed + 1 then fail .tooManyAliases
    else orFail .unknownAnchor (d.marked.lookup n)
  | v => return v

def readText (v : Node) : Reader String := do
  match ← follow d v with
  | .scalar _ _ _ s => return s
  | v => wrong (found v) .text

/-- Null words and empty plain scalars mark an absent value. -/
def readOptional {α : Type} (read : Node → Reader α) (v : Node) : Reader (Option α) := do
  let v ← follow d v
  match v with
  | .scalar _ none .plain s =>
    if s.isEmpty || Core.isNull s then return none else some <$> read v
  | .scalar _ (some tag) .plain s =>
    if tag ≠ Core.nullTag then some <$> read v
    else if Core.isNull s then return none
    else fail .scalar
  | _ => some <$> read v

/-- A scalar written so that it can be a flag or a number. -/
def isBare (tagged : Tag) (tag : Option Tag) (style : Style) : Bool :=
  style = .plain || (style = .literal && tag = some tagged)

def readFlag (v : Node) : Reader Bool := do
  match ← follow d v with
  | .scalar _ tag style s =>
    match isBare Core.flagTag tag style, Core.flag? s with
    | true, some b => return b
    | _, _ => wrong (.text s) .flag
  | v => wrong (found v) .flag

def readCount (v : Node) : Reader Nat := do
  match ← follow d v with
  | .scalar _ tag style s =>
    match isBare Core.wholeTag tag style, Core.count? s with
    | true, some n => return n
    | _, _ => wrong (.text s) .count
  | v => wrong (found v) .count

def readList {α : Type} (depth : Nat) (read : Node → Reader α) (v : Node) : Reader (List α) := do
  match ← follow d v with
  | .sequence _ _ items => if depth = 0 then fail .tooDeep else items.mapM read
  | .scalar _ _ .plain "" => return []
  | v => wrong (found v) .list

variable {ρ : Type}

/-- Members in the order of the text; `given` fields were read already. -/
def recordMembers (s : Shape Node Reader ρ) (given : List String) (r : ρ) :
    List (Node × Node) → Reader ρ
  | [] =>
    match s.missing? given with
    | some name => fail (.shape (.missingField name))
    | none => return r
  | (k, v) :: rest => do
    let key ← readText d k
    match s.field? key with
    | none => recordMembers s given r rest
    | some f =>
      if given.contains key then fail (.shape (.duplicateField key))
      else recordMembers s (key :: given) ((← f.read v) r) rest

def readRecord (depth : Nat) (s : Shape Node Reader ρ) (v : Node) : Reader ρ := do
  match ← follow d v with
  | .mapping _ _ members =>
    if depth = 0 then fail .tooDeep else recordMembers d s [] s.blank members
  | .scalar _ _ .plain "" => recordMembers d s [] s.blank []
  | v => wrong (found v) (.titled s.title)

/-- A tag that means a type of its own; one that is no text cannot name a type. -/
def namesType (tag : Option Tag) : Bool := tag.any fun t => t.isLocal && t.text?.isSome

def scalarDatum? (tag : Option Tag) (style : Style) (s : String) : Option Datum :=
  match tag, style with
  | some tag, .plain => if tag.isLocal then Core.datum? s else Core.taggedDatum? tag s
  | some tag, _ => Core.taggedDatum? tag s
  | none, .plain => Core.datum? s
  | none, _ => some (.text s)

/-- Buffer a value; `inner` buffers what is inside a collection, if one may be entered. -/
def bufferBy (inner : Option (Node → Reader Datum)) (v : Node) : Reader Datum := do
  match ← follow d v with
  | .scalar _ tag style s =>
    if namesType tag then fail .localTag else orFail .scalar (scalarDatum? tag style s)
  | .sequence _ tag items =>
    if namesType tag then fail .localTag
    else
      let inner ← orFail .tooDeep inner
      .list <$> items.mapM inner
  | .mapping _ tag members =>
    if namesType tag then fail .localTag
    else
      let inner ← orFail .tooDeep inner
      .record <$> members.mapM fun (k, v) => return (← inner k, ← inner v)
  | .alias _ => fail .unknownAnchor

/-- Buffer a whole value where so many levels may be entered. -/
def buffer : Nat → Node → Reader Datum
  | 0 => bufferBy d none
  | depth + 1 => bufferBy d (some (buffer depth))

def readVariant (u : Union) (v : Node) : Reader String := do
  let name ← readText d v
  if u.variants.contains name then return name
  else fail (.shape (.unknownVariant name u.variants))

/-- Members of a union in the order of the text, with the variant once it was met. -/
def unionMembers (u : Union) (depth : Nat) (variant : Option String)
    (buffered : List (Datum × Datum)) : List (Node × Node) → Reader (String × Datum)
  | [] =>
    match variant with
    | some name => return (name, .record buffered.reverse)
    | none => fail (.shape (.missingField u.tag))
  | (k, v) :: rest => do
    let key ← buffer d depth k
    match key with
    | .text name =>
      if name = u.tag then
        if variant.isSome then fail (.shape (.duplicateField u.tag))
        else unionMembers u depth (some (← readVariant d u v)) buffered rest
      else unionMembers u depth variant ((key, ← buffer d depth v) :: buffered) rest
    | _ => unionMembers u depth variant ((key, ← buffer d depth v) :: buffered) rest

def readUnion (depth : Nat) (u : Union) (v : Node) : Reader (String × Datum) := do
  match ← follow d v with
  | .mapping _ tag members =>
    if namesType tag then fail .localTag
    else if depth = 0 then fail .tooDeep
    else unionMembers d u (depth - 1) none [] members
  | .sequence _ tag items =>
    if namesType tag then fail .localTag
    else if depth = 0 then fail .tooDeep
    else match items with
      | [] => fail (.shape (.missingField u.tag))
      | v :: rest =>
        let name ← readVariant d u v
        return (name, .list (← rest.mapM (buffer d (depth - 1))))
  | v => wrong (found v) (.titled u.title)

def source : Source Node Reader where
  text := readText d
  optional := readOptional d
  flag := readFlag d
  count := readCount d
  list := readList d
  record := readRecord d
  union := readUnion d
  refuse := fun e => fail (.shape e)

end Reader

/-- Read the document of a text. -/
def readText? {α : Type} (read : Source Node Reader → Node → Reader α) (text : String) :
    Except Fault α := do
  let d ← Document.ofText text
  let (v, _) ← (read (Reader.source d) d.root).run 0
  return v

end ClassScribe.Yaml
