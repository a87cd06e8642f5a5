/-! # Tokens of a YAML text

A text becomes a list of tokens, in which tags are kept as the octets they spell.
-/
namespace ClassScribe.Yaml

inductive Style where
  | plain
  | singleQuoted
  | doubleQuoted
  | literal
  | folded
  deriving DecidableEq, Repr

/-- A tag, in octets. Some octets are written by number, so it need not be a text. -/
structure Tag where
  octets : List UInt8
  deriving DecidableEq, Repr

namespace Tag

def ofText (s : String) : Tag := ⟨s.toList.flatMap String.utf8EncodeChar⟩

/-- The octets up to the first zero; a tag is never longer. -/
def upToZero (octets : List UInt8) : Tag := ⟨octets.takeWhile (· != 0)⟩

def append (t u : Tag) : Tag := ⟨t.octets ++ u.octets⟩

/-- A local tag begins with an exclamation mark. -/
def isLocal (t : Tag) : Bool := t.octets.head? == some 33

def text? (t : Tag) : Option String := String.fromUTF8? ⟨t.octets.toArray⟩

end Tag

inductive Token where
  | version (major minor : Nat)
  /-- Tags with `handle` continue `expansion`. -/
  | handle (handle : String) (expansion : Tag)
  | documentStart
  | documentEnd
  | blockSequenceStart
  | blockMappingStart
  | blockEnd
  | flowSequenceStart
  | flowSequenceEnd
  | flowMappingStart
  | flowMappingEnd
  | blockEntry
  | flowEntry
  | key
  | value
  | alias (name : String)
  | anchor (name : String)
  /-- An empty handle stands before a tag that is complete. -/
  | tag (handle : String) (suffix : Tag)
  | scalar (style : Style) (text : String)
  | streamEnd
  deriving Repr

end ClassScribe.Yaml
