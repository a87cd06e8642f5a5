import ClassScribe.Record.Error

/-! # What can be wrong with a YAML text

From single characters up to the values of a document.
-/
namespace ClassScribe.Yaml

inductive Fault where
  /-- A character that no text may hold. -/
  | character
  | token
  | directive
  | anchorName
  | tagText
  | blockHeader
  /-- A tab where indentation is counted. -/
  | tab
  /-- A quoted text that ends too early or holds an unknown escape. -/
  | quotedText
  | plainText
  | missingColon
  /-- An entry, key or value in a place where it may not stand. -/
  | misplaced
  /-- Tokens in an order that builds no document. -/
  | order
  | unknownHandle
  | unknownAnchor
  | severalDocuments
  | tooDeep
  | tooManyAliases
  /-- A value with a tag of its own, where only plain data is meant. -/
  | localTag
  /-- A scalar that is not what its tag says, or a number beyond 64 bits. -/
  | scalar
  | shape (e : ShapeError)
  deriving Repr

/-- What is told of a value of the wrong shape; all else is only told as a fault. -/
def Fault.detail? : Fault → Option String
  | .shape e => some e.message
  | _ => none

end ClassScribe.Yaml
