import ClassScribe.Json.Record
import ClassScribe.Snapshot.Shapes
import ClassScribe.Text.Blank
import ClassScribe.Yaml.Record

/-! # Reading snapshots

A snapshot is read from JSON or from YAML. Its root needs a name that is not blank.
-/
namespace ClassScribe.Snapshot

inductive ReadError where
  | json (e : Json.ReadError)
  | yaml (f : Yaml.Fault)
  | missingField (name : String)
  deriving Repr

namespace ReadError

def detail? : ReadError → Option String
  | json e => e.detail?
  | yaml f => f.detail?
  | missingField _ => none

/-- The place in the text is not told. -/
def message : ReadError → String
  | json e => withDetail "failed to parse JSON" e.detail?
  | yaml f => withDetail "failed to parse YAML" f.detail?
  | missingField name => "missing required field: " ++ name

end ReadError

namespace Document

def checkName (d : Document) : Except ReadError Document :=
  if Text.isBlankText d.name then .error (.missingField "name") else .ok d

def ofJson (text : String) : Except ReadError Document :=
  match Json.readText? (readDocument Json.source Json.maxDepth) text with
  | .ok d => d.checkName
  | .error e => .error (.json e)

def ofYaml (text : String) : Except ReadError Document :=
  match Yaml.readText? (fun S => readDocument S Yaml.Reader.maxDepth) text with
  | .ok d => d.checkName
  | .error f => .error (.yaml f)

end Document

inductive Notation where
  | json
  | yaml
  deriving DecidableEq, Repr

def Document.read : Notation → String → Except ReadError Document
  | .json => ofJson
  | .yaml => ofYaml

end ClassScribe.Snapshot
