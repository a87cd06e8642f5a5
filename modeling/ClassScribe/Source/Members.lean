import ClassScribe.Model.Facts
import ClassScribe.Options
import ClassScribe.Source.Block
import ClassScribe.Text.Blank

/-! # Sources of members

Accessors, shared state, the initializer and method stubs. A stub has a comment for its body, so
calling it does nothing.
-/
namespace ClassScribe.Source
open Text

def documentation (o : Options) (text : String) : List Block :=
  match trimmedLines text with
  | [] => []
  | ls => if o.documentation then [.comment ls] else []

def method (header body : String) : Block := .scope header [.line body]

def signature (name : String) (parameters : List String) : String :=
  "def " ++ name ++
    if parameters.isEmpty then "" else "(" ++ ", ".intercalate parameters ++ ")"

def symbols (names : List String) : String := ", ".intercalate (names.map (":" ++ ·))

/-- Readers for what is read-only and accessors for the rest, a line for each. -/
def accessorLines (o : Options) (attributes : List Attribute) : List Block :=
  let readers := attributes.filter (·.isReadOnly)
  let accessors := attributes.filter (!·.isReadOnly)
  attributes.flatMap (fun a => documentation o a.documentation) ++
    (if readers.isEmpty then [] else [.line ("attr_reader " ++ symbols (readers.map (·.name)))]) ++
    (if accessors.isEmpty then []
      else [.line ("attr_accessor " ++ symbols (accessors.map (·.name)))])

/-- A getter, and a setter for what is not read-only. -/
def accessorGroups (o : Options) (a : Attribute) : List (List Block) :=
  (documentation o a.documentation ++ [method ("def " ++ a.name) ("@" ++ a.name)]) ::
    if a.isReadOnly then []
    else [[method ("def " ++ a.name ++ "=(value)") ("@" ++ a.name ++ " = value")]]

def accessors (o : Options) (attributes : List Attribute) : List Block :=
  if o.declaredAccessors then accessorLines o attributes
  else separated (attributes.flatMap (accessorGroups o))

def referenceAccessors (stems : List String) : List Block :=
  [.line ("attr_accessor " ++ symbols stems)]

/-- The default value as it is written, or nothing at all. -/
def initialValue (a : Attribute) : String :=
  let value := trim a.defaultValue
  if value.isEmpty then "nil" else value

def constantBlocks (a : Attribute) : List Block :=
  .line (a.name ++ " = " ++ initialValue a) ::
    if a.access? = some .privateAccess then [.line ("private_constant :" ++ a.name)] else []

/-- Constants for what is read-only, then class variables. -/
def sharedState (statics : List Attribute) : List Block :=
  (statics.filter (·.isReadOnly)).flatMap constantBlocks ++
    (statics.filter (!·.isReadOnly)).map fun a =>
      .line ("@@" ++ a.name ++ " = " ++ initialValue a)

/-- A method that takes every attribute, and makes a new object of a constant for every reference
held under a member. -/
def initializer (attributes : List Attribute) (held : List (String × String)) : Block :=
  let names := attributes.map (·.name)
  .scope (signature "initialize" names)
    (names.map (fun n => .line ("@" ++ n ++ " = " ++ n)) ++
      held.map fun (member, constant) => .line ("@" ++ member ++ " = " ++ constant ++ ".new"))

def stub (o : Options) (op : Operation) : List Block :=
  documentation o op.documentation ++
    [method (signature op.name op.signature) "# TODO: Implement this method here."]

def stubs (o : Options) (operations : List Operation) : List Block :=
  separated (operations.map (stub o))

def textMethod : Block :=
  method "def to_s" "\"Your string representation of the object will be written here.\""

/-- What a protected or private marker applies to. -/
def restricted (o : Options) (v : Visibility) (attributes : List Attribute)
    (operations : List Operation) : Block :=
  .under v (separated
    ((if attributes.isEmpty then [] else [accessors o attributes]) ++
      (if operations.isEmpty then [] else [stubs o operations])))

end ClassScribe.Source
