import ClassScribe.Note
import ClassScribe.Source.Members
import ClassScribe.Source.Require

/-! # Sources of classes

The body of a class consists of sections in a fixed order, each switched by what the class has or
by an option. In front of the class come the files it needs, and the packages around it are
modules.
-/
namespace ClassScribe.Source

/-- What the source of a class shows. A source has room for one superclass and one interface. -/
structure ClassFacts where
  id : ElementId
  superclass : Option ElementId
  interface : Option ElementId
  held : List Held
  /-- The attributes of an instance, whatever their visibility. -/
  instanceAttributes : List Attribute
  statics : List Attribute
  operations : List Operation
  packagePath : Option String
  deriving Repr

def ClassFacts.of (m : Model) (root id : ElementId) (members : Members) : ClassFacts where
  id := id
  superclass := (m.superclasses id).head?
  interface := (m.interfaces id).head?
  held := m.held id
  instanceAttributes := members.attributesWith false
  statics := members.attributesWith true
  operations := members.operations
  packagePath := m.packagePath? id root

/-- What the source of a class leaves out. -/
def classNotes (m : Model) (id : ElementId) : List Note :=
  let supers := (m.superclasses id).length
  let interfaces := (m.interfaces id).length
  (if 1 < supers then
    [.warn ("class \x60" ++ m.name id ++ "\x60 has " ++ toString supers ++
      " superclasses; only the first is generated")] else []) ++
  (if 1 < interfaces then
    [.warn ("class \x60" ++ m.name id ++ "\x60 realizes " ++ toString interfaces ++
      " interfaces; only the first is generated")] else [])

namespace ClassFacts

def attributesIn (f : ClassFacts) (v : Visibility) : List Attribute :=
  bucket Attribute.access? v f.instanceAttributes

def operationsIn (f : ClassFacts) (v : Visibility) : List Operation :=
  bucket Operation.access? v f.operations

def hasMembersIn (f : ClassFacts) (v : Visibility) : Bool :=
  !(f.attributesIn v).isEmpty || !(f.operationsIn v).isEmpty

end ClassFacts

inductive Section where
  | inclusion
  | references
  | publicAttributes
  | sharedState
  | initializer
  | publicOperations
  | protectedMembers
  | privateMembers
  | textMethod
  deriving DecidableEq, Repr

namespace Section

def layout : List Section :=
  [inclusion, references, publicAttributes, sharedState, initializer, publicOperations,
    protectedMembers, privateMembers, textMethod]

def applies (f : ClassFacts) (o : Options) : Section → Bool
  | inclusion => f.interface.isSome
  | references => !f.held.isEmpty
  | publicAttributes => !(f.attributesIn .publicAccess).isEmpty
  | sharedState => !f.statics.isEmpty
  | initializer => o.initializer
  | publicOperations => !(f.operationsIn .publicAccess).isEmpty
  | protectedMembers => f.hasMembersIn .protectedAccess
  | privateMembers => f.hasMembersIn .privateAccess
  | textMethod => o.textMethod

end Section

def plan (f : ClassFacts) (o : Options) : List Section := Section.layout.filter (·.applies f o)

/-- The modules of a package path, outermost first. -/
def moduleNames (path : Option String) : List String :=
  path.elim [] fun s => (s.toList.splitOn '.').map String.ofList

def scopedPath (path : String) : String :=
  String.ofList (path.toList.flatMap fun c => if c == '.' then [':', ':'] else [c])

def constantName (m : Model) (root i : ElementId) : String :=
  match m.packagePath? i root with
  | none => m.name i
  | some path => scopedPath path ++ "::" ++ m.name i

def Section.blocks (m : Model) (root : ElementId) (o : Options) (f : ClassFacts) :
    Section → List Block
  | .inclusion => f.interface.toList.map fun i => .line ("include " ++ m.name i)
  | .references => referenceAccessors (f.held.map (·.stem))
  | .publicAttributes => accessors o (f.attributesIn .publicAccess)
  | .sharedState => Source.sharedState f.statics
  | .initializer =>
    [Source.initializer f.instanceAttributes
      (f.held.map fun h => (h.stem, constantName m root h.element))]
  | .publicOperations => stubs o (f.operationsIn .publicAccess)
  | .protectedMembers =>
    [restricted o .protectedAccess (f.attributesIn .protectedAccess)
      (f.operationsIn .protectedAccess)]
  | .privateMembers =>
    [restricted o .privateAccess (f.attributesIn .privateAccess) (f.operationsIn .privateAccess)]
  | .textMethod =>
    if f.hasMembersIn .protectedAccess || f.hasMembersIn .privateAccess then
      [.under .publicAccess [Source.textMethod]]
    else [Source.textMethod]

def classBody (m : Model) (root : ElementId) (o : Options) (f : ClassFacts) : List Block :=
  separated ((plan f o).map fun s => s.blocks m root o f)

/-- Blocks inside modules; `above` stands in front of the innermost one. -/
def inModules (above inner : List Block) : List String → List Block
  | [] => inner
  | [name] => above ++ [.scope ("module " ++ name) inner]
  | name :: rest => [.scope ("module " ++ name) (inModules above inner rest)]

def classHeader (m : Model) (root : ElementId) (f : ClassFacts) : String :=
  "class " ++ m.name f.id ++ f.superclass.elim "" fun i => " < " ++ constantName m root i

/-- The class itself; its package is documented on the innermost module. -/
def classDefinition (m : Model) (root : ElementId) (o : Options) (e : Element) (f : ClassFacts) :
    List Block :=
  let packageText := (e.parent.bind m.element?).elim "" (·.documentation)
  inModules (documentation o packageText)
    (documentation o e.documentation ++ [.scope (classHeader m root f) (classBody m root o f)])
    (moduleNames f.packagePath)

/-- The files a class needs: those of references, of the superclass and of the interface. -/
def requireGroups (m : Model) (root : ElementId) (f : ClassFacts) : List (List Block) :=
  let require (i : ElementId) : Block := .line (requireLine m root f.id i)
  (if f.held.isEmpty then [] else [f.held.map fun h => require h.element]) ++
    f.superclass.toList.map (fun i => [require i]) ++ f.interface.toList.map fun i => [require i]

def classFile (m : Model) (root : ElementId) (o : Options) (e : Element) (members : Members) :
    List Block :=
  let f := ClassFacts.of m root e.id members
  separated (requireGroups m root f ++ [classDefinition m root o e f])

end ClassScribe.Source
