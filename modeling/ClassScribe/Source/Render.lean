import ClassScribe.Source.Class

/-! # Rendering elements

Each class and each interface has a Ruby file, named for the stem of its name. Nothing else has
one.
-/
namespace ClassScribe.Source

structure File where
  path : String
  content : String
  deriving DecidableEq, Repr

/-- An interface is a module of stubs; its attributes are not shown. -/
def interfaceFile (o : Options) (e : Element) (members : Members) : List Block :=
  let operations (v : Visibility) : List Operation := bucket Operation.access? v members.operations
  let restrictedGroup (v : Visibility) : List (List Block) :=
    if (operations v).isEmpty then [] else [[restricted o v [] (operations v)]]
  let publicGroup : List (List Block) :=
    if (operations .publicAccess).isEmpty then [] else [stubs o (operations .publicAccess)]
  documentation o e.documentation ++
    [.scope ("module " ++ e.name)
      (separated
        (publicGroup ++ restrictedGroup .protectedAccess ++ restrictedGroup .privateAccess))]

/-- An annotation has no counterpart in sources; its file only says so. -/
def annotationFile (e : Element) : List Block := [.line ("# Annotation type: " ++ e.name)]

def blocks? (m : Model) (root : ElementId) (o : Options) (e : Element) : Option (List Block) :=
  match e.kind with
  | .classOf members =>
    some (if e.isAnnotation then annotationFile e else classFile m root o e members)
  | .interfaceOf members => some (interfaceFile o e members)
  | _ => none

def print (o : Options) (blocks : List Block) : String :=
  (Writer.write { unit := o.indentUnit } blocks).text

def render? (m : Model) (root : ElementId) (o : Options) (i : ElementId) : Option File := do
  let e ← m.element? i
  let blocks ← blocks? m root o e
  return ⟨fileName m i, print o blocks⟩

/-- Every class and every interface has a file. -/
theorem exists_render? {m : Model} {i : ElementId} {e : Element} {ms : Members}
    (he : m.element? i = some e) (hk : e.kind.members? = some ms) (root : ElementId) (o : Options) :
    ∃ f, render? m root o i = some f := by
  cases hkind : e.kind with
  | package owned => simp [hkind, ElementKind.members?] at hk
  | other label => simp [hkind, ElementKind.members?] at hk
  | classOf ms => simp [render?, he, blocks?, hkind]
  | interfaceOf ms => simp [render?, he, blocks?, hkind]

def renderNotes (m : Model) (i : ElementId) : List Note :=
  match m.element? i with
  | some e => if e.isClass && !e.isAnnotation then classNotes m i else []
  | none => []

end ClassScribe.Source
