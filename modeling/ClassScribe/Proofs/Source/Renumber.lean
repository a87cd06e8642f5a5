import ClassScribe.Proofs.Model.Renumber
import ClassScribe.Source.Render

/-! # Sources of renumbered models

A source is made from names, members and the order of the relationships. None of these depends on
the numbers of the elements, so a renumbered model has the same sources. The relationships are only
asked for what a class shows: where that is the same, so is its source.
-/
namespace ClassScribe
namespace Source

def ClassFacts.renumber (r : ElementId → ElementId) (f : ClassFacts) : ClassFacts :=
  { f with
    id := r f.id, superclass := f.superclass.map r, interface := f.interface.map r,
    held := f.held.map (·.renumber r) }

theorem Section.applies_renumber (r : ElementId → ElementId) (f : ClassFacts) (o : Options)
    (s : Section) : s.applies (f.renumber r) o = s.applies f o := by
  cases s with
  | inclusion => exact Option.isSome_map
  | references => exact congrArg (! ·) List.isEmpty_map
  | _ => rfl

end Source

namespace Model.SameTree
open Source

variable {r : ElementId → ElementId} {m m' : Model} (h : SameTree r m m') (root : ElementId)
include h

theorem fileName (i : ElementId) : fileName m' (r i) = fileName m i := by
  rw [Source.fileName, Source.fileName, h.name]

theorem constantName (i : ElementId) :
    constantName m' (r root) (r i) = constantName m root i := by
  rw [Source.constantName, Source.constantName, h.packagePath?, h.name]

theorem requireLine (i j : ElementId) :
    requireLine m' (r root) (r i) (r j) = requireLine m root i j := by
  have hsteps : requireSteps m' (r root) (r i) (r j) = requireSteps m root i j := by
    simp only [requireSteps, h.segments, h.fileName]
  have hpath : requirePath m' (r root) (r i) (r j) = requirePath m root i j :=
    congrArg ("/".intercalate ·) hsteps
  exact congrArg (fun path => "require_relative '" ++ path ++ "'") hpath

theorem sectionBlocks (o : Options) (f : ClassFacts) (s : Section) :
    s.blocks m' (r root) o (f.renumber r) = s.blocks m root o f := by
  cases s with
  | inclusion =>
    rw [Section.blocks, Section.blocks, ClassFacts.renumber, Option.toList_map, List.map_map]
    exact List.map_congr_left fun i _ => by rw [Function.comp, h.name]
  | references =>
    rw [Section.blocks, Section.blocks, ClassFacts.renumber, List.map_map]
    rfl
  | initializer =>
    rw [Section.blocks, Section.blocks, ClassFacts.renumber, List.map_map]
    have hheld : f.held.map (fun x => (x.stem, Source.constantName m' (r root) (r x.element))) =
        f.held.map fun x => (x.stem, Source.constantName m root x.element) :=
      List.map_congr_left fun x _ => by rw [h.constantName]
    exact congrArg (fun held => [Source.initializer f.instanceAttributes held]) hheld
  | _ => rfl

theorem classBody (o : Options) (f : ClassFacts) :
    classBody m' (r root) o (f.renumber r) = classBody m root o f := by
  have hplan : plan (f.renumber r) o = plan f o :=
    List.filter_congr fun s _ => s.applies_renumber r f o
  rw [Source.classBody, Source.classBody, hplan]
  exact congrArg separated (List.map_congr_left fun s _ => h.sectionBlocks root o f s)

theorem classHeader (f : ClassFacts) :
    classHeader m' (r root) (f.renumber r) = classHeader m root f := by
  rw [Source.classHeader, Source.classHeader, ClassFacts.renumber, h.name]
  cases f.superclass with
  | none => rfl
  | some i => rw [Option.map_some, Option.elim_some, Option.elim_some, h.constantName]

/-- The documentation of the package around an element. -/
theorem packageText (p? : Option ElementId) :
    ((p?.map r).bind m'.element?).elim "" (·.documentation) =
      (p?.bind m.element?).elim "" (·.documentation) := by
  cases p? with
  | none => rfl
  | some p =>
    rw [Option.map_some, Option.bind_some, Option.bind_some]
    cases hp : m.element? p with
    | none =>
      rw [h.element_none hp]
    | some e =>
      obtain ⟨e', he', hsame⟩ := h.element_some hp
      rw [he']
      exact (congrArg Element.documentation hsame :)

theorem requireGroups (f : ClassFacts) :
    requireGroups m' (r root) (f.renumber r) = requireGroups m root f := by
  simp only [Source.requireGroups, ClassFacts.renumber, List.isEmpty_map, List.map_map,
    Option.toList_map, Function.comp_def, Held.renumber, h.requireLine]

variable {e e' : Element} (hsame : e'.unowned = (e.renumber r).unowned)
include hsame

theorem classDefinition (o : Options) (f : ClassFacts) :
    classDefinition m' (r root) o e' (f.renumber r) = classDefinition m root o e f := by
  have hparent : e'.parent = e.parent.map r := (congrArg Element.parent hsame :)
  have hdocumentation : e'.documentation = e.documentation :=
    (congrArg Element.documentation hsame :)
  rw [Source.classDefinition, Source.classDefinition, h.classHeader, h.classBody, hparent,
    h.packageText, hdocumentation]
  rfl

theorem classFile (o : Options) {ms : Members} (hfacts : ClassFacts.of m' (r root) (r e.id) ms =
    (ClassFacts.of m root e.id ms).renumber r) :
    classFile m' (r root) o e' ms = classFile m root o e ms := by
  have hid : e'.id = r e.id := (congrArg Element.id hsame :)
  rw [Source.classFile, Source.classFile, hid, hfacts, h.requireGroups,
    h.classDefinition root hsame]

theorem blocks? (o : Options) (hfacts : ∀ ms, ClassFacts.of m' (r root) (r e.id) ms =
    (ClassFacts.of m root e.id ms).renumber r) :
    blocks? m' (r root) o e' = blocks? m root o e := by
  have hname : e'.name = e.name := (congrArg Element.name hsame :)
  have hdocumentation : e'.documentation = e.documentation :=
    (congrArg Element.documentation hsame :)
  have hstereotype : e'.stereotype = e.stereotype := (congrArg Element.stereotype hsame :)
  have hkind : e'.kind.unowned = e.kind.unowned := (congrArg Element.kind hsame :)
  rw [Source.blocks?, Source.blocks?]
  rcases ElementKind.unowned_cases hkind with heq | ⟨owned, owned', hk, hk'⟩
  · rw [heq]
    cases hk : e.kind with
    | package owned | other label => rfl
    | interfaceOf ms => simp only [interfaceFile, hname, hdocumentation]
    | classOf ms =>
      have hmarked : e'.isAnnotation = e.isAnnotation := by
        rw [Element.isAnnotation, Element.isAnnotation, Element.isClass, Element.isClass, heq,
          hstereotype]
      simp only [hmarked, annotationFile, hname, h.classFile root hsame o (hfacts ms)]
  · rw [hk, hk']

omit hsame in
/-- An element has the file it had, or has none as before. -/
theorem render? (o : Options) {i : ElementId} (hfacts : ∀ e ms, m.element? i = some e →
    ClassFacts.of m' (r root) (r e.id) ms = (ClassFacts.of m root e.id ms).renumber r) :
    render? m' (r root) o (r i) = render? m root o i := by
  cases he : m.element? i with
  | none => rw [Source.render?, Source.render?, h.element_none he, he]; rfl
  | some e =>
    obtain ⟨e', he', hsame⟩ := h.element_some he
    have hblocks := h.blocks? root hsame o fun ms => hfacts e ms he
    rw [Source.render?, Source.render?, he', he, h.fileName]
    simp only [Option.bind_eq_bind, Option.bind_some, hblocks]

end Model.SameTree

namespace Model.Renumbers
open Source

variable {r : ElementId → ElementId} {m m' : Model} (h : Renumbers r m m') (root : ElementId)
include h

theorem classFacts (i : ElementId) (ms : Members) :
    ClassFacts.of m' (r root) (r i) ms = (ClassFacts.of m root i ms).renumber r := by
  simp only [ClassFacts.of, ClassFacts.renumber, h.superclasses, h.interfaces, h.held,
    h.packagePath?, List.head?_map]

/-- Every element of a renumbered model has the file it had, or has none as before. -/
theorem render? (o : Options) (i : ElementId) :
    render? m' (r root) o (r i) = render? m root o i :=
  h.toSameTree.render? root o fun e ms _ => h.classFacts root e.id ms

end Model.Renumbers
end ClassScribe
