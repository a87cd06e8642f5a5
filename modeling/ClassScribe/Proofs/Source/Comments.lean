import ClassScribe.Proofs.Generate.Require
import ClassScribe.Proofs.Model.Bare
import ClassScribe.Proofs.Source.Nesting

/-! # Documentation stays in comments

A line whose first visible character is a number sign is a comment. Whatever the documentation of a
model says, it is shown in such lines alone: without them, the source is that of the bare model.
-/
namespace ClassScribe

/-- The options with documentation switched off. -/
def Options.undocumented (o : Options) : Options := { o with documentation := false }

theorem Model.dependencies_bare (m : Model) (i : ElementId) :
    m.bare.dependencies i = m.dependencies i := by
  simp [dependencies]

theorem Model.isClassifier_bare (m : Model) (i : ElementId) :
    m.bare.IsClassifier i ↔ m.IsClassifier i := by
  simp only [IsClassifier, element?_bare, Option.map_eq_some_iff]
  constructor
  · rintro ⟨-, ms, ⟨e, he, rfl⟩, hk⟩
    obtain ⟨ms', hk', -⟩ := Option.map_eq_some_iff.mp (e.kind.members?_bare ▸ hk)
    exact ⟨e, ms', he, hk'⟩
  · rintro ⟨e, ms, he, hk⟩
    exact ⟨e.bare, ms.bare, ⟨e, he, rfl⟩, by rw [Element.bare, e.kind.members?_bare, hk]; rfl⟩

namespace Source
open Text

def isComment (line : String) : Bool := (line.toList.dropWhile isBlank).head? == some '#'

/-- The lines of a text that are no comments. -/
def codeLines (content : String) : List String := (lines content).filter (!isComment ·)

theorem codeLines_remark {unit : String} (hu : IsPad unit) (depth : Nat) {p : Phrase} {s : String}
    (hp : p.text unit = "#" ++ s) (hs : Unbroken s) : codeLines (Row.line unit ⟨depth, p⟩) = [] := by
  have hm : IsPad (margin unit depth) := hu.margin depth
  have hunbroken : Unbroken (margin unit depth ++ ("#" ++ s)) := by
    refine hm.unbroken.append ?_
    rw [Unbroken, toList_sharp, List.mem_cons, not_or]
    exact ⟨by decide, hs⟩
  have hcomment : isComment (margin unit depth ++ ("#" ++ s)) = true := by
    rw [isComment, String.toList_append, List.dropWhile_append_of_pos hm.isBlank, toList_sharp]
    rfl
  rw [line_of_sharp hp, codeLines, lines_unbroken hunbroken,
    List.filter_cons_of_neg (by simp [hcomment]), List.filter_nil]

def ClassFacts.bare (f : ClassFacts) : ClassFacts :=
  { f with
    instanceAttributes := f.instanceAttributes.map Attribute.bare
    statics := f.statics.map Attribute.bare
    operations := f.operations.map Operation.bare }

namespace ClassFacts

variable (f : ClassFacts) (v : Visibility)

theorem of_bare (m : Model) (root i : ElementId) (ms : Members) :
    of m.bare root i ms.bare = (of m root i ms).bare := by
  simp only [of, bare, Members.attributesWith_bare, Model.superclasses_bare, Model.interfaces_bare,
    Model.held_bare, Model.packagePath?_bare]
  rfl

theorem attributesIn_bare : f.bare.attributesIn v = (f.attributesIn v).map Attribute.bare :=
  bucket_map Attribute.access?_bare v f.instanceAttributes

theorem operationsIn_bare : f.bare.operationsIn v = (f.operationsIn v).map Operation.bare :=
  bucket_map Operation.access?_bare v f.operations

theorem hasMembersIn_bare : f.bare.hasMembersIn v = f.hasMembersIn v := by
  simp only [hasMembersIn, attributesIn_bare, operationsIn_bare, List.isEmpty_map]

end ClassFacts

theorem Section.applies_bare (f : ClassFacts) (o : Options) (s : Section) :
    s.applies f.bare o.undocumented = s.applies f o := by
  cases s with
  | publicAttributes => rw [applies, applies, f.attributesIn_bare, List.isEmpty_map]
  | sharedState => rw [applies, applies, ClassFacts.bare, List.isEmpty_map]
  | publicOperations => rw [applies, applies, f.operationsIn_bare, List.isEmpty_map]
  | protectedMembers => rw [applies, applies, f.hasMembersIn_bare]
  | privateMembers => rw [applies, applies, f.hasMembersIn_bare]
  | _ => rfl

theorem plan_bare (f : ClassFacts) (o : Options) : plan f.bare o.undocumented = plan f o :=
  List.filter_congr fun s _ => s.applies_bare f o

theorem sharedState_bare (statics : List Attribute) :
    sharedState (statics.map Attribute.bare) = sharedState statics := by
  simp only [sharedState, List.filter_map, List.flatMap_map, List.map_map]
  rfl

theorem initializer_bare (as : List Attribute) (held : List (String × String)) :
    initializer (as.map Attribute.bare) held = initializer as held := by
  simp only [initializer, List.map_map]
  rfl

theorem constantName_bare (m : Model) (root i : ElementId) :
    constantName m.bare root i = constantName m root i := by
  simp [constantName]

theorem classHeader_bare (m : Model) (root : ElementId) (f : ClassFacts) :
    classHeader m.bare root f.bare = classHeader m root f := by
  simp only [classHeader, Model.name_bare, constantName_bare]
  rfl

theorem requireLine_bare (m : Model) (root i j : ElementId) :
    requireLine m.bare root i j = requireLine m root i j := by
  have hsteps : requireSteps m.bare root i j = requireSteps m root i j := by
    simp only [requireSteps, fileName, Model.segments_bare, Model.name_bare]
  have hpath : requirePath m.bare root i j = requirePath m root i j :=
    congrArg ("/".intercalate ·) hsteps
  exact congrArg (fun path => "require_relative '" ++ path ++ "'") hpath

/-- Blocks that are written as the same lines, comments apart, with every indentation. -/
def SameCode (bs cs : List Block) : Prop :=
  ∀ unit depth, IsPad unit → (layout unit depth bs).flatMap codeLines =
    (layout unit depth cs).flatMap codeLines

namespace SameCode

variable {bs bs' cs cs' : List Block}

theorem refl (bs : List Block) : SameCode bs bs := fun _ _ _ => rfl

theorem symm (h : SameCode bs cs) : SameCode cs bs := fun unit depth hu => (h unit depth hu).symm

theorem trans (h : SameCode bs cs) (h' : SameCode cs cs') : SameCode bs cs' :=
  fun unit depth hu => (h unit depth hu).trans (h' unit depth hu)

theorem append (h : SameCode bs bs') (h' : SameCode cs cs') : SameCode (bs ++ cs) (bs' ++ cs') := by
  intro unit depth hu
  simp only [layout_append, List.flatMap_append]
  exact congrArg₂ (· ++ ·) (h unit depth hu) (h' unit depth hu)

theorem cons (b : Block) (h : SameCode bs bs') : SameCode (b :: bs) (b :: bs') :=
  append (refl [b]) h

theorem scope (header : String) (h : SameCode bs bs') :
    SameCode [.scope header bs] [.scope header bs'] := by
  intro unit depth hu
  simp [layout_scope, h unit (depth + 1) hu]

theorem under (v : Visibility) (h : SameCode bs bs') : SameCode [.under v bs] [.under v bs'] := by
  intro unit depth hu
  simp [layout_under, h unit (depth + 1) hu]

theorem separated {gs gs' : List (List Block)} (h : List.Forall₂ SameCode gs gs') :
    SameCode (separated gs) (separated gs') := by
  induction h with
  | nil => exact refl _
  | cons hg hgs ih =>
    cases hgs with
    | nil =>
      rw [separated_singleton, separated_singleton]
      exact hg
    | cons hg' hgs =>
      rw [separated_cons_cons, separated_cons_cons]
      exact hg.append (ih.cons .gap)

theorem flatMap {α β : Type} {f : α → List Block} {g : β → List Block} {r : α → β} {xs : List α}
    (h : ∀ x, SameCode (f x) (g (r x))) : SameCode (xs.flatMap f) ((xs.map r).flatMap g) := by
  induction xs with
  | nil => exact refl []
  | cons x xs ih =>
    rw [List.flatMap_cons, List.map_cons, List.flatMap_cons]
    exact (h x).append ih

/-- Documentation is no code. -/
theorem documentation (o : Options) (text : String) : SameCode (documentation o text) [] := by
  intro unit depth hu
  rcases documentation_cases o text with h | ⟨ls, h, hls⟩
  · rw [h]
  · simp only [h, layout, rows_cons, rows_nil, List.append_nil, Block.rows, List.map_map,
      List.map_nil, List.flatMap_nil, List.flatMap_eq_nil_iff, List.mem_map]
    rintro - ⟨p, hp, rfl⟩
    obtain ⟨s, htext, hs⟩ := text_of_commentPhrases hu hls hp
    exact codeLines_remark hu depth htext hs

theorem documented {o o' : Options} {text text' : String} :
    SameCode (Source.documentation o text) (Source.documentation o' text') :=
  (documentation o text).trans (documentation o' text').symm

theorem accessorLines (o : Options) (as : List Attribute) :
    SameCode (accessorLines o as) (accessorLines o.undocumented (as.map Attribute.bare)) := by
  have hfilter (p : Bool → Bool) : (as.map Attribute.bare).filter (p ·.isReadOnly) =
      (as.filter (p ·.isReadOnly)).map Attribute.bare := by
    rw [List.filter_map]
    rfl
  have hread := hfilter id
  have hwrite := hfilter (!·)
  simp only [id] at hread
  simp only [Source.accessorLines, hread, hwrite, List.isEmpty_map, List.map_map]
  refine append (append (flatMap fun a => documented) (refl _)) (refl _)

theorem accessors (o : Options) (as : List Attribute) :
    SameCode (accessors o as) (accessors o.undocumented (as.map Attribute.bare)) := by
  have ho : o.undocumented.declaredAccessors = o.declaredAccessors := rfl
  unfold Source.accessors
  rw [ho]
  split
  · exact accessorLines o as
  · refine separated ?_
    induction as with
    | nil => exact .nil
    | cons a as ih =>
      rw [List.map_cons, List.flatMap_cons, List.flatMap_cons]
      refine List.rel_append ?_ ih
      refine .cons (documented.append (refl _)) ?_
      exact List.forall₂_same.mpr fun g _ => refl g

theorem stubs (o : Options) (ops : List Operation) :
    SameCode (stubs o ops) (stubs o.undocumented (ops.map Operation.bare)) := by
  refine separated ?_
  rw [List.map_map, List.forall₂_map_left_iff, List.forall₂_map_right_iff, List.forall₂_same]
  intro op _
  exact documented.append (refl _)

theorem restricted (o : Options) (v : Visibility) (as : List Attribute) (ops : List Operation) :
    SameCode [restricted o v as ops]
      [restricted o.undocumented v (as.map Attribute.bare) (ops.map Operation.bare)] := by
  refine under v (separated (List.rel_append ?_ ?_))
  · rw [List.isEmpty_map]
    split
    · exact .nil
    · exact .cons (accessors o as) .nil
  · rw [List.isEmpty_map]
    split
    · exact .nil
    · exact .cons (stubs o ops) .nil

variable {m : Model} {root : ElementId}

theorem section_blocks (m : Model) (root : ElementId) (o : Options) (f : ClassFacts) (s : Section) :
    SameCode (s.blocks m root o f) (s.blocks m.bare root o.undocumented f.bare) := by
  cases s with
  | inclusion =>
    simp only [Section.blocks, Model.name_bare]
    exact refl _
  | references => exact refl _
  | publicAttributes =>
    rw [Section.blocks, Section.blocks, f.attributesIn_bare]
    exact accessors o _
  | sharedState =>
    rw [Section.blocks, Section.blocks, ClassFacts.bare, sharedState_bare]
    exact refl _
  | initializer =>
    simp only [Section.blocks, ClassFacts.bare, initializer_bare, constantName_bare]
    exact refl _
  | publicOperations =>
    rw [Section.blocks, Section.blocks, f.operationsIn_bare]
    exact stubs o _
  | protectedMembers =>
    rw [Section.blocks, Section.blocks, f.attributesIn_bare, f.operationsIn_bare]
    exact restricted o _ _ _
  | privateMembers =>
    rw [Section.blocks, Section.blocks, f.attributesIn_bare, f.operationsIn_bare]
    exact restricted o _ _ _
  | textMethod =>
    rw [Section.blocks, Section.blocks, f.hasMembersIn_bare, f.hasMembersIn_bare]
    exact refl _

theorem classBody (m : Model) (root : ElementId) (o : Options) (f : ClassFacts) :
    SameCode (classBody m root o f) (classBody m.bare root o.undocumented f.bare) := by
  rw [Source.classBody, Source.classBody, plan_bare]
  refine separated ?_
  rw [List.forall₂_map_left_iff, List.forall₂_map_right_iff, List.forall₂_same]
  exact fun s _ => section_blocks m root o f s

theorem inModules {above above' inner inner' : List Block} (ha : SameCode above above')
    (hi : SameCode inner inner') (names : List String) :
    SameCode (inModules above inner names) (inModules above' inner' names) := by
  induction names with
  | nil => exact hi
  | cons name names ih =>
    cases names with
    | nil => exact ha.append (scope _ hi)
    | cons name' names => exact scope _ ih

theorem classDefinition (m : Model) (root : ElementId) (o : Options) (e : Element) (f : ClassFacts) :
    SameCode (classDefinition m root o e f)
      (classDefinition m.bare root o.undocumented e.bare f.bare) := by
  rw [Source.classDefinition, Source.classDefinition, classHeader_bare]
  exact inModules documented (documented.append (scope _ (classBody m root o f))) _

theorem classFile (m : Model) (root : ElementId) (o : Options) (e : Element) (ms : Members) :
    SameCode (classFile m root o e ms)
      (classFile m.bare root o.undocumented e.bare ms.bare) := by
  have hid : e.bare.id = e.id := rfl
  rw [Source.classFile, Source.classFile, hid, requireGroups_eq, requireGroups_eq,
    m.dependencies_bare, ClassFacts.of_bare]
  simp only [requireLine_bare]
  refine separated (List.rel_append ?_ (.cons (classDefinition m root o e _) .nil))
  exact List.forall₂_same.mpr fun g _ => refl g

theorem interfaceFile (o : Options) (e : Element) (ms : Members) :
    SameCode (interfaceFile o e ms) (interfaceFile o.undocumented e.bare ms.bare) := by
  have hbucket (v : Visibility) : bucket Operation.access? v ms.bare.operations =
      (bucket Operation.access? v ms.operations).map Operation.bare :=
    bucket_map Operation.access?_bare v ms.operations
  have hrestricted (v : Visibility) (ops : List Operation) : List.Forall₂ SameCode
      (if ops.isEmpty then [] else [[Source.restricted o v [] ops]])
      (if ops.isEmpty then [] else
        [[Source.restricted o.undocumented v [] (ops.map Operation.bare)]]) := by
    split
    · exact .nil
    · exact .cons (restricted o v [] ops) .nil
  simp only [Source.interfaceFile, hbucket, List.isEmpty_map]
  refine documented.append (scope _ (separated ?_))
  refine List.rel_append (List.rel_append ?_ (hrestricted _ _)) (hrestricted _ _)
  split
  · exact .nil
  · exact .cons (stubs o _) .nil

end SameCode

theorem codeLines_print (o : Options) {bs : List Block} (hbs : bs ≠ []) :
    codeLines (print o bs) = (layout o.indentUnit 0 bs).flatMap codeLines := by
  rw [print_eq, codeLines, lines_intercalate (layout_ne_nil hbs _ 0), List.filter_flatMap]
  rfl

theorem SameCode.codeLines_print {o : Options} {bs cs : List Block} (h : SameCode bs cs)
    (hbs : bs ≠ []) (hcs : cs ≠ []) :
    codeLines (print o bs) = codeLines (print o.undocumented cs) := by
  rw [Source.codeLines_print o hbs, Source.codeLines_print _ hcs]
  exact h _ 0 (isPad_indentUnit o)

/-- What a classifier is rendered to has the code that it has in the bare model. -/
theorem blocks_bare {e : Element} {ms : Members} (hk : e.kind.members? = some ms) (m : Model)
    (root : ElementId) (o : Options) : ∃ bs cs, blocks? m root o e = some bs ∧
      blocks? m.bare root o.undocumented e.bare = some cs ∧
      codeLines (print o bs) = codeLines (print o.undocumented cs) := by
  cases hkind : e.kind with
  | package owned => simp [hkind, ElementKind.members?] at hk
  | other label => simp [hkind, ElementKind.members?] at hk
  | classOf ms =>
    have hbare : e.bare.kind = .classOf ms.bare := by rw [Element.bare, hkind, ElementKind.bare]
    simp only [blocks?, hkind, hbare, e.isAnnotation_bare]
    refine ⟨_, _, rfl, rfl, ?_⟩
    split
    · exact (SameCode.refl (annotationFile e)).codeLines_print (List.cons_ne_nil _ _)
        (List.cons_ne_nil _ _)
    · exact (SameCode.classFile m root o e ms).codeLines_print
        (classFile_ne_nil m root o e ms) (classFile_ne_nil m.bare root _ e.bare ms.bare)
  | interfaceOf ms =>
    have hbare : e.bare.kind = .interfaceOf ms.bare := by rw [Element.bare, hkind, ElementKind.bare]
    simp only [blocks?, hkind, hbare]
    exact ⟨_, _, rfl, rfl, (SameCode.interfaceFile o e ms).codeLines_print
      (interfaceFile_ne_nil o e ms) (interfaceFile_ne_nil _ e.bare ms.bare)⟩

theorem render_bare {m : Model} {i : ElementId} (hi : m.IsClassifier i) (root : ElementId)
    (o : Options) : ∃ f f', render? m root o i = some f ∧
      render? m.bare root o.undocumented i = some f' ∧ f.path = f'.path ∧
      codeLines f.content = codeLines f'.content := by
  obtain ⟨e, ms, he, hk⟩ := hi
  obtain ⟨bs, cs, hbs, hcs, hcode⟩ := blocks_bare hk m root o
  refine ⟨⟨fileName m i, print o bs⟩, ⟨fileName m.bare i, print o.undocumented cs⟩, ?_, ?_, ?_, hcode⟩
  · simp [render?, he, hbs]
  · simp [render?, m.element?_bare, he, hcs]
  · simp [fileName]

/-- Two models with the same bare model have, for every classifier, files with the same path and
the same code, whether or not documentation is shown. -/
theorem documentation_keeps_code {m m' : Model} (hm : m.bare = m'.bare) {o o' : Options}
    (ho : o.undocumented = o'.undocumented) {i : ElementId} (hi : m.IsClassifier i)
    (root : ElementId) : ∃ f f', render? m root o i = some f ∧ render? m' root o' i = some f' ∧
      f.path = f'.path ∧ codeLines f.content = codeLines f'.content := by
  have hi' : m'.IsClassifier i := by
    rw [← m'.isClassifier_bare, ← hm, m.isClassifier_bare]
    exact hi
  obtain ⟨f, g, hf, hg, hpath, hcode⟩ := render_bare hi root o
  obtain ⟨f', g', hf', hg', hpath', hcode'⟩ := render_bare hi' root o'
  rw [hm, ho] at hg
  obtain rfl : g = g' := Option.some.inj (hg.symm.trans hg')
  exact ⟨f, f', hf, hf', hpath.trans hpath'.symm, hcode.trans hcode'.symm⟩

theorem billing_keeps_code : ∃ f f',
    render? (billing intruding) Model.root {} 2 = some f ∧
    render? (billing "") Model.root { documentation := false } 2 = some f' ∧
    f.path = f'.path ∧ f.content ≠ f'.content ∧ codeLines f.content = codeLines f'.content := by
  have hm : (billing intruding).bare = (billing "").bare := by
    simp [billing, Model.bare, Element.bare, ElementKind.bare, Members.bare, Attribute.bare,
      Operation.bare]
  have ho : ({} : Options).undocumented =
    ({ documentation := false } : Options).undocumented := rfl
  have hi : (billing intruding).IsClassifier 2 := ⟨(billing intruding).elements[2], _, rfl, rfl⟩
  obtain ⟨f, f', hf, hf', hpath, hcode⟩ := documentation_keeps_code hm ho hi Model.root
  have hne : render? (billing intruding) Model.root {} 2 ≠
      render? (billing "") Model.root { documentation := false } 2 := by decide +kernel
  refine ⟨f, f', hf, hf', hpath, fun hcontent => hne ?_, hcode⟩
  rw [hf, hf']
  cases f
  cases f'
  exact congrArg some (congrArg₂ File.mk hpath hcontent)

end Source
end ClassScribe
