import ClassScribe.Proofs.Source.Construction
import ClassScribe.Proofs.Source.Groups

/-! # Sections of a class

The body of a class is written section by section. Two sections are methods that options ask for;
the others are there for what the class has. A loop over sections remembers whether to set the next
one apart and whether a restricted one is above, and still no section depends on the two methods.
Without one of them a file has all its other lines, in the same order.
-/
namespace ClassScribe

namespace Options

variable {o o' : Options}

/-- Options that can only differ in the methods they add to a class. -/
structure SameStyle (o o' : Options) : Prop where
  tabs : o.tabs = o'.tabs
  indentWidth : o.indentWidth = o'.indentWidth
  declaredAccessors : o.declaredAccessors = o'.declaredAccessors
  documentation : o.documentation = o'.documentation

/-- The options with both methods added. -/
def complete (o : Options) : Options := { o with initializer := true, textMethod := true }

/-- The options without the method that a section consists of. -/
def without (o : Options) : Source.Section → Options
  | .initializer => { o with initializer := false }
  | .textMethod => { o with textMethod := false }
  | _ => o

theorem sameStyle_iff : o.SameStyle o' ↔ o.complete = o'.complete := by
  cases o
  cases o'
  constructor
  · rintro ⟨rfl, rfl, rfl, rfl⟩
    rfl
  · intro h
    cases h
    exact ⟨rfl, rfl, rfl, rfl⟩

theorem SameStyle.indentUnit (h : o.SameStyle o') : o'.indentUnit = o.indentUnit := by
  have hunit (o : Options) : o.complete.indentUnit = o.indentUnit := rfl
  rw [← hunit o', ← sameStyle_iff.mp h, hunit o]

theorem SameStyle.without (h : o.SameStyle o') (s : Source.Section) :
    o.SameStyle (o'.without s) := by
  obtain ⟨htabs, hwidth, haccessors, hdocumentation⟩ := h
  cases s <;> exact ⟨htabs, hwidth, haccessors, hdocumentation⟩

end Options

/-- A protected or private operation, or such an attribute of an instance. -/
def Members.hasRestricted (ms : Members) : Bool :=
  [Visibility.protectedAccess, .privateAccess].any fun v =>
    (ms.attributesWith false).any (·.access? == some v) ||
      ms.operations.any (·.access? == some v)

namespace Source

/-- A section that is there only if an option asks for it. -/
def Section.isAdded : Section → Bool
  | .initializer | .textMethod => true
  | _ => false

/-- No option leaves the section out. -/
def Section.switchedOn (o : Options) : Section → Bool
  | .initializer => o.initializer
  | .textMethod => o.textMethod
  | _ => true

/-- The sections that a class has if both methods are asked for, with their lines. -/
def sectionLines (m : Model) (root : ElementId) (o : Options) (f : ClassFacts) (depth : Nat) :
    List (Section × List String) :=
  (plan f o.complete).map fun s => (s, layout o.indentUnit depth (s.blocks m root o f))

/-- The sections that options ask for, with a blank line between each two. -/
def bodyLines (o : Options) (sections : List (Section × List String)) : List String :=
  [""].intercalate ((sections.filter (·.1.switchedOn o)).map (·.2))

variable {m : Model} {root : ElementId} {o o' : Options} {f : ClassFacts} {s t : Section}

theorem blocks_complete (m : Model) (root : ElementId) (o : Options) (f : ClassFacts)
    (s : Section) : s.blocks m root o.complete f = s.blocks m root o f := by
  cases s <;> rfl

theorem applies_complete (f : ClassFacts) (o : Options) (s : Section) :
    s.applies f o = (s.switchedOn o && s.applies f o.complete) := by
  cases s <;> simp [Section.applies, Section.switchedOn, Options.complete]

theorem plan_complete (f : ClassFacts) (o : Options) :
    plan f o = (plan f o.complete).filter (·.switchedOn o) := by
  unfold plan
  rw [List.filter_filter]
  exact List.filter_congr fun s _ => applies_complete f o s

/-- The sections are the same under all options of one style. -/
theorem sectionLines_eq (h : o.SameStyle o') (depth : Nat) :
    sectionLines m root o' f depth = sectionLines m root o f depth := by
  have hblocks (s : Section) : s.blocks m root o' f = s.blocks m root o f := by
    rw [← blocks_complete, ← Options.sameStyle_iff.mp h, blocks_complete]
  unfold sectionLines
  rw [← Options.sameStyle_iff.mp h, h.indentUnit]
  exact List.map_congr_left fun s _ => by rw [hblocks s]

theorem sectionLines_names (m : Model) (root : ElementId) (o : Options) (f : ClassFacts)
    (depth : Nat) : (sectionLines m root o f depth).map (·.1) = plan f o.complete := by
  simp [sectionLines, Function.comp_def]

theorem nodup_sectionLines (m : Model) (root : ElementId) (o : Options) (f : ClassFacts)
    (depth : Nat) : ((sectionLines m root o f depth).map (·.1)).Nodup := by
  rw [sectionLines_names]
  exact List.Nodup.filter _ (by decide)

theorem added_mem_sectionLines (hs : s.isAdded = true) (m : Model) (root : ElementId) (o : Options)
    (f : ClassFacts) (depth : Nat) :
    (s, layout o.indentUnit depth (s.blocks m root o f)) ∈ sectionLines m root o f depth := by
  have hplan : s ∈ plan f o.complete := by
    apply List.mem_filter.mpr
    cases s with
    | initializer | textMethod => exact ⟨by decide, rfl⟩
    | _ => cases hs
  exact List.mem_map_of_mem hplan

theorem layout_classBody (m : Model) (root : ElementId) (o : Options) (f : ClassFacts)
    (depth : Nat) :
    layout o.indentUnit depth (classBody m root o f) =
      bodyLines o (sectionLines m root o f depth) := by
  unfold classBody bodyLines sectionLines
  rw [layout_separated, plan_complete, List.filter_map, List.map_map, List.map_map]
  rfl

theorem layout_classBody_of_style (h : o.SameStyle o') (m : Model) (root : ElementId)
    (f : ClassFacts) (depth : Nat) :
    layout o.indentUnit depth (classBody m root o' f) =
      bodyLines o' (sectionLines m root o f depth) := by
  rw [← h.indentUnit, layout_classBody, sectionLines_eq h]

/-- One part is taken out of lines, and with it the blank line that set it apart. -/
inductive Removed (part : List String) : List String → List String → Prop
  | alone : Removed part part []
  | first (back : List String) : Removed part (part ++ "" :: back) back
  | later (front back : List String) : Removed part (front ++ "" :: part ++ back) (front ++ back)

theorem removed_intercalate (xs ys : List (List String)) (part : List String) :
    Removed part ([""].intercalate (xs ++ part :: ys)) ([""].intercalate (xs ++ ys)) := by
  by_cases hx : xs = []
  · subst hx
    cases ys with
    | nil =>
      rw [List.nil_append, List.nil_append, List.intercalate_singleton]
      exact .alone
    | cons y ys =>
      rw [List.nil_append, List.nil_append, List.intercalate_cons_cons, List.append_assoc]
      exact .first _
  · let front := [""].intercalate xs
    have hfront (zs : List (List String)) (hz : zs ≠ []) :
        [""].intercalate (xs ++ zs) = front ++ "" :: [""].intercalate zs := by
      rw [intercalate_append hx hz, List.append_assoc, List.singleton_append]
    rw [hfront _ (List.cons_ne_nil part ys)]
    cases ys with
    | nil =>
      have h : Removed part (front ++ "" :: part ++ []) (front ++ []) := .later front []
      rw [List.intercalate_singleton, List.append_nil]
      simpa only [List.append_nil] using h
    | cons y ys =>
      let back := "" :: [""].intercalate (y :: ys)
      have h : Removed part (front ++ "" :: part ++ back) (front ++ back) := .later front back
      rw [hfront _ (List.cons_ne_nil y ys), List.intercalate_cons_cons]
      simpa only [List.append_assoc, List.cons_append, List.nil_append] using h

theorem switchedOn_without (hs : s.isAdded = true) (o : Options) :
    s.switchedOn (o.without s) = false := by
  cases s <;> first | rfl | cases hs

theorem switchedOn_without_of_ne (h : t ≠ s) (o : Options) :
    t.switchedOn (o.without s) = t.switchedOn o := by
  cases s <;> cases t <;> first | rfl | exact absurd rfl h

theorem removed_of_mem {sections : List (Section × List String)}
    (hnodup : (sections.map (·.1)).Nodup) {part : List String} (hmem : (s, part) ∈ sections)
    (hs : s.isAdded = true) (ho : s.switchedOn o = true) :
    Removed part (bodyLines o sections) (bodyLines (o.without s) sections) := by
  obtain ⟨xs, ys, rfl⟩ := List.append_of_mem hmem
  rw [List.map_append, List.map_cons, List.nodup_middle, ← List.map_append] at hnodup
  have hothers : ∀ p ∈ xs ++ ys, p.1.switchedOn (o.without s) = p.1.switchedOn o := by
    intro p hp
    apply switchedOn_without_of_ne
    intro h
    exact (List.nodup_cons.mp hnodup).1 (List.mem_map.mpr ⟨p, hp, h⟩)
  have hxs := List.filter_congr fun p hp => hothers p (List.mem_append_left ys hp)
  have hys := List.filter_congr fun p hp => hothers p (List.mem_append_right xs hp)
  unfold bodyLines
  simp only [List.filter_append, List.filter_cons, ho, switchedOn_without hs o, hxs, hys,
    List.map_append, List.map_cons, ite_true, Bool.false_eq_true, ite_false]
  exact removed_intercalate _ _ _

/-- Whatever the body is, the blocks around it leave the same lines in front of it, up to a header,
and the same lines after it, from the `end` of that header on. -/
def Encloses (unit header : String) (depth : Nat) (around : List Block → List Block) : Prop :=
  ∃ front d back, ∀ body, layout unit depth (around body) =
    front ++ Row.line unit ⟨d, .plain header⟩ :: layout unit (d + 1) body ++
      Row.line unit ⟨d, .plain "end"⟩ :: back

namespace Encloses

variable {unit header : String} {depth : Nat} {around : List Block → List Block}

theorem scope (unit header : String) (depth : Nat) :
    Encloses unit header depth fun body => [.scope header body] := by
  refine ⟨[], depth, [], fun body => ?_⟩
  rw [layout_scope, List.nil_append]

theorem after (h : Encloses unit header depth around) (bs : List Block) :
    Encloses unit header depth fun body => bs ++ around body := by
  obtain ⟨front, d, back, h⟩ := h
  refine ⟨layout unit depth bs ++ front, d, back, fun body => ?_⟩
  rw [layout_append, h]
  simp only [List.append_assoc]

theorem inside (h : Encloses unit header (depth + 1) around) (name : String) :
    Encloses unit header depth fun body => [.scope name (around body)] := by
  obtain ⟨front, d, back, h⟩ := h
  refine ⟨Row.line unit ⟨depth, .plain name⟩ :: front, d,
    back ++ [Row.line unit ⟨depth, .plain "end"⟩], fun body => ?_⟩
  rw [layout_scope, h]
  simp only [List.cons_append, List.append_assoc]

theorem inModules (h : ∀ depth, Encloses unit header depth around) (above : List Block)
    (names : List String) (depth : Nat) :
    Encloses unit header depth fun body => inModules above (around body) names := by
  induction names generalizing depth with
  | nil => exact h depth
  | cons name names ih =>
    cases names with
    | nil => exact ((h (depth + 1)).inside ("module " ++ name)).after above
    | cons name' names => exact (ih (depth + 1)).inside ("module " ++ name)

theorem separated (h : Encloses unit header depth around) (gs : List (List Block)) :
    Encloses unit header depth fun body => separated (gs ++ [around body]) := by
  by_cases hgs : gs = []
  · subst hgs
    simpa only [List.nil_append, separated_singleton] using h
  · have hlast (body : List Block) : Source.separated (gs ++ [around body]) =
        Source.separated gs ++ [.gap] ++ around body := by
      rw [separated_concat hgs, List.append_assoc, List.singleton_append]
    simpa only [hlast] using h.after (Source.separated gs ++ [.gap])

end Encloses

/-- The file of a class around a body. -/
def classAround (m : Model) (root : ElementId) (o : Options) (e : Element) (f : ClassFacts)
    (body : List Block) : List Block :=
  separated (requireGroups m root f ++
    [inModules (documentation o ((e.parent.bind m.element?).elim "" (·.documentation)))
      (documentation o e.documentation ++ [.scope (classHeader m root f) body])
      (moduleNames f.packagePath)])

theorem classFile_around (m : Model) (root : ElementId) (o : Options) (e : Element) (ms : Members) :
    classFile m root o e ms = classAround m root o e (ClassFacts.of m root e.id ms)
      (classBody m root o (ClassFacts.of m root e.id ms)) := rfl

theorem classAround_complete (m : Model) (root : ElementId) (o : Options) (e : Element)
    (f : ClassFacts) : classAround m root o.complete e f = classAround m root o e f := rfl

theorem encloses_classAround (m : Model) (root : ElementId) (o : Options) (e : Element)
    (f : ClassFacts) (unit : String) :
    Encloses unit (classHeader m root f) 0 (classAround m root o e f) := by
  apply Encloses.separated
  apply Encloses.inModules
  intro depth
  exact (Encloses.scope unit (classHeader m root f) depth).after _

/-- A body while its sections are written one after the other. -/
structure Draft where
  writer : Writer
  /-- A section was written, so that the next one is set apart. -/
  started : Bool
  /-- A protected or private section was written, so that the next method has to be made public. -/
  restricted : Bool

def Section.isRestricted : Section → Bool
  | .protectedMembers | .privateMembers => true
  | _ => false

/-- The blocks of a section by what was written in front of it. -/
def Section.blocksAfter (m : Model) (root : ElementId) (o : Options) (f : ClassFacts)
    (restricted : Bool) : Section → List Block
  | .textMethod =>
    if restricted then [.under .publicAccess [Source.textMethod]] else [Source.textMethod]
  | s => s.blocks m root o f

namespace Draft

def write (m : Model) (root : ElementId) (o : Options) (f : ClassFacts) (d : Draft) (s : Section) :
    Draft where
  writer := (if d.started then d.writer.write [.gap] else d.writer).write
    (s.blocksAfter m root o f d.restricted)
  started := true
  restricted := d.restricted || s.isRestricted

/-- The loop over the sections of a class. -/
def body (m : Model) (root : ElementId) (o : Options) (f : ClassFacts) (w : Writer) : Writer :=
  ((plan f o).foldl (write m root o f) ⟨w, false, false⟩).writer

/-- The draft of a body with the given sections. -/
structure Holds (m : Model) (root : ElementId) (o : Options) (f : ClassFacts) (w : Writer)
    (ss : List Section) (d : Draft) : Prop where
  writer : d.writer = w.write (separated (ss.map fun s => s.blocks m root o f))
  started : d.started = !ss.isEmpty
  restricted : d.restricted = ss.any Section.isRestricted

variable {w : Writer} {ss : List Section} {d : Draft}

theorem blocksAfter_eq (h : s ≠ .textMethod) (restricted : Bool) :
    s.blocksAfter m root o f restricted = s.blocks m root o f := by
  cases s <;> first | rfl | exact absurd rfl h

theorem holds_nil (w : Writer) : Holds m root o f w [] ⟨w, false, false⟩ := by
  constructor <;> rfl

/-- Whatever is written next is set apart from what is there, if anything is. -/
theorem Holds.next (h : Holds m root o f w ss d) (g : List Block) :
    (if d.started then d.writer.write [.gap] else d.writer).write g =
      w.write (separated ((ss.map fun s => s.blocks m root o f) ++ [g])) := by
  rw [h.writer, h.started]
  by_cases hss : ss = []
  · subst hss
    rw [List.map_nil, List.nil_append, separated_singleton, separated_nil]
    rfl
  · have hblocks : (ss.map fun s => s.blocks m root o f) ≠ [] := by simp [hss]
    have hgap : Block.gap :: g = [.gap] ++ g := rfl
    rw [separated_concat hblocks, hgap, Writer.write_append, Writer.write_append]
    simp [hss]

/-- One section more, as long as it is written as it would be without the loop. -/
theorem Holds.write (h : Holds m root o f w ss d)
    (hs : s.blocksAfter m root o f d.restricted = s.blocks m root o f) :
    Holds m root o f w (ss ++ [s]) (d.write m root o f s) := by
  refine ⟨?_, by simp [Draft.write], by simp [Draft.write, h.restricted]⟩
  unfold Draft.write
  rw [hs, h.next, List.map_append, List.map_singleton]

/-- The loop over sections that the method `to_s` is not among. -/
theorem holds_foldl (hss : .textMethod ∉ ss) :
    Holds m root o f w ss (ss.foldl (Draft.write m root o f) ⟨w, false, false⟩) := by
  induction ss using List.reverseRecOn with
  | nil => exact holds_nil w
  | append_singleton ss s ih =>
    simp only [List.mem_append, List.mem_singleton, not_or] at hss
    rw [List.foldl_concat]
    exact (ih hss.1).write (blocksAfter_eq (Ne.symm hss.2) _)

end Draft

/-- Only the last section can be the method `to_s`. -/
theorem plan_eq (f : ClassFacts) (o : Options) :
    plan f o = Section.layout.dropLast.filter (·.applies f o) ++
      if o.textMethod then [.textMethod] else [] := by
  have hlast : [Section.textMethod].filter (·.applies f o) =
      if o.textMethod then [.textMethod] else [] := by
    cases ho : o.textMethod <;> simp [Section.applies, ho]
  rw [← hlast, ← List.filter_append]
  rfl

theorem any_isRestricted (f : ClassFacts) (o : Options) :
    (Section.layout.dropLast.filter (·.applies f o)).any Section.isRestricted =
      (f.hasMembersIn .protectedAccess || f.hasMembersIn .privateAccess) := by
  simp [List.any_filter, Section.layout, Section.isRestricted, Section.applies]

/-- The loop writes the body, whatever writer it starts with. -/
theorem draft_body (m : Model) (root : ElementId) (o : Options) (f : ClassFacts) (w : Writer) :
    Draft.body m root o f w = w.write (classBody m root o f) := by
  let others := Section.layout.dropLast.filter (·.applies f o)
  have hothers : Draft.Holds m root o f w others
      (others.foldl (Draft.write m root o f) ⟨w, false, false⟩) := by
    apply Draft.holds_foldl
    intro h
    exact absurd (List.mem_of_mem_filter h) (by decide)
  unfold Draft.body classBody
  rw [plan_eq, List.foldl_append]
  split
  · have hlast : Section.textMethod.blocksAfter m root o f
        (f.hasMembersIn .protectedAccess || f.hasMembersIn .privateAccess) =
          Section.textMethod.blocks m root o f := rfl
    exact (hothers.write (by rwa [hothers.restricted, any_isRestricted])).writer
  · rw [List.append_nil]
    exact hothers.writer

/-- The lines of the method `to_s`, made public again if a restricted section is above. -/
def textLines (unit : String) (depth : Nat) (restricted : Bool) : List String :=
  if restricted then
    Row.line unit ⟨depth, .plain Visibility.publicAccess.marker⟩ ::
      layout unit (depth + 1) [Source.textMethod]
  else layout unit depth [Source.textMethod]

/-- The files of a class under all options of one style. They share the lines up to the header of
the class and those after its body, and their bodies are made of the same sections. -/
structure Assembled (m : Model) (root : ElementId) (o : Options) (c : Element) (ms : Members)
    (depth : Nat) (front : List String) (sections : List (Section × List String))
    (back : List String) : Prop where
  lines : ∀ o', o.SameStyle o' →
    fileLines? m root o' c.id = some (front ++ bodyLines o' sections ++ back)
  content : ∀ o', o.SameStyle o' → render? m root o' c.id =
    some ⟨fileName m c.id, "\n".intercalate (front ++ bodyLines o' sections ++ back)⟩
  header : front.getLast? = some
    (Row.line o.indentUnit ⟨depth, .plain (classHeader m root (ClassFacts.of m root c.id ms))⟩)
  ends : back.head? = some (Row.line o.indentUnit ⟨depth, .plain "end"⟩)
  /-- All sections that the class can have, in the order of the layout. -/
  order : sections.map (·.1) = plan (ClassFacts.of m root c.id ms) o.complete
  blocks : ∀ p ∈ sections, p.2 ≠ [] ∧ p.2 = layout o.indentUnit (depth + 1)
    (p.1.blocks m root o (ClassFacts.of m root c.id ms))
  /-- Nothing but the members decides whether `to_s` is made public. -/
  text : (.textMethod, textLines o.indentUnit (depth + 1) ms.hasRestricted) ∈ sections
  /-- Without one of the methods the file lacks its lines and a blank one, and no others. -/
  without : ∀ o', o.SameStyle o' → ∀ s : Section, s.isAdded = true → s.switchedOn o' = true →
    ∃ part body, (s, part) ∈ sections ∧ Removed part (bodyLines o' sections) body ∧
      fileLines? m root (o'.without s) c.id = some (front ++ body ++ back)
  /-- The loop adds the body to whatever is written. -/
  loop : ∀ o', o.SameStyle o' → ∀ w : Writer, w.unit = o.indentUnit → w.depth = depth + 1 →
    (Draft.body m root o' (ClassFacts.of m root c.id ms) w).lines.toList =
      w.lines.toList ++ bodyLines o' sections

theorem hasMembersIn_of (m : Model) (root i : ElementId) (ms : Members) :
    ((ClassFacts.of m root i ms).hasMembersIn .protectedAccess ||
      (ClassFacts.of m root i ms).hasMembersIn .privateAccess) = ms.hasRestricted := by
  have hbucket {α : Type} (access? : α → Option Visibility) (v : Visibility) (xs : List α) :
      (!(bucket access? v xs).isEmpty) = xs.any fun x => access? x == some v := by
    rw [Bool.eq_iff_iff]
    simp [bucket]
  simp only [ClassFacts.hasMembersIn, ClassFacts.attributesIn, ClassFacts.operationsIn, hbucket,
    Members.hasRestricted, List.any_cons, List.any_nil, Bool.or_false]
  rfl

theorem layout_textMethod (m : Model) (root i : ElementId) (o : Options) (ms : Members)
    (unit : String) (depth : Nat) :
    layout unit depth (Section.textMethod.blocks m root o (ClassFacts.of m root i ms)) =
      textLines unit depth ms.hasRestricted := by
  unfold textLines
  rw [Section.blocks, hasMembersIn_of]
  split
  · exact layout_under ..
  · rfl

/-- Under all options of one style, the same lines stand around the sections. -/
theorem exists_surroundings {c : Element} {ms : Members} (hc : m.HasClass c ms) (root : ElementId)
    (o : Options) : ∃ depth front back,
      front.getLast? = some (Row.line o.indentUnit
        ⟨depth, .plain (classHeader m root (ClassFacts.of m root c.id ms))⟩) ∧
      back.head? = some (Row.line o.indentUnit ⟨depth, .plain "end"⟩) ∧
      ∀ o', o.SameStyle o' → fileLines? m root o' c.id = some (front ++ bodyLines o'
        (sectionLines m root o (ClassFacts.of m root c.id ms) (depth + 1)) ++ back) := by
  obtain ⟨front, depth, back, hfile⟩ :=
    encloses_classAround m root o c (ClassFacts.of m root c.id ms) o.indentUnit
  refine ⟨depth, front ++ [_], _ :: back, List.getLast?_concat, rfl, fun o' h => ?_⟩
  rw [fileLines?_class hc, writtenLines_eq, h.indentUnit, classFile_around, ← classAround_complete,
    ← Options.sameStyle_iff.mp h, classAround_complete, hfile, layout_classBody_of_style h]
  simp only [List.append_assoc, List.cons_append, List.nil_append]

/-- The sections of a class do not depend on one another: turning `initialize` or `to_s` on or off
leaves all other lines of the file as they are. -/
theorem sections_independent {c : Element} {ms : Members} (hc : m.HasClass c ms) (root : ElementId)
    (o : Options) : ∃ depth front sections back,
      Assembled m root o c ms depth front sections back := by
  obtain ⟨depth, front, back, hheader, hends, hlines⟩ := exists_surroundings hc root o
  let f := ClassFacts.of m root c.id ms
  have hmem {s : Section} (hs : s.isAdded = true) :=
    added_mem_sectionLines hs m root o f (depth + 1)
  refine ⟨depth, front, sectionLines m root o f (depth + 1), back, ?_⟩
  exact {
    lines := hlines
    content := by
      intro o' h
      rw [render?_lines, hlines o' h, Option.map_some]
    header := hheader
    ends := hends
    order := sectionLines_names m root o f (depth + 1)
    blocks := by
      intro p hp
      obtain ⟨s, hs, rfl⟩ := List.mem_map.mp hp
      refine ⟨layout_ne_nil ?_ _ _, rfl⟩
      rw [← blocks_complete]
      exact section_ne_nil (List.mem_filter.mp hs).2
    text := by
      have h := hmem (s := .textMethod) rfl
      rwa [layout_textMethod] at h
    without := by
      intro o' h s hs hon
      have hnodup := nodup_sectionLines m root o f (depth + 1)
      exact ⟨_, _, hmem hs, removed_of_mem hnodup (hmem hs) hs hon,
        hlines (o'.without s) (h.without s)⟩
    loop := by
      intro o' h w hw hd
      rw [draft_body, Writer.write_eq, ← layout_classBody_of_style h, ← hw, ← hd]
      simp [Writer.wrote, layout, f] }

/-- A class with protected and private members, whose `to_s` has to be made public. -/
theorem billing_assembled : ∃ ms depth front sections back,
    (billing intruding).HasClass (billing intruding).elements[2] ms ∧
      Assembled (billing intruding) Model.root { tabs := true } (billing intruding).elements[2] ms
        depth front sections back := by
  obtain ⟨depth, front, sections, back, h⟩ := sections_independent
    (m := billing intruding) (c := (billing intruding).elements[2]) ⟨rfl, rfl, rfl⟩ Model.root
    { tabs := true }
  exact ⟨_, depth, front, sections, back, ⟨rfl, rfl, rfl⟩, h⟩

end Source
end ClassScribe
