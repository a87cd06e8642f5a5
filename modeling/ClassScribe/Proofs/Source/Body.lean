import ClassScribe.Proofs.Source.Items

/-! # Where a body stands

The lines of a file are those of one body, its header and its end, with preparations in front and
the ends of modules behind.
-/
namespace ClassScribe.Source
open Text

/-- A line in front of the header of a body. -/
inductive Precedes : String → Prop
  | blank : Precedes ""
  | comment {l s} : Shows l ("#" ++ s) → Precedes l
  | require {l s} : Shows l ("require_relative '" ++ s) → Precedes l
  | module {l s} : Shows l ("module " ++ s) → Precedes l

theorem Precedes.unbroken {l : String} (h : Precedes l) : Unbroken l := by
  cases h with
  | blank => decide
  | comment h => exact h.line_unbroken
  | require h => exact h.line_unbroken
  | module h => exact h.line_unbroken

/-- Lines with one body in them. -/
def HasBody (ls : List String) (header : String) (body : List String) : Prop :=
  ∃ front first last back, ls = front ++ first :: body ++ last :: back ∧
    (∀ l ∈ front, Precedes l) ∧ Shows first header ∧ Shows last "end" ∧ ∀ l ∈ back, Shows l "end"

namespace HasBody

variable {ls body : List String} {header : String}

theorem after {pre : List String} (h : HasBody ls header body) (hp : ∀ l ∈ pre, Precedes l) :
    HasBody (pre ++ ls) header body := by
  obtain ⟨front, first, last, back, rfl, hfront, hrest⟩ := h
  refine ⟨pre ++ front, first, last, back, by simp, fun l hl => ?_, hrest⟩
  exact (List.mem_append.mp hl).elim (hp l) (hfront l)

theorem inside {first last : String} (h : HasBody ls header body) (hf : Precedes first)
    (hl : Shows last "end") : HasBody (first :: ls ++ [last]) header body := by
  obtain ⟨front, f, l, back, rfl, hfront, hheader, hend, hback⟩ := h
  refine ⟨first :: front, f, l, back ++ [last], by simp, List.forall_mem_cons.mpr ⟨hf, hfront⟩,
    hheader, hend, fun x hx => ?_⟩
  rcases List.mem_append.mp hx with hx | hx
  · exact hback x hx
  · exact List.mem_singleton.mp hx ▸ hl

theorem unbroken (h : HasBody ls header body) (hb : ∀ l ∈ body, Unbroken l) :
    ∀ l ∈ ls, Unbroken l := by
  obtain ⟨front, first, last, back, rfl, hfront, hheader, hend, hback⟩ := h
  intro l hl
  simp only [List.mem_append, List.mem_cons] at hl
  rcases hl with (hl | rfl | hl) | rfl | hl
  · exact (hfront l hl).unbroken
  · exact hheader.line_unbroken
  · exact hb l hl
  · exact hend.line_unbroken
  · exact (hback l hl).line_unbroken

end HasBody

variable {unit : String} {above inner body : List Block} {header : String}

/-- Documentation is written as comments only. -/
theorem shows_documentation (hu : IsPad unit) (depth : Nat) (o : Options) (text : String) :
    ∀ l ∈ layout unit depth (documentation o text), ∃ s, Shows l ("#" ++ s) := by
  intro l hl
  rcases documentation_cases o text with h | ⟨ls, h, hls⟩
  · simp [h, layout] at hl
  · rw [h, layout, rows_cons, rows_nil, List.append_nil, Block.rows, List.map_map] at hl
    obtain ⟨p, hp, rfl⟩ := List.mem_map.mp hl
    obtain ⟨s, htext, hs⟩ := text_of_commentPhrases hu hls hp
    exact ⟨s, Unbroken.append (by decide) hs, _, hu.margin depth, line_of_sharp htext depth⟩

theorem precedes_documentation (hu : IsPad unit) (depth : Nat) (o : Options) (text : String) :
    ∀ l ∈ layout unit depth (documentation o text), Precedes l := by
  intro l hl
  obtain ⟨s, hs⟩ := shows_documentation hu depth o text l hl
  exact .comment hs

theorem hasBody_scope (hu : IsPad unit) (hh : Unbroken header) (depth : Nat) (body : List Block) :
    HasBody (layout unit depth [.scope header body]) header (layout unit (depth + 1) body) := by
  rw [layout_scope]
  exact ⟨[], _, _, [], rfl, nofun, shows_line hu hh depth, shows_line hu (by decide) depth, nofun⟩

/-- What is inside modules has its body in them. -/
theorem hasBody_inModules (hu : IsPad unit)
    (ha : ∀ depth, ∀ l ∈ layout unit depth above, Precedes l)
    (hi : ∀ depth, ∃ d, HasBody (layout unit depth inner) header (layout unit d body))
    {names : List String} (hn : ∀ s ∈ names, Unbroken s) (depth : Nat) :
    ∃ d, HasBody (layout unit depth (inModules above inner names)) header (layout unit d body) := by
  have hmodule {name : String} (depth : Nat) (h : Unbroken name) :
      Precedes (Row.line unit ⟨depth, .plain ("module " ++ name)⟩) :=
    .module (shows_line hu (Unbroken.append (by decide) h) depth)
  have hend (depth : Nat) : Shows (Row.line unit ⟨depth, .plain "end"⟩) "end" :=
    shows_line hu (by decide) depth
  induction names generalizing depth with
  | nil => exact hi depth
  | cons name names ih =>
    obtain ⟨hname, hnames⟩ := List.forall_mem_cons.mp hn
    cases names with
    | nil =>
      obtain ⟨d, h⟩ := hi (depth + 1)
      refine ⟨d, ?_⟩
      rw [inModules, layout_append]
      refine HasBody.after ?_ (ha depth)
      have hscope := h.inside (hmodule depth hname) (hend depth)
      rwa [← layout_scope] at hscope
    | cons name' names =>
      obtain ⟨d, h⟩ := ih hnames (depth + 1)
      have hcons : inModules above inner (name :: name' :: names) =
        [.scope ("module " ++ name) (inModules above inner (name' :: names))] := rfl
      refine ⟨d, ?_⟩
      rw [hcons, layout_scope]
      exact h.inside (hmodule depth hname) (hend depth)

theorem precedes_require {m : Model} (hm : m.Unbroken) (hu : IsPad unit) (root i : ElementId)
    (depth : Nat) (ts : List ElementId) :
    ∀ l ∈ layout unit depth (ts.map fun t => .line (requireLine m root i t)), Precedes l := by
  intro l hl
  rw [layout_lines] at hl
  obtain ⟨t, -, rfl⟩ := List.mem_map.mp hl
  have hpath : Unbroken (requirePath m root i t ++ "'") :=
    (hm.requirePath root i t).append (by decide)
  rw [requireLine_eq, String.append_assoc]
  exact .require (shows_line hu (Unbroken.append (by decide) hpath) depth)

theorem hasBody_separated (depth : Nat) {gs : List (List Block)} {g : List Block}
    (hgs : ∀ g' ∈ gs, ∀ l ∈ layout unit depth g', Precedes l) {ls : List String}
    (hg : HasBody (layout unit depth g) header ls) :
    HasBody (layout unit depth (separated (gs ++ [g]))) header ls := by
  induction gs with
  | nil => rwa [List.nil_append, separated_singleton]
  | cons g' gs ih =>
    obtain ⟨hfirst, hrest⟩ := List.forall_mem_cons.mp hgs
    rw [List.cons_append, ← List.singleton_append, separated_append (by simp) (by simp),
      separated_singleton, layout_append, layout_gap]
    have hblank := (ih hrest).after (List.forall_mem_singleton.mpr Precedes.blank)
    exact hblank.after hfirst

theorem classFile_hasBody {m : Model} (hm : m.Unbroken) (hu : IsPad unit) (root : ElementId)
    (o : Options) (e : Element) (ms : Members) : ∃ d,
      HasBody (layout unit 0 (classFile m root o e ms))
        (classHeader m root (ClassFacts.of m root e.id ms))
        (layout unit d (classBody m root o (ClassFacts.of m root e.id ms))) := by
  let f := ClassFacts.of m root e.id ms
  have hclass (depth : Nat) : ∃ d, HasBody (layout unit depth (documentation o e.documentation ++
      [.scope (classHeader m root f) (classBody m root o f)])) (classHeader m root f)
      (layout unit d (classBody m root o f)) := by
    refine ⟨depth + 1, ?_⟩
    rw [layout_append]
    exact (hasBody_scope hu (hm.classHeader root f) depth _).after
      (precedes_documentation hu depth o e.documentation)
  obtain ⟨d, hd⟩ := hasBody_inModules hu (fun depth => precedes_documentation hu depth o
    ((e.parent.bind m.element?).elim "" (·.documentation))) hclass (hm.moduleNames root e.id) 0
  refine ⟨d, ?_⟩
  rw [classFile, requireGroups_eq]
  refine hasBody_separated 0 (fun g hg => ?_) hd
  obtain ⟨ts, -, rfl⟩ := List.mem_map.mp hg
  exact precedes_require hm hu root e.id 0 ts

theorem interfaceFile_hasBody (hu : IsPad unit) (o : Options) {e : Element}
    (he : Unbroken e.name) (ms : Members) :
    HasBody (layout unit 0 (interfaceFile o e ms)) ("module " ++ e.name)
      (layout unit 1 (interfaceBody o ms)) := by
  rw [interfaceFile_eq, layout_append]
  exact (hasBody_scope hu (Unbroken.append (by decide) he) 0 _).after
    (precedes_documentation hu 0 o e.documentation)

theorem lines_print {o : Options} {bs : List Block} (hbs : bs ≠ [])
    (h : ∀ l ∈ layout o.indentUnit 0 bs, Unbroken l) :
    lines (print o bs) = layout o.indentUnit 0 bs := by
  rw [print_eq, lines_intercalate (layout_ne_nil hbs _ 0), flatMap_lines h]

end ClassScribe.Source
