import ClassScribe.Proofs.Source.Dependencies
import ClassScribe.Proofs.Source.Layout

/-! # Sources nest

Every module, class and method of a source closes at the depth it was opened at, with all that is
inside one level deeper, and a visibility marker stands at the depth of the body it is in. The
writer that prints a source comes back to the left margin and is never outdented there.
-/
namespace ClassScribe.Source

inductive Opener where
  | ofModule
  | ofClass
  | ofMethod
  deriving DecidableEq, Repr

def Opener.word : Opener → String
  | .ofModule => "module "
  | .ofClass => "class "
  | .ofMethod => "def "

/-- Visibility markers stand in the bodies of modules and classes only. -/
def Opener.hasSections : Opener → Bool
  | .ofMethod => false
  | _ => true

/-- Neither the end of a block nor a visibility marker. -/
def Phrase.IsText (p : Phrase) : Prop := p ≠ .plain "end" ∧ ∀ v : Visibility, p ≠ .plain v.marker

/-- Rows of blocks that stand at one depth, in order. The flag says whether visibility markers can
stand among them. -/
inductive Nested : Bool → Nat → List Row → Prop
  | nil {sections depth} : Nested sections depth []
  | text {sections depth p rest} : p.IsText → Nested sections depth rest →
      Nested sections depth (⟨depth, p⟩ :: rest)
  | block {sections depth inside rest} (k : Opener) (name : String) :
      Nested k.hasSections (depth + 1) inside → Nested sections depth rest →
      Nested sections depth
        (⟨depth, .plain (k.word ++ name)⟩ :: inside ++ ⟨depth, .plain "end"⟩ :: rest)
  | under {depth inside rest} (v : Visibility) :
      Nested false (depth + 1) inside → Nested true depth rest →
      Nested true depth (⟨depth, .plain v.marker⟩ :: inside ++ rest)

theorem Nested.append {sections : Bool} {depth : Nat} {rs ss : List Row}
    (h : Nested sections depth rs) (hs : Nested sections depth ss) :
    Nested sections depth (rs ++ ss) := by
  induction h with
  | nil => exact hs
  | text hp _ ih => exact .text hp (ih hs)
  | block k name hin _ _ ih =>
    rw [List.append_assoc, List.cons_append]
    exact .block k name hin (ih hs)
  | under v hin _ _ ih =>
    rw [List.append_assoc]
    exact .under v hin (ih hs)

/-- Blocks whose rows nest, at every depth. -/
def Nests (sections : Bool) (bs : List Block) : Prop := ∀ depth, Nested sections depth (rows depth bs)

namespace Nests

variable {sections : Bool} {bs cs : List Block} {s : String}

theorem nil : Nests sections [] := by
  intro depth
  rw [rows_nil]
  exact .nil

theorem append (h : Nests sections bs) (h' : Nests sections cs) : Nests sections (bs ++ cs) := by
  intro depth
  rw [rows_append]
  exact (h depth).append (h' depth)

theorem cons {b : Block} (h : Nests sections [b]) (h' : Nests sections bs) :
    Nests sections (b :: bs) :=
  h.append h'

theorem flatMap {α : Type} {xs : List α} {f : α → List Block} (h : ∀ x ∈ xs, Nests sections (f x)) :
    Nests sections (xs.flatMap f) := by
  induction xs with
  | nil => exact nil
  | cons x xs ih =>
    rw [List.flatMap_cons]
    exact (h x List.mem_cons_self).append (ih fun y hy => h y (List.mem_cons_of_mem _ hy))

theorem map {α : Type} {xs : List α} {f : α → Block} (h : ∀ x ∈ xs, Nests sections [f x]) :
    Nests sections (xs.map f) := by
  rw [List.map_eq_flatMap]
  exact flatMap h

theorem phrases {ps : List Phrase} (h : ∀ p ∈ ps, p.IsText) (depth : Nat) :
    Nested sections depth (ps.map (⟨depth, ·⟩)) := by
  induction ps with
  | nil => exact .nil
  | cons p ps ih =>
    obtain ⟨hp, hps⟩ := List.forall_mem_cons.mp h
    exact .text hp (ih hps)

/-- A line is text as soon as one of its characters is no small letter. -/
theorem line {c : Char} (hc : c ∈ s.toList) (hl : c.isLower = false) :
    Nests sections [.line s] := by
  have small (t : String) (ht : t.toList.all Char.isLower = true) : Phrase.plain s ≠ .plain t := by
    intro he
    cases he
    rw [List.all_eq_true.mp ht c hc] at hl
    cases hl
  intro depth
  rw [rows_cons, rows_nil, List.append_nil, Block.rows]
  refine .text ⟨small _ (by decide), fun v => small _ ?_⟩ .nil
  cases v <;> decide

theorem gap : Nests sections [.gap] := by
  intro depth
  rw [rows_cons, rows_nil, List.append_nil, rows_gap]
  exact .text ⟨by decide, fun v => by cases v <;> decide⟩ .nil

theorem comment (ls : List String) : Nests sections [.comment ls] := by
  intro depth
  rw [rows_cons, rows_nil, List.append_nil, Block.rows]
  refine phrases (fun p hp => ?_) depth
  rcases mem_commentPhrases hp with rfl | ⟨t, -, rfl | rfl⟩
  all_goals exact ⟨nofun, nofun⟩

theorem scope (k : Opener) (name : String) (h : Nests k.hasSections bs) (hs : s = k.word ++ name) :
    Nests sections [.scope s bs] := by
  intro depth
  rw [rows_cons, rows_nil, List.append_nil, rows_scope, hs]
  exact .block k name (h (depth + 1)) .nil

theorem under (v : Visibility) (h : Nests false bs) : Nests true [.under v bs] := by
  intro depth
  rw [rows_cons, rows_nil, List.append_nil, rows_under, ← List.append_nil (rows _ _)]
  exact .under v (h (depth + 1)) .nil

theorem separated {groups : List (List Block)} (h : ∀ g ∈ groups, Nests sections g) :
    Nests sections (separated groups) := by
  induction groups with
  | nil =>
    rw [separated_nil]
    exact nil
  | cons g groups ih =>
    obtain ⟨hg, hgroups⟩ := List.forall_mem_cons.mp h
    cases groups with
    | nil =>
      rw [separated_singleton]
      exact hg
    | cons g' groups =>
      rw [separated_cons_cons]
      exact hg.append (gap.cons (ih hgroups))

theorem eq_of_mem_unless {α : Type} {x y : α} {p : Prop} [Decidable p]
    (h : x ∈ if p then [] else [y]) : x = y := by
  split at h
  · cases h
  · exact List.mem_singleton.mp h

theorem documentation (o : Options) (text : String) : Nests sections (documentation o text) := by
  rcases documentation_cases o text with h | ⟨ls, h, -⟩
  · rw [h]
    exact nil
  · rw [h]
    exact comment ls

theorem method (name : String) {body : String} {c : Char} (hc : c ∈ body.toList)
    (hl : c.isLower = false) :
    Nests sections [method ("def " ++ name) body] :=
  scope .ofMethod name (line hc hl) rfl

theorem accessors (o : Options) (as : List Attribute) : Nests sections (accessors o as) := by
  unfold Source.accessors
  split
  · refine (append (flatMap fun a _ => documentation o a.documentation) ?_).append ?_
    all_goals
      split
      · exact nil
      · exact line (c := ' ') (by simp) rfl
  · refine separated fun g hg => ?_
    obtain ⟨a, -, hg⟩ := List.mem_flatMap.mp hg
    rcases List.mem_cons.mp hg with rfl | hg
    · exact (documentation o a.documentation).append (method _ (c := '@') (by simp) rfl)
    · rw [eq_of_mem_unless hg, String.append_assoc]
      exact method _ (c := '@') (by simp) rfl

theorem sharedState (statics : List Attribute) : Nests sections (sharedState statics) := by
  refine (flatMap fun a _ => ?_).append (map fun a _ => line (c := '@') (by simp) rfl)
  refine cons (line (c := ' ') (by simp) rfl) ?_
  split
  · exact line (c := ' ') (by simp) rfl
  · exact nil

theorem initializer (as : List Attribute) (held : List (String × String)) :
    Nests sections [initializer as held] := by
  refine scope .ofMethod _ ?_ (String.append_assoc ..)
  exact (map fun n _ => line (c := '@') (by simp) rfl).append
    (map fun h _ => line (c := '@') (by simp) rfl)

theorem stubs (o : Options) (ops : List Operation) : Nests sections (stubs o ops) := by
  refine separated fun g hg => ?_
  obtain ⟨op, -, rfl⟩ := List.mem_map.mp hg
  refine (documentation o op.documentation).append ?_
  rw [signature, String.append_assoc]
  exact method _ (c := '#') (by decide) rfl

theorem restricted (o : Options) (v : Visibility) (as : List Attribute) (ops : List Operation) :
    Nests true [restricted o v as ops] := by
  refine under v (separated fun g hg => ?_)
  rcases List.mem_append.mp hg with hg | hg
  · exact eq_of_mem_unless hg ▸ accessors o as
  · exact eq_of_mem_unless hg ▸ stubs o ops

variable {m : Model} {root : ElementId} {o : Options}

theorem section_blocks (m : Model) (root : ElementId) (o : Options) (f : ClassFacts) (s : Section) :
    Nests true (s.blocks m root o f) := by
  cases s with
  | inclusion => exact map fun i _ => line (c := ' ') (by simp) rfl
  | references => exact line (c := ' ') (by simp) rfl
  | publicAttributes => exact accessors o _
  | sharedState => exact sharedState f.statics
  | initializer => exact initializer _ _
  | publicOperations => exact stubs o _
  | protectedMembers => exact restricted o _ _ _
  | privateMembers => exact restricted o _ _ _
  | textMethod =>
    have htext {b : Bool} : Nests b [Source.textMethod] :=
      method "to_s" (c := '"') (by decide) rfl
    rw [Section.blocks]
    split
    · exact under .publicAccess htext
    · exact htext

theorem inModules {above inner : List Block} (ha : ∀ b, Nests b above) (hi : ∀ b, Nests b inner)
    (names : List String) : Nests sections (inModules above inner names) := by
  induction names generalizing sections with
  | nil => exact hi sections
  | cons name names ih =>
    cases names with
    | nil => exact (ha sections).append (scope .ofModule name (hi _) rfl)
    | cons name' names => exact scope .ofModule name ih rfl

theorem classBody (m : Model) (root : ElementId) (o : Options) (f : ClassFacts) :
    Nests true (classBody m root o f) := by
  rw [Source.classBody]
  refine separated fun g hg => ?_
  obtain ⟨s, -, rfl⟩ := List.mem_map.mp hg
  exact section_blocks m root o f s

theorem classDefinition (m : Model) (root : ElementId) (o : Options) (e : Element) (f : ClassFacts) :
    Nests sections (classDefinition m root o e f) := by
  have hheader : classHeader m root f = Opener.ofClass.word ++ _ := String.append_assoc ..
  have hclass {b : Bool} : Nests b [.scope (classHeader m root f) (Source.classBody m root o f)] :=
    scope .ofClass _ (classBody m root o f) hheader
  rw [Source.classDefinition]
  exact inModules (fun _ => documentation o _)
    (fun _ => (documentation o e.documentation).append hclass) _

theorem classFile (m : Model) (root : ElementId) (o : Options) (e : Element) (ms : Members) :
    Nests sections (classFile m root o e ms) := by
  rw [Source.classFile, requireGroups_eq]
  refine separated fun g hg => ?_
  rcases List.mem_append.mp hg with hg | hg
  · obtain ⟨ts, -, rfl⟩ := List.mem_map.mp hg
    have hspace (path : String) : ' ' ∈ ("require_relative '" ++ path ++ "'").toList := by simp
    exact map fun t _ => line (hspace _) rfl
  · exact List.mem_singleton.mp hg ▸ classDefinition m root o e _

theorem interfaceFile (o : Options) (e : Element) (ms : Members) :
    Nests sections (interfaceFile o e ms) := by
  refine (documentation o e.documentation).append (scope .ofModule e.name ?_ rfl)
  refine separated fun g hg => ?_
  rcases List.mem_append.mp hg with hg | hg
  · rcases List.mem_append.mp hg with hg | hg
    · exact eq_of_mem_unless hg ▸ stubs o _
    · exact eq_of_mem_unless hg ▸ restricted o _ _ _
  · exact eq_of_mem_unless hg ▸ restricted o _ _ _

end Nests

/-- A class in a package, with members of every visibility, and a text at everything that can be
documented. -/
def billing (text : String) : Model where
  elements := #[
    { id := 0, key := "Shop", name := "Shop", documentation := text, stereotype := none,
      parent := none, kind := .package [1] },
    { id := 1, key := "Billing", name := "Billing", documentation := text, stereotype := none,
      parent := some 0, kind := .package [2] },
    { id := 2, key := "Invoice", name := "Invoice", documentation := text, stereotype := none,
      parent := some 1,
      kind := .classOf {
        attributes := [
          { name := "total", documentation := text },
          { name := "number", visibility := "protected", isReadOnly := true, documentation := text },
          { name := "LIMIT", visibility := "private", isStatic := true, isReadOnly := true,
            defaultValue := "9", documentation := text },
          { name := "count", isStatic := true, documentation := text }]
        operations := [
          ⟨"pay", "public", text, [⟨"amount", .input⟩, ⟨"paid", .result⟩]⟩,
          ⟨"check", "private", text, []⟩] } }]
  relationships := []

/-- Text that would end the class if it were code. -/
def intruding : String := "Paid once.\n\nend\nprivate"

end ClassScribe.Source
