import ClassScribe.Proofs.Source.Items
import ClassScribe.Proofs.Source.Nesting
import ClassScribe.Proofs.Source.Spacing
import ClassScribe.Proofs.Source.Within

/-! # Groups of a source

Files, bodies, accessors and stubs are written in groups with a blank line between each two. What a
section is planned for is what it shows, so every group has something in it, and the blank lines of
a source are those between its groups.
-/
namespace ClassScribe.Source

/-- The groups behind a visibility marker. -/
def restrictedGroups (o : Options) (as : List Attribute) (ops : List Operation) :
    List (List Block) :=
  (if as.isEmpty then [] else [accessors o as]) ++ if ops.isEmpty then [] else [stubs o ops]

theorem restricted_eq (o : Options) (v : Visibility) (as : List Attribute) (ops : List Operation) :
    restricted o v as ops = .under v (separated (restrictedGroups o as ops)) := rfl

variable {o : Options} {as : List Attribute} {ops : List Operation}

theorem accessorGroups_ne_nil (o : Options) (a : Attribute) : ∀ g ∈ accessorGroups o a, g ≠ [] := by
  intro g hg
  rcases List.mem_cons.mp hg with rfl | hg
  · exact List.append_ne_nil_of_right_ne_nil _ (List.cons_ne_nil _ _)
  · rw [Nests.eq_of_mem_unless hg]
    exact List.cons_ne_nil _ _

theorem accessors_ne_nil (h : as ≠ []) : accessors o as ≠ [] := by
  obtain ⟨a, as, rfl⟩ := List.exists_cons_of_ne_nil h
  unfold accessors
  split
  · -- the first attribute is in one of the two lines
    cases hr : a.isReadOnly <;> simp [accessorLines, hr]
  · apply separated_ne_nil
    · rw [List.flatMap_cons]
      exact List.append_ne_nil_of_left_ne_nil (List.cons_ne_nil _ _) _
    · intro g hg
      obtain ⟨b, -, hg⟩ := List.mem_flatMap.mp hg
      exact accessorGroups_ne_nil o b g hg

theorem stub_ne_nil (o : Options) (op : Operation) : stub o op ≠ [] :=
  List.append_ne_nil_of_right_ne_nil _ (List.cons_ne_nil _ _)

theorem stubs_ne_nil (h : ops ≠ []) : stubs o ops ≠ [] := by
  apply separated_ne_nil (mt List.map_eq_nil_iff.mp h)
  intro g hg
  obtain ⟨op, -, rfl⟩ := List.mem_map.mp hg
  exact stub_ne_nil o op

theorem sharedState_ne_nil (h : as ≠ []) : sharedState as ≠ [] := by
  obtain ⟨a, as, rfl⟩ := List.exists_cons_of_ne_nil h
  cases hr : a.isReadOnly <;> simp [sharedState, constantBlocks, hr]

theorem restrictedGroups_ne_nil (h : as ≠ [] ∨ ops ≠ []) : restrictedGroups o as ops ≠ [] := by
  rcases h with h | h <;> simp [restrictedGroups, h]

theorem mem_unless_isEmpty {α β : Type} {xs : List α} {x y : β}
    (h : x ∈ if xs.isEmpty then [] else [y]) : xs ≠ [] ∧ x = y := by
  refine ⟨?_, Nests.eq_of_mem_unless h⟩
  rintro rfl
  cases h

theorem mem_restrictedGroups {g : List Block} (h : g ∈ restrictedGroups o as ops) :
    as ≠ [] ∧ g = accessors o as ∨ ops ≠ [] ∧ g = stubs o ops := by
  rcases List.mem_append.mp h with h | h
  · exact .inl (mem_unless_isEmpty h)
  · exact .inr (mem_unless_isEmpty h)

theorem worded_field (name : String) : Worded ("@" ++ name) := Worded.front (by decide) name

namespace Spaced

theorem documentation (o : Options) (text : String) : Spaced (documentation o text) := by
  rcases documentation_cases o text with h | ⟨ls, h, -⟩
  · rw [h]
    exact nil
  · rw [h]
    exact comment ls

theorem method (name : String) {body : String} (h : Worded body) :
    Spaced [method ("def " ++ name) body] :=
  scope (line h) (Worded.front (by decide) name)

theorem accessorLines (o : Options) (as : List Attribute) : Spaced (accessorLines o as) := by
  refine (append (flatMap fun a _ => documentation o a.documentation) ?_).append ?_
  · split
    · exact nil
    · exact line (Worded.front (by decide) _)
  · split
    · exact nil
    · exact line (Worded.front (by decide) _)

theorem accessorGroups (o : Options) (a : Attribute) : ∀ g ∈ accessorGroups o a, Spaced g := by
  intro g hg
  rcases List.mem_cons.mp hg with rfl | hg
  · exact (documentation o a.documentation).append (method a.name (worded_field a.name))
  · rw [Nests.eq_of_mem_unless hg, String.append_assoc]
    exact method _ ((worded_field a.name).front " = value")

theorem accessors (o : Options) (as : List Attribute) : Spaced (accessors o as) := by
  unfold Source.accessors
  split
  · exact accessorLines o as
  · apply separated
    intro g hg
    obtain ⟨a, -, hg⟩ := List.mem_flatMap.mp hg
    exact ⟨accessorGroups_ne_nil o a g hg, accessorGroups o a g hg⟩

theorem sharedState (statics : List Attribute) : Spaced (sharedState statics) := by
  have hequals : Worded " = " := by decide
  have hconstant (a : Attribute) : Spaced (constantBlocks a) := by
    rw [constantBlocks, ← List.singleton_append]
    apply append (line ((hequals.back a.name).front _))
    split
    · exact line (Worded.front (by decide) a.name)
    · exact nil
  exact (flatMap fun a _ => hconstant a).append
    (map fun a _ => line ((hequals.back _).front _))

theorem initializer (as : List Attribute) (held : List (String × String)) :
    Spaced [initializer as held] := by
  refine scope ?_ (Worded.front (Worded.front (by decide) _) _)
  exact (map fun n _ => line (((worded_field n).front _).front _)).append
    (map fun h _ => line ((((worded_field h.1).front _).front _).front _))

theorem stub (o : Options) (op : Operation) : Spaced (stub o op) := by
  apply (documentation o op.documentation).append
  rw [signature, String.append_assoc]
  exact method _ (by decide)

theorem stubs (o : Options) (ops : List Operation) : Spaced (stubs o ops) := by
  apply separated
  intro g hg
  obtain ⟨op, -, rfl⟩ := List.mem_map.mp hg
  exact ⟨stub_ne_nil o op, stub o op⟩

theorem restrictedGroups (o : Options) (as : List Attribute) (ops : List Operation) :
    ∀ g ∈ restrictedGroups o as ops, g ≠ [] ∧ Spaced g := by
  intro g hg
  rcases mem_restrictedGroups hg with ⟨hne, rfl⟩ | ⟨hne, rfl⟩
  · exact ⟨accessors_ne_nil hne, accessors o as⟩
  · exact ⟨stubs_ne_nil hne, stubs o ops⟩

theorem restricted (o : Options) (v : Visibility) (h : as ≠ [] ∨ ops ≠ []) :
    Spaced [restricted o v as ops] := by
  have hgroups := restrictedGroups o as ops
  rw [restricted_eq]
  apply under v (separated hgroups)
  exact separated_ne_nil (restrictedGroups_ne_nil h) fun g hg => (hgroups g hg).1

end Spaced

variable {m : Model} {root : ElementId} {f : ClassFacts}

/-- A section that is planned shows something. -/
theorem section_ne_nil {s : Section} (h : s.applies f o = true) : s.blocks m root o f ≠ [] := by
  cases s with
  | inclusion =>
    obtain ⟨i, hi⟩ := Option.isSome_iff_exists.mp h
    simp [Section.blocks, hi]
  | publicAttributes => exact accessors_ne_nil (by simpa [Section.applies] using h)
  | sharedState => exact sharedState_ne_nil (by simpa [Section.applies] using h)
  | publicOperations => exact stubs_ne_nil (by simpa [Section.applies] using h)
  | textMethod =>
    rw [Section.blocks]
    split <;> exact List.cons_ne_nil _ _
  | references => exact List.cons_ne_nil _ _
  | initializer => exact List.cons_ne_nil _ _
  | protectedMembers => exact List.cons_ne_nil _ _
  | privateMembers => exact List.cons_ne_nil _ _

theorem hasMembersIn_iff {v : Visibility} :
    f.hasMembersIn v = true ↔ f.attributesIn v ≠ [] ∨ f.operationsIn v ≠ [] := by
  simp [ClassFacts.hasMembersIn]

namespace Spaced

theorem section_blocks {s : Section} (h : s.applies f o = true) : Spaced (s.blocks m root o f) := by
  have htext : Spaced [Source.textMethod] := method "to_s" (by decide)
  cases s with
  | inclusion => exact map fun i _ => line (Worded.front (by decide) _)
  | references => exact line (Worded.front (by decide) _)
  | publicAttributes => exact accessors o _
  | sharedState => exact sharedState f.statics
  | initializer => exact initializer _ _
  | publicOperations => exact stubs o _
  | protectedMembers => exact restricted o .protectedAccess (hasMembersIn_iff.mp h)
  | privateMembers => exact restricted o .privateAccess (hasMembersIn_iff.mp h)
  | textMethod =>
    rw [Section.blocks]
    split
    · exact under .publicAccess htext (List.cons_ne_nil _ _)
    · exact htext

theorem sections (m : Model) (root : ElementId) (o : Options) (f : ClassFacts) :
    ∀ g ∈ (plan f o).map fun s => s.blocks m root o f, g ≠ [] ∧ Spaced g := by
  intro g hg
  obtain ⟨s, hs, rfl⟩ := List.mem_map.mp hg
  have happlies := (List.mem_filter.mp hs).2
  exact ⟨section_ne_nil happlies, section_blocks happlies⟩

theorem inModules {above inner : List Block} (ha : Spaced above) (hi : Spaced inner)
    (names : List String) : Spaced (inModules above inner names) := by
  have hmodule (name : String) : Worded ("module " ++ name) := Worded.front (by decide) name
  induction names with
  | nil => exact hi
  | cons name names ih =>
    cases names with
    | nil => exact ha.append (scope hi (hmodule name))
    | cons name' names => exact scope ih (hmodule name)

theorem classDefinition (m : Model) (root : ElementId) (o : Options) (e : Element)
    (f : ClassFacts) : Spaced (classDefinition m root o e f) := by
  have hheader : Worded (classHeader m root f) := Worded.front (Worded.front (by decide) _) _
  apply inModules (documentation o _)
  exact (documentation o e.documentation).append
    (scope (separated (sections m root o f)) hheader)

end Spaced

/-- The stubs of an interface that have one visibility. -/
def stubSection (o : Options) (v : Visibility) (ops : List Operation) : List Block :=
  if v = .publicAccess then stubs o ops else [restricted o v [] ops]

/-- The sections of an interface, for every visibility that has stubs. -/
def stubSections (o : Options) (ms : Members) : List (List Block) :=
  [.publicAccess, .protectedAccess, .privateAccess].flatMap fun v =>
    if (bucket Operation.access? v ms.operations).isEmpty then []
    else [stubSection o v (bucket Operation.access? v ms.operations)]

theorem mem_stubSections {ms : Members} {g : List Block} : g ∈ stubSections o ms ↔
    ∃ v, bucket Operation.access? v ms.operations ≠ [] ∧
      g = stubSection o v (bucket Operation.access? v ms.operations) := by
  have hall (v : Visibility) : v ∈ [Visibility.publicAccess, .protectedAccess, .privateAccess] := by
    cases v <;> decide
  rw [stubSections, List.mem_flatMap]
  constructor
  · rintro ⟨v, -, hg⟩
    exact ⟨v, mem_unless_isEmpty hg⟩
  · rintro ⟨v, hne, rfl⟩
    refine ⟨v, hall v, ?_⟩
    rw [if_neg (by simpa using hne)]
    exact List.mem_singleton_self _

theorem Spaced.stubSections (o : Options) (ms : Members) :
    ∀ g ∈ stubSections o ms, g ≠ [] ∧ Spaced g := by
  intro g hg
  obtain ⟨v, hne, rfl⟩ := mem_stubSections.mp hg
  unfold stubSection
  split
  · exact ⟨stubs_ne_nil hne, stubs o _⟩
  · exact ⟨List.cons_ne_nil _ _, restricted o v (.inr hne)⟩

section Class

variable {e : Element} {ms : Members} {v : Visibility}

end Class

end ClassScribe.Source
