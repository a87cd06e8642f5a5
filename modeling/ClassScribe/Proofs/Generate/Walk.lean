import ClassScribe.Generate
import ClassScribe.Proofs.Model.Subtree

/-! # The tasks of a walk

Going down from a root, generation makes one task for each element of the subtree, in the order of
the numbers. Where the task leads to can be said from below as well, by the packages around the
element.
-/
namespace ClassScribe

def Task.path? : Task → Option Path
  | .directory p => some p
  | .file _ p _ => some p
  | .skip _ _ => none

namespace Generate

/-- The directory for the output of an element in a run from `root`. -/
def placeOf (m : Model) (root : ElementId) (base : Path) (i : ElementId) : Path :=
  if i = root then base else (m.segments i root).foldl Path.join (base.join (m.name root))

def directoryPath (m : Model) (root : ElementId) (base : Path) (i : ElementId) : Path :=
  (placeOf m root base i).join (m.name i)

def outputPath (m : Model) (root : ElementId) (base : Path) (i : ElementId) : Path :=
  (placeOf m root base i).join (Source.fileName m i)

/-- The name that an element adds to the place it is put in. -/
def entryName? (m : Model) (i : ElementId) : Option String :=
  match m.element? i with
  | none => none
  | some e =>
    match e.kind with
    | .package _ => some e.name
    | .other _ => none
    | _ => some (Source.fileName m i)

def taskOf? (m : Model) (root : ElementId) (o : Options) (base : Path) (i : ElementId) :
    Option Task :=
  match m.element? i with
  | none => none
  | some e =>
    match e.kind with
    | .package _ => some (.directory (directoryPath m root base i))
    | .other label => some (.skip e.name label)
    | _ => (Source.render? m root o i).map fun f => .file i (outputPath m root base i) f.content

variable {m : Model} {root i c : ElementId} {o : Options} {base : Path}

theorem placeOf_root : placeOf m root base root = base := if_pos rfl

/-- What a package owns goes into the directory that the package becomes. -/
theorem placeOf_child (hc : m.parent? c = some i) (hi : m.isWithin i root = true) :
    placeOf m root base c = directoryPath m root base i := by
  have hlt : i < c := Model.parent?_lt hc
  have hne : c ≠ root := by
    have := Model.le_of_isWithin hi
    lia
  rw [placeOf, if_neg hne, Model.segments, Model.ancestors_of_parent hc hi, directoryPath, placeOf]
  by_cases hr : i = root
  · subst hr
    rw [if_pos rfl, if_pos rfl]
    rfl
  · rw [if_neg hr, if_neg hr, List.map_append, List.foldl_append]
    rfl

theorem render?_path {f : Source.File} (h : Source.render? m root o i = some f) :
    f.path = Source.fileName m i := by
  simp only [Source.render?, Option.bind_eq_bind, Option.bind_eq_some_iff] at h
  obtain ⟨e, -, b, -, hf⟩ := h
  exact (Option.some.inj hf) ▸ rfl

theorem name_of_element {e : Element} (h : m.element? i = some e) : m.name i = e.name := by
  simp [Model.name, h]

theorem package_of_names {P : String → Prop} (hP : ∀ e ∈ m.elements, P e.name)
    (hi : m.IsPackage i) : P (m.name i) := by
  obtain ⟨e, -, he, -⟩ := hi
  exact name_of_element he ▸ hP e (Array.mem_of_getElem? he)

theorem placeOf_cases (base : Path) (hi : m.isWithin i root = true) : i = root ∨
    ∃ p, m.parent? i = some p ∧ m.isWithin p root = true ∧
      placeOf m root base i = directoryPath m root base p := by
  cases hp : m.parent? i with
  | none => exact .inl ((Model.isWithin_top hp).mp hi)
  | some p =>
    rcases (Model.isWithin_step hp).mp hi with rfl | hpr
    · exact .inl rfl
    · exact .inr ⟨p, rfl, hpr, placeOf_child hp hpr⟩

theorem entryName?_of_package (h : m.IsPackage i) : entryName? m i = some (m.name i) := by
  obtain ⟨e, owned, he, hk⟩ := h
  simp [entryName?, Model.name, he, hk]

theorem entryName?_of_parent (ht : m.IsTree) {p : ElementId} (hp : m.parent? i = some p) :
    entryName? m p = some (m.name p) :=
  entryName?_of_package (ht.isPackage_of_child hp)

theorem render?_of_package (h : m.IsPackage i) : Source.render? m root o i = none := by
  obtain ⟨e, owned, he, hk⟩ := h
  simp [Source.render?, Source.blocks?, he, hk]

theorem entryName?_of_render {f : Source.File} (h : Source.render? m root o i = some f) :
    entryName? m i = some (Source.fileName m i) := by
  cases he : m.element? i with
  | none => simp [Source.render?, he] at h
  | some e => cases hk : e.kind <;> simp_all [Source.render?, Source.blocks?, entryName?]

theorem path?_taskOf? (m : Model) (root : ElementId) (o : Options) (base : Path) (i : ElementId) :
    (taskOf? m root o base i).bind Task.path? =
    (entryName? m i).map (placeOf m root base i).join := by
  cases he : m.element? i with
  | none => simp [taskOf?, entryName?, he]
  | some e =>
    have hn := name_of_element he
    cases hk : e.kind <;>
      simp [taskOf?, entryName?, he, hk, Task.path?, directoryPath, outputPath, hn,
        Source.render?, Source.blocks?]

theorem subtree_of_absent (h : m.elements.size ≤ i) : m.subtree i = [] := by
  apply List.eq_nil_iff_forall_not_mem.mpr
  intro j hj
  obtain ⟨hlt, hw⟩ := Model.mem_subtree.mp hj
  have := Model.le_of_isWithin hw
  lia

/-- The walk down from an element makes the tasks of its subtree; the fuel lasts, since numbers
grow on the way down. -/
theorem tasksAt_eq (ht : m.IsTree) (o : Options) (base : Path) (hi : m.isWithin i root = true)
    {fuel : Nat} (hf : m.elements.size ≤ fuel + i) :
    tasksAt m root o fuel (placeOf m root base i) i =
      (m.subtree i).filterMap (taskOf? m root o base) := by
  induction fuel generalizing i with
  | zero =>
    rw [subtree_of_absent (by lia)]
    rfl
  | succ fuel ih =>
    cases he : m.element? i with
    | none =>
      rw [subtree_of_absent (Array.getElem?_eq_none_iff.mp he), tasksAt, he]
      rfl
    | some e =>
      have hlt : i < m.elements.size := (Array.getElem?_eq_some_iff.mp he).1
      have hown : m.children i = e.kind.owned := by rw [Model.children, he]; rfl
      have hleaf (hk : e.kind.owned = []) :
          (m.subtree i).filterMap (taskOf? m root o base) =
            (taskOf? m root o base i).toList := by
        rw [ht.subtree_eq hlt, hown, hk]
        cases h : taskOf? m root o base i <;> simp [h]
      have hfile (hr : taskOf? m root o base i = (Source.render? m root o i).map fun f =>
            .file i (outputPath m root base i) f.content) :
          (taskOf? m root o base i).toList = (Source.render? m root o i).toList.map fun f =>
            .file i ((placeOf m root base i).join f.path) f.content := by
        rw [hr]
        cases h : Source.render? m root o i with
        | none => rfl
        | some f =>
          rw [Option.map_some, Option.toList_some, Option.toList_some, List.map_singleton,
            render?_path h, outputPath]
      cases hk : e.kind with
      | other label =>
        rw [hleaf (by rw [hk]; rfl)]
        simp [tasksAt, taskOf?, he, hk]
      | classOf ms =>
        rw [hleaf (by rw [hk]; rfl), hfile (by simp [taskOf?, he, hk])]
        simp [tasksAt, he, hk]
      | interfaceOf ms =>
        rw [hleaf (by rw [hk]; rfl), hfile (by simp [taskOf?, he, hk])]
        simp [tasksAt, he, hk]
      | package owned =>
        have hdir : taskOf? m root o base i = some (.directory (directoryPath m root base i)) := by
          simp [taskOf?, he, hk]
        rw [ht.subtree_eq hlt, List.filterMap_cons_some hdir, List.filterMap_flatMap, hown]
        simp only [tasksAt, he, hk]
        rw [← name_of_element he, ← directoryPath, ElementKind.owned]
        congr 1
        apply List.flatMap_congr
        intro c hc
        have hp : m.parent? c = some i := by
          apply ht.mem_children.mp
          rw [hown, hk]
          exact hc
        have hic : i < c := Model.parent?_lt hp
        rw [← placeOf_child hp hi]
        exact ih ((Model.isWithin_step hp).mpr (.inr hi)) (by lia)

theorem tasks_eq (ht : m.IsTree) (root : ElementId) (o : Options) (base : Path) :
    tasks m root o base = (m.subtree root).filterMap (taskOf? m root o base) := by
  have h := tasksAt_eq ht o base (m.isWithin_self root)
    (Nat.le_add_right m.elements.size root)
  rwa [placeOf_root] at h

theorem path_of_task (ht : m.IsTree) {t : Task} {p : Path} (h : t ∈ tasks m root o base)
    (hp : t.path? = some p) : ∃ i s, m.isWithin i root = true ∧ entryName? m i = some s ∧
      p = (placeOf m root base i).join s := by
  rw [tasks_eq ht] at h
  obtain ⟨i, hi, hti⟩ := List.mem_filterMap.mp h
  have hpath := path?_taskOf? m root o base i
  rw [hti, Option.bind_some, hp] at hpath
  obtain ⟨s, hs, rfl⟩ := Option.map_eq_some_iff.mp hpath.symm
  exact ⟨i, s, (Model.mem_subtree.mp hi).2, hs, rfl⟩

theorem task_of_path (ht : m.IsTree) (o : Options) (base : Path) {s : String}
    (hi : m.isWithin i root = true) (hs : entryName? m i = some s) :
    ∃ t ∈ tasks m root o base, t.path? = some ((placeOf m root base i).join s) := by
  have hpath := path?_taskOf? m root o base i
  rw [hs, Option.map_some] at hpath
  obtain ⟨t, hti, hp⟩ := Option.bind_eq_some_iff.mp hpath
  have hlt : i < m.elements.size := by
    cases he : m.element? i with
    | none => simp [entryName?, he] at hs
    | some e => exact (Array.getElem?_eq_some_iff.mp he).1
  refine ⟨t, ?_, hp⟩
  rw [tasks_eq ht]
  exact List.mem_filterMap.mpr ⟨i, Model.mem_subtree.mpr ⟨hlt, hi⟩, hti⟩

end Generate
end ClassScribe
