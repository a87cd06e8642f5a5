import ClassScribe.Proofs.Generate.Carry
import ClassScribe.Proofs.Generate.Walk

/-! # The last element at a path

Several elements of a run can have one output path. The last of them in the walk, which is the one
with the greatest number, decides what the file says.
-/
namespace ClassScribe

namespace Generate

variable {m : Model} {root i k : ElementId} {o : Options} {base p : Path}

/-- `i` is the last element of a run that has the output path `p`, and `f` is its file. -/
structure LastAt (m : Model) (root : ElementId) (o : Options) (base p : Path) (i : ElementId)
    (f : Source.File) : Prop where
  within : m.isWithin i root = true
  render : Source.render? m root o i = some f
  path : (outputPath m root base i).same p = true
  last : ∀ k g, i < k → m.isWithin k root = true → Source.render? m root o k = some g →
    (outputPath m root base k).same p = false

theorem taskOf?_directory {q : Path} : taskOf? m root o base i = some (.directory q) ↔
    m.IsPackage i ∧ directoryPath m root base i = q := by
  cases he : m.element? i with
  | none => simp [taskOf?, Model.IsPackage, he]
  | some e => cases hk : e.kind <;> simp [taskOf?, Model.IsPackage, he, hk]

theorem taskOf?_file {q : Path} {content : String} :
    taskOf? m root o base i = some (.file k q content) ↔
      i = k ∧ outputPath m root base i = q ∧
        ∃ f, Source.render? m root o i = some f ∧ f.content = content := by
  cases he : m.element? i with
  | none => simp [taskOf?, Source.render?, he]
  | some e => cases hk : e.kind <;> simp [taskOf?, Source.render?, Source.blocks?, he, hk]

theorem directory_mem {xs : List ElementId} {q : Path} :
    .directory q ∈ xs.filterMap (taskOf? m root o base) ↔
      ∃ k ∈ xs, m.IsPackage k ∧ directoryPath m root base k = q := by
  simp only [List.mem_filterMap, taskOf?_directory]

theorem tasks_of_package (ht : m.IsTree) (hr : m.IsPackage root) (o : Options) (base : Path) :
    ∃ rest, tasks m root o base = .directory (directoryPath m root base root) :: rest := by
  have htr : taskOf? m root o base root = some (.directory (directoryPath m root base root)) :=
    taskOf?_directory.mpr ⟨hr, rfl⟩
  obtain ⟨e, -, he, -⟩ := hr
  rw [tasks_eq ht, ht.subtree_eq (Array.getElem?_eq_some_iff.mp he).1,
    List.filterMap_cons_some htr]
  exact ⟨_, rfl⟩

/-- Without a package there is one task at most. -/
theorem tasks_of_leaf (ht : m.IsTree) (hr : ¬ m.IsPackage root) (o : Options) (base : Path) :
    tasks m root o base = (taskOf? m root o base root).toList := by
  rw [tasks_eq ht]
  by_cases hlt : root < m.elements.size
  · have hchildren : m.children root = [] := by
      apply List.eq_nil_iff_forall_not_mem.mpr
      intro c hc
      exact hr (ht.isPackage_of_child (ht.mem_children.mp hc))
    rw [ht.subtree_eq hlt, hchildren]
    cases h : taskOf? m root o base root <;> simp [h]
  · have hnone : m.element? root = none := Array.getElem?_eq_none_iff.mpr (by lia)
    rw [subtree_of_absent (by lia), taskOf?, hnone]
    rfl

/-- What stands in front of the task that writes a file comes from the elements in front of its
element, and what follows it from those behind. -/
theorem tasks_split (ht : m.IsTree) {before after : List Task} {q : Path} {content : String}
    (h : tasks m root o base = before ++ .file i q content :: after) :
    ∃ xs ys f, m.subtree root = xs ++ i :: ys ∧
      before = xs.filterMap (taskOf? m root o base) ∧
      after = ys.filterMap (taskOf? m root o base) ∧
      Source.render? m root o i = some f ∧ outputPath m root base i = q ∧ f.content = content := by
  rw [tasks_eq ht, List.filterMap_eq_append_iff] at h
  obtain ⟨xs, zs, hsub, hxs, hzs⟩ := h
  obtain ⟨skipped, j, ys, rfl, hskip, hj, hys⟩ := List.filterMap_eq_cons_iff.mp hzs
  obtain ⟨rfl, hq, f, hf, hc⟩ := taskOf?_file.mp hj
  refine ⟨xs ++ skipped, ys, f, by simp [hsub], ?_, hys.symm, hf, hq, hc⟩
  rw [List.filterMap_append, hxs, List.filterMap_eq_nil_iff.mpr hskip, List.append_nil]

theorem LastAt.of_split (ht : m.IsTree) {before after : List Task} {q : Path} {content : String}
    (h : tasks m root o base = before ++ .file i q content :: after) (hq : q.same p = true)
    (hw : ∀ t ∈ after, t.writes p = false) :
    ∃ f, LastAt m root o base p i f ∧ f.content = content := by
  obtain ⟨xs, ys, f, hsub, -, rfl, hf, rfl, hc⟩ := tasks_split ht h
  have hi : i ∈ m.subtree root := by simp [hsub]
  refine ⟨f, ⟨(Model.mem_subtree.mp hi).2, hf, hq, ?_⟩, hc⟩
  intro k g hk hkr hg
  have htk : taskOf? m root o base k = some (.file k (outputPath m root base k) g.content) :=
    taskOf?_file.mpr ⟨rfl, rfl, g, hg, rfl⟩
  have hkm : k ∈ m.subtree root := by
    refine Model.mem_subtree.mpr ⟨?_, hkr⟩
    cases he : m.element? k with
    | none => simp [Source.render?, he] at hg
    | some e => exact (Array.getElem?_eq_some_iff.mp he).1
  have hky : k ∈ ys := ((Model.subtree_split hsub).2 k).mpr ⟨hkm, hk⟩
  have hwk := hw _ (List.mem_filterMap.mpr ⟨k, hky, htk⟩)
  rwa [Task.writes_file] at hwk

theorem exists_last_write {ts : List Task} (h : ∃ t ∈ ts, t.writes p = true) :
    ∃ before i q content after, ts = before ++ .file i q content :: after ∧ q.same p = true ∧
      ∀ t ∈ after, t.writes p = false := by
  induction ts with
  | nil =>
    obtain ⟨t, ht, -⟩ := h
    cases ht
  | cons t ts ih =>
    by_cases hts : ∃ u ∈ ts, u.writes p = true
    · obtain ⟨before, i, q, content, after, rfl, hq, hw⟩ := ih hts
      exact ⟨t :: before, i, q, content, after, rfl, hq, hw⟩
    · have hw : ∀ u ∈ ts, u.writes p = false := by simpa using hts
      obtain ⟨u, hu, hup⟩ := h
      obtain rfl : u = t := (List.mem_cons.mp hu).resolve_right fun hu => hts ⟨u, hu, hup⟩
      cases u with
      | skip name label => cases hup
      | directory q => cases hup
      | file i q content => exact ⟨[], i, q, content, ts, rfl, hup, hw⟩

end Generate
end ClassScribe
