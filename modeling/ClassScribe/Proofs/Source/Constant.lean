import ClassScribe.Proofs.Model.Subtree
import ClassScribe.Proofs.Text.Plain
import ClassScribe.Source.Class

/-! # What a constant tells

The constant of an element below a root is its qualified name, less that of the root, with colons
for the dots between packages. As long as no name has a colon in it, elements with the same constant
have the same qualified name.
-/
namespace ClassScribe
namespace Model

variable {m : Model} {i j root : ElementId}

theorem lineage_split (h : root ∈ m.lineage i) :
    m.lineage i = (m.ancestors i root).reverse ++ root :: m.lineage root := by
  induction i using Nat.strongRecOn with
  | ind i ih =>
    cases hp : m.parent? i with
    | none =>
      rw [lineage_of_root hp] at h
      cases h
    | some p =>
      have hw : m.isWithin p root = true := by
        rwa [isWithin, List.contains_iff_mem, ← lineage_of_parent hp]
      rw [ancestors_of_parent hp hw, lineage_of_parent hp]
      by_cases hroot : p = root
      · rw [if_pos hroot, hroot]
        rfl
      · have hin : root ∈ m.lineage p := (isWithin_iff.mp hw).resolve_left hroot
        rw [if_neg hroot, ih p (parent?_lt hp) hin, List.reverse_append]
        rfl

/-- The names of the packages below the root and of the element, joined by dots. -/
def relativeName (m : Model) (root i : ElementId) : String :=
  ".".intercalate (m.segments i root ++ [m.name i])

theorem qualifiedName_below (h : root ∈ m.lineage i) :
    m.qualifiedName i = m.qualifiedName root ++ "." ++ m.relativeName root i := by
  have hnames : (i :: m.lineage i).reverse.map m.name =
      (root :: m.lineage root).reverse.map m.name ++ (m.segments i root ++ [m.name i]) := by
    rw [lineage_split h, segments]
    simp
  rw [qualifiedName, hnames, String.intercalate_append_of_ne_nil (by simp) (by simp)]
  rfl

end Model

namespace Source

theorem colons_inj {xs ys : List Char} (hx : ':' ∉ xs) (hy : ':' ∉ ys)
    (h : (xs.flatMap fun c => if c == '.' then [':', ':'] else [c]) =
      ys.flatMap fun c => if c == '.' then [':', ':'] else [c]) : xs = ys := by
  induction xs generalizing ys with
  | nil =>
    cases ys with
    | nil => rfl
    | cons y ys =>
      rw [List.flatMap_cons] at h
      split at h <;> cases h
  | cons x xs ih =>
    cases ys with
    | nil =>
      rw [List.flatMap_cons] at h
      split at h <;> cases h
    | cons y ys =>
      rw [List.mem_cons, not_or] at hx hy
      rw [List.flatMap_cons, List.flatMap_cons] at h
      split at h <;> rename_i hdot <;> split at h <;> rename_i hdot'
      · rw [beq_iff_eq.mp hdot, beq_iff_eq.mp hdot', ih hx.2 hy.2 (List.append_cancel_left h)]
      · exact absurd (List.cons.inj h).1 hy.1
      · exact absurd (List.cons.inj h).1.symm hx.1
      · obtain ⟨rfl, hrest⟩ := List.cons.inj h
        rw [ih hx.2 hy.2 hrest]

/-- Colons stand for the dots of a path that has no colons of its own. -/
theorem scopedPath_inj {s t : String} (hs : ':' ∉ s.toList) (ht : ':' ∉ t.toList)
    (h : scopedPath s = scopedPath t) : s = t :=
  String.toList_inj.mp (colons_inj hs ht (String.ofList_inj.mp h))

variable {m : Model} {root i j : ElementId}

theorem constantName_top (h : m.segments i root = []) : constantName m root i = m.name i := by
  rw [constantName, Model.packagePath?, h]

theorem constantName_packaged (h : m.segments i root ≠ []) :
    constantName m root i =
      scopedPath (".".intercalate (m.segments i root)) ++ "::" ++ m.name i := by
  rw [constantName, Model.packagePath?]
  split
  · simp_all
  · simp_all

/-- What stands behind the last colon of a text. -/
theorem behind_colon_inj {s s' t t' : String} (ht : ':' ∉ t.toList) (ht' : ':' ∉ t'.toList)
    (h : s ++ "::" ++ t = s' ++ "::" ++ t') : s = s' ∧ t = t' := by
  have hreverse : t.toList.reverse ++ ':' :: ':' :: s.toList.reverse =
      t'.toList.reverse ++ ':' :: ':' :: s'.toList.reverse := by
    simpa using congrArg (fun u => u.toList.reverse) h
  obtain ⟨hback, hfront⟩ := Text.append_cons_inj (by simpa using ht) (by simpa using ht') hreverse
  exact ⟨String.toList_inj.mp (List.reverse_inj.mp (List.cons.inj hfront).2),
    String.toList_inj.mp (List.reverse_inj.mp hback)⟩

theorem relativeName_of_constantName (hm : ∀ k, ':' ∉ (m.name k).toList)
    (h : constantName m root i = constantName m root j) :
    m.relativeName root i = m.relativeName root j := by
  have hpath (k : ElementId) : ':' ∉ (".".intercalate (m.segments k root)).toList := by
    intro hc
    rw [String.toList_intercalate] at hc
    rcases Text.mem_of_mem_intercalate hc with hc | ⟨l, hl, hc⟩
    · exact absurd hc (by decide)
    · obtain ⟨s, hs, rfl⟩ := List.mem_map.mp hl
      obtain ⟨p, -, rfl⟩ := List.mem_map.mp hs
      exact hm p hc
  have hmixed {k l : ElementId} (hk : m.segments k root = []) (hl : m.segments l root ≠ []) :
      constantName m root k ≠ constantName m root l := by
    rw [constantName_top hk, constantName_packaged hl]
    intro he
    exact hm k (he ▸ by simp)
  by_cases hi : m.segments i root = [] <;> by_cases hj : m.segments j root = []
  · rw [constantName_top hi, constantName_top hj] at h
    rw [Model.relativeName, Model.relativeName, hi, hj, h]
  · exact absurd h (hmixed hi hj)
  · exact absurd h.symm (hmixed hj hi)
  · rw [constantName_packaged hi, constantName_packaged hj] at h
    obtain ⟨hscoped, hname⟩ := behind_colon_inj (hm i) (hm j) h
    rw [Model.relativeName, Model.relativeName, String.intercalate_append_of_ne_nil hi (by simp),
      String.intercalate_append_of_ne_nil hj (by simp), scopedPath_inj (hpath i) (hpath j) hscoped,
      hname]

end Source

/-- Below a root, elements whose names have no colon share a constant only if they share their
qualified name. -/
theorem Model.qualifiedName_of_constantName {m : Model} {root i j : ElementId}
    (hm : ∀ k, ':' ∉ (m.name k).toList) (hi : root ∈ m.lineage i) (hj : root ∈ m.lineage j)
    (h : Source.constantName m root i = Source.constantName m root j) :
    m.qualifiedName i = m.qualifiedName j := by
  rw [qualifiedName_below hi, qualifiedName_below hj, Source.relativeName_of_constantName hm h]

end ClassScribe
