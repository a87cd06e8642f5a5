import ClassScribe.Proofs.Model.Tree

/-! # Subtrees

Everything below an element, in the order of the numbers, is the element followed by the subtrees
of its children: number order is preorder.
-/
namespace ClassScribe.Model

variable {m : Model} {i j k p : ElementId}

theorem lineage_of_parent (h : m.parent? i = some p) : m.lineage i = p :: m.lineage p := by
  rw [lineage]
  split
  · simp_all
  · simp_all

theorem lineage_of_root (h : m.parent? i = none) : m.lineage i = [] := by
  rw [lineage]
  split
  · rfl
  · simp_all

theorem isWithin_iff : m.isWithin j i = true ↔ j = i ∨ i ∈ m.lineage j := by
  rw [isWithin, List.contains_iff_mem, List.mem_cons, eq_comm]

theorem isWithin_self (m : Model) (i : ElementId) : m.isWithin i i = true :=
  isWithin_iff.mpr (.inl rfl)

theorem isWithin_step (h : m.parent? j = some p) :
    m.isWithin j i = true ↔ j = i ∨ m.isWithin p i = true := by
  rw [isWithin_iff, isWithin_iff, lineage_of_parent h, List.mem_cons, eq_comm (a := p)]

theorem isWithin_top (h : m.parent? j = none) : m.isWithin j i = true ↔ j = i := by
  simp [isWithin_iff, lineage_of_root h]

theorem isWithin_trans (hk : m.isWithin k j = true) (hj : m.isWithin j i = true) :
    m.isWithin k i = true := by
  induction k using Nat.strongRecOn with
  | ind k ih =>
    cases hp : m.parent? k with
    | none =>
      obtain rfl := (isWithin_top hp).mp hk
      exact hj
    | some p =>
      rcases (isWithin_step hp).mp hk with rfl | hk
      · exact hj
      · exact (isWithin_step hp).mpr (.inr (ih p (parent?_lt hp) hk))

theorem le_of_isWithin (h : m.isWithin j i = true) : i ≤ j := by
  induction j using Nat.strongRecOn with
  | ind j ih =>
    cases hp : m.parent? j with
    | none => exact (isWithin_top hp).mp h ▸ Nat.le_refl _
    | some p =>
      rcases (isWithin_step hp).mp h with rfl | h
      · exact Nat.le_refl _
      · exact (ih p (parent?_lt hp) h).trans (parent?_lt hp).le

theorem isWithin_of_parent (h : m.parent? j = some p) : m.isWithin j p = true :=
  (isWithin_step h).mpr (.inr (isWithin_self m p))

theorem isWithin_child : m.isWithin j i = true ↔
    j = i ∨ ∃ c, m.parent? c = some i ∧ m.isWithin j c = true := by
  constructor
  · intro h
    induction j using Nat.strongRecOn with
    | ind j ih =>
      cases hp : m.parent? j with
      | none => exact .inl ((isWithin_top hp).mp h)
      | some p =>
        rcases (isWithin_step hp).mp h with rfl | h
        · exact .inl rfl
        · right
          rcases ih p (parent?_lt hp) h with rfl | ⟨c, hc, hpc⟩
          · exact ⟨j, hp, isWithin_self m j⟩
          · exact ⟨c, hc, (isWithin_step hp).mpr (.inr hpc)⟩
  · rintro (rfl | ⟨c, hc, hj⟩)
    · exact isWithin_self m j
    · exact isWithin_trans hj (isWithin_of_parent hc)

def IsPackage (m : Model) (i : ElementId) : Prop :=
  ∃ e owned, m.element? i = some e ∧ e.kind = .package owned

theorem ancestors_self (m : Model) (i : ElementId) : m.ancestors i i = [] := by
  have hout : i ∉ m.lineage i := by
    intro h
    cases hp : m.parent? i with
    | none =>
      rw [lineage_of_root hp] at h
      cases h
    | some p =>
      rw [lineage_of_parent hp, List.mem_cons, eq_comm] at h
      have := le_of_isWithin (isWithin_iff.mpr h)
      have := parent?_lt hp
      lia
  rw [ancestors, if_neg (by simpa using hout)]

theorem ancestors_of_parent (hp : m.parent? j = some p) (hw : m.isWithin p i = true) :
    m.ancestors j i = if p = i then [] else m.ancestors p i ++ [p] := by
  have hmem : (m.lineage j).contains i = true := by
    rw [lineage_of_parent hp]
    exact hw
  rw [ancestors, if_pos hmem, lineage_of_parent hp]
  by_cases hpi : p = i
  · rw [if_pos hpi, List.takeWhile_cons_of_neg (by simp [hpi])]
    rfl
  · have hin : (m.lineage p).contains i = true := by
      simpa using (isWithin_iff.mp hw).resolve_left hpi
    rw [if_neg hpi, List.takeWhile_cons_of_pos (by simpa using hpi), List.reverse_cons, ancestors,
      if_pos hin]

namespace IsTree

theorem parent_between (ht : m.IsTree) (hj : m.isWithin j i = true) (hik : i < k) (hkj : k ≤ j) :
    ∃ q, m.parent? k = some q ∧ i ≤ q := by
  induction j using Nat.strongRecOn with
  | ind j ih =>
    have hne : j ≠ i := by lia
    cases hp : m.parent? j with
    | none => exact absurd ((isWithin_top hp).mp hj) hne
    | some p =>
      have hpi : m.isWithin p i = true := ((isWithin_step hp).mp hj).resolve_left hne
      rcases Nat.eq_or_lt_of_le hkj with rfl | hkj
      · exact ⟨p, hp, le_of_isWithin hpi⟩
      · rcases Nat.lt_or_ge p k with hpk | hkp
        · obtain ⟨q, hq, hpq⟩ := ht.nested j k p hp hpk hkj
          exact ⟨q, hq, (le_of_isWithin hpi).trans hpq⟩
        · exact ih p (parent?_lt hp) hpi hkp

/-- Everything between an element and one below it is below it too. -/
theorem isWithin_between (ht : m.IsTree) (hj : m.isWithin j i = true) (hik : i ≤ k) (hkj : k ≤ j) :
    m.isWithin k i = true := by
  induction k using Nat.strongRecOn with
  | ind k ih =>
    rcases Nat.eq_or_lt_of_le hik with rfl | hlt
    · exact isWithin_self m i
    · obtain ⟨q, hq, hiq⟩ := ht.parent_between hj hlt hkj
      have hqk : q < k := parent?_lt hq
      exact (isWithin_step hq).mpr (.inr (ih q hqk hiq (hqk.le.trans hkj)))

theorem mem_children (ht : m.IsTree) {c : ElementId} :
    c ∈ m.children i ↔ m.parent? c = some i := by
  rw [ht.children_eq, List.mem_filter, ids, List.mem_range]
  constructor
  · rintro ⟨-, h⟩
    simpa using h
  · intro h
    refine ⟨?_, by simp [h]⟩
    cases he : m.element? c with
    | none => simp [parent?, he] at h
    | some e => exact (Array.getElem?_eq_some_iff.mp he).1

theorem isPackage_of_child (ht : m.IsTree) (h : m.parent? k = some i) : m.IsPackage i := by
  have hc := ht.mem_children.mpr h
  cases he : m.element? i with
  | none => simp [children, he] at hc
  | some e =>
    cases hk : e.kind with
    | package owned => exact ⟨e, owned, he, hk⟩
    | classOf ms => simp [children, he, hk, ElementKind.owned] at hc
    | interfaceOf ms => simp [children, he, hk, ElementKind.owned] at hc
    | other label => simp [children, he, hk, ElementKind.owned] at hc

theorem isPackage_of_within (ht : m.IsTree) (hj : m.isWithin j i = true) (hne : j ≠ i) :
    m.IsPackage i := by
  obtain ⟨c, hc, -⟩ := (isWithin_child.mp hj).resolve_left hne
  exact ht.isPackage_of_child hc

/-- What stands between an element and one around it are packages strictly below the latter. -/
theorem mem_ancestors (ht : m.IsTree) (hw : m.isWithin j i = true) (hk : k ∈ m.ancestors j i) :
    m.IsPackage k ∧ m.isWithin k i = true ∧ k ≠ i := by
  induction j using Nat.strongRecOn with
  | ind j ih =>
    have hne : j ≠ i := by
      rintro rfl
      rw [ancestors_self] at hk
      cases hk
    cases hp : m.parent? j with
    | none => exact absurd ((isWithin_top hp).mp hw) hne
    | some p =>
      have hpi := ((isWithin_step hp).mp hw).resolve_left hne
      rw [ancestors_of_parent hp hpi] at hk
      by_cases hroot : p = i
      · rw [if_pos hroot] at hk
        cases hk
      · rw [if_neg hroot, List.mem_append, List.mem_singleton] at hk
        rcases hk with hk | rfl
        · exact ih p (parent?_lt hp) hpi hk
        · exact ⟨ht.isPackage_of_child hp, hpi, hroot⟩

theorem children_sorted (ht : m.IsTree) (i : ElementId) : (m.children i).Pairwise (· < ·) := by
  rw [ht.children_eq]
  exact List.pairwise_lt_range.filter _

/-- The subtrees of siblings come one after the other. -/
theorem subtree_lt (ht : m.IsTree) {c c' x y : ElementId} (hc : m.parent? c = some i)
    (hc' : m.parent? c' = some i) (hlt : c < c') (hx : m.isWithin x c = true)
    (hy : m.isWithin y c' = true) : x < y := by
  have hy' := le_of_isWithin hy
  by_contra hxy
  have hw : m.isWithin c' c = true := ht.isWithin_between hx hlt.le (by lia)
  rcases (isWithin_step hc').mp hw with rfl | hic
  · lia
  · have := le_of_isWithin hic
    have := parent?_lt hc
    lia

end IsTree

/-- An element and all below it, in the order of their numbers. -/
def subtree (m : Model) (i : ElementId) : List ElementId := m.ids.filter (m.isWithin · i)

theorem mem_subtree : j ∈ m.subtree i ↔ j < m.elements.size ∧ m.isWithin j i = true := by
  simp [subtree, ids]

theorem IsPackage.mem_subtree (hj : m.IsPackage j) (hi : m.isWithin j i = true) :
    j ∈ m.subtree i := by
  obtain ⟨e, -, he, -⟩ := hj
  exact Model.mem_subtree.mpr ⟨(Array.getElem?_eq_some_iff.mp he).1, hi⟩

theorem subtree_sorted (m : Model) (i : ElementId) : (m.subtree i).Pairwise (· < ·) :=
  List.pairwise_lt_range.filter _

/-- In front of an element of a subtree stand those with smaller numbers, behind it those with
greater ones. -/
theorem subtree_split {xs ys : List ElementId} (h : m.subtree i = xs ++ k :: ys) :
    (∀ j, j ∈ xs ↔ j ∈ m.subtree i ∧ j < k) ∧ (∀ j, j ∈ ys ↔ j ∈ m.subtree i ∧ k < j) := by
  have hs := m.subtree_sorted i
  rw [h, List.pairwise_append, List.pairwise_cons] at hs
  obtain ⟨-, ⟨hys, -⟩, hxs⟩ := hs
  have hxk (j : ElementId) (hj : j ∈ xs) : j < k := hxs j hj k List.mem_cons_self
  constructor
  · intro j
    rw [h, List.mem_append, List.mem_cons]
    constructor
    · exact fun hj => ⟨.inl hj, hxk j hj⟩
    · rintro ⟨hj | rfl | hj, hjk⟩
      · exact hj
      · exact absurd hjk (Nat.lt_irrefl _)
      · exact absurd hjk (Nat.lt_asymm (hys j hj))
  · intro j
    rw [h, List.mem_append, List.mem_cons]
    constructor
    · exact fun hj => ⟨.inr (.inr hj), hys j hj⟩
    · rintro ⟨hj | rfl | hj, hkj⟩
      · exact absurd hkj (Nat.lt_asymm (hxk j hj))
      · exact absurd hkj (Nat.lt_irrefl _)
      · exact hj

/-- Number order is preorder. -/
theorem IsTree.subtree_eq (ht : m.IsTree) (hi : i < m.elements.size) :
    m.subtree i = i :: (m.children i).flatMap m.subtree := by
  apply List.Pairwise.eq_of_mem_iff (r := (· < ·)) (m.subtree_sorted i)
  · refine List.pairwise_cons.mpr ⟨?_, ?_⟩
    · intro x hx
      obtain ⟨c, hc, hx⟩ := List.mem_flatMap.mp hx
      have hlt := parent?_lt (ht.mem_children.mp hc)
      exact Nat.lt_of_lt_of_le hlt (le_of_isWithin (mem_subtree.mp hx).2)
    · refine List.pairwise_flatMap.mpr ⟨fun c _ => m.subtree_sorted c, ?_⟩
      refine (ht.children_sorted i).imp_of_mem ?_
      intro c c' hc hc' hlt x hx y hy
      exact ht.subtree_lt (ht.mem_children.mp hc) (ht.mem_children.mp hc') hlt
        (mem_subtree.mp hx).2 (mem_subtree.mp hy).2
  · intro x
    rw [mem_subtree, isWithin_child, List.mem_cons, List.mem_flatMap]
    constructor
    · rintro ⟨hx, rfl | ⟨c, hc, hxc⟩⟩
      · exact .inl rfl
      · exact .inr ⟨c, ht.mem_children.mpr hc, mem_subtree.mpr ⟨hx, hxc⟩⟩
    · rintro (rfl | ⟨c, hc, hxc⟩)
      · exact ⟨hi, .inl rfl⟩
      · exact ⟨(mem_subtree.mp hxc).1, .inr ⟨c, ht.mem_children.mp hc, (mem_subtree.mp hxc).2⟩⟩

end ClassScribe.Model
