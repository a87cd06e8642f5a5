import Mathlib.Data.List.Perm.Basic
import ClassScribe.Model.Facts
import ClassScribe.Proofs.Model.Arena

/-! # Navigable ends

Every element asks the associations at it for what it holds. Taken together, the answers are the
navigable ends of all associations: none is missed, and none is told twice, also where both ends are
at one element.
-/
namespace ClassScribe

/-- An element that holds a reference, and the element that it refers to. -/
abbrev Link := ElementId × ElementId

/-- What an association lets its elements hold, for each navigable end, the second one first. -/
def Association.links (a : Association) : List Link :=
  (if a.end2.navigable then [(a.end1.element, a.end2.element)] else []) ++
    if a.end1.navigable then [(a.end2.element, a.end1.element)] else []

/-- The associations of a model, in the order of the snapshot. -/
def Model.allAssociations (m : Model) : List Association :=
  m.relationships.filterMap (·.association?)

def Model.links (m : Model) : List Link := m.allAssociations.flatMap Association.links

/-- The links of one element are all that it can reach. -/
theorem Association.reachable_eq (a : Association) (i : ElementId) :
    a.reachable i = (a.links.filter (·.1 == i)).map (·.2) := by
  unfold reachable links
  rw [List.filter_append, List.map_append]
  congr 1
  · cases a.end2.navigable with
    | false => simp
    | true => by_cases h : a.end1.element = i <;> simp [h]
  · cases a.end1.navigable with
    | false => simp
    | true => by_cases h : a.end2.element = i <;> simp [h]

theorem Association.mem_links {a : Association} {l : Link} : l ∈ a.links ↔
    (a.end2.navigable = true ∧ l = (a.end1.element, a.end2.element)) ∨
      (a.end1.navigable = true ∧ l = (a.end2.element, a.end1.element)) := by
  simp [links]

theorem Association.reachable_of_apart {a : Association} {i : ElementId}
    (h : ¬ (Relationship.association a).touches i = true) : a.reachable i = [] := by
  simp only [Relationship.touches, Relationship.ends, Bool.or_eq_true, beq_iff_eq, not_or] at h
  simp [reachable, h.1, h.2]

/-- The links are as many with all the second ends taken before the first ends. -/
theorem links_perm (as : List Association) : (as.flatMap Association.links).Perm
    ((as.filter (·.end2.navigable)).map (fun a => (a.end1.element, a.end2.element)) ++
      (as.filter (·.end1.navigable)).map fun a => (a.end2.element, a.end1.element)) := by
  have hends (p : Association → Bool) (f : Association → Link) :
      (as.flatMap fun a => if p a then [f a] else []) = (as.filter p).map f := by
    induction as with
    | nil => rfl
    | cons a as ih =>
      rw [List.flatMap_cons, List.filter_cons, ih]
      split <;> rfl
  rw [← hends, ← hends]
  exact (List.flatMap_append_perm as _ _).symm

/-- What is sorted by numbers is all there, as long as no number is left out. -/
theorem perm_of_numbers {α : Type} {xs : List (Nat × α)} {n : Nat} (h : ∀ x ∈ xs, x.1 < n) :
    ((List.range n).flatMap fun i => xs.filter (·.1 == i)).Perm xs := by
  have hbelow (n : Nat) :
      ((List.range n).flatMap fun i => xs.filter (·.1 == i)).Perm (xs.filter (·.1 < n)) := by
    induction n with
    | zero => simp
    | succ n ih =>
      have hsplit := List.filter_append_perm (fun x : Nat × α => x.1 < n) (xs.filter (·.1 < n + 1))
      have hlt : (xs.filter (·.1 < n + 1)).filter (·.1 < n) = xs.filter (·.1 < n) := by
        rw [List.filter_filter]
        refine List.filter_congr fun x _ => ?_
        simp only [← Bool.decide_and, decide_eq_decide]
        omega
      have heq : (xs.filter (·.1 < n + 1)).filter (fun x => !decide (x.1 < n)) =
          xs.filter (·.1 == n) := by
        rw [List.filter_filter]
        refine List.filter_congr fun x _ => ?_
        simp only [← decide_not, ← Bool.decide_and, beq_eq_decide, decide_eq_decide]
        omega
      rw [hlt, heq] at hsplit
      rw [List.range_succ, List.flatMap_append, List.flatMap_singleton]
      exact (ih.append_right _).trans hsplit
  have hn := hbelow n
  rwa [List.filter_eq_self.mpr fun x hx => decide_eq_true (h x hx)] at hn

namespace Model
open Snapshot

variable {m : Model} {d : Document} {i : ElementId}

/-- Associations that are not at an element let it hold nothing. -/
theorem associations_reachable (m : Model) (i : ElementId) :
    (m.associations i).flatMap (·.reachable i) =
      m.allAssociations.flatMap (·.reachable i) := by
  unfold associations allAssociations relationshipsOf
  induction m.relationships with
  | nil => rfl
  | cons r rs ih =>
    rw [List.filter_cons]
    split
    · cases ha : r.association? with
      | none => rw [List.filterMap_cons_none ha, List.filterMap_cons_none ha, ih]
      | some a =>
        rw [List.filterMap_cons_some ha, List.filterMap_cons_some ha, List.flatMap_cons,
          List.flatMap_cons, ih]
    · rename_i ht
      rw [ih]
      cases ha : r.association? with
      | none => rw [List.filterMap_cons_none ha]
      | some a =>
        obtain rfl := Relationship.association?_eq_some.mp ha
        rw [List.filterMap_cons_some ha, List.flatMap_cons, Association.reachable_of_apart ht,
          List.nil_append]

/-- What an element holds are the links at it, in the order of all links. -/
theorem held_eq (m : Model) (i : ElementId) : m.held i =
    (m.links.filter (·.1 == i)).map fun l => ⟨l.2, Text.stem (m.name l.2)⟩ := by
  have hlinks : (m.associations i).flatMap (·.reachable i) =
      (m.links.filter (·.1 == i)).map (·.2) := by
    unfold links
    rw [associations_reachable, List.filter_flatMap, List.map_flatMap]
    exact List.flatMap_congr fun a _ => a.reachable_eq i
  rw [held, hlinks, List.map_map]
  rfl

/-- What is collected at an element are the links at it. -/
theorem collected_eq (m : Model) (i : ElementId) :
    (m.held i).map (fun h => (i, h.element)) = m.links.filter (·.1 == i) := by
  rw [held_eq, List.map_map]
  conv_rhs => rw [← List.map_id (m.links.filter _)]
  refine List.map_congr_left fun l hl => ?_
  have hi : l.1 = i := by simpa using (List.mem_filter.mp hl).2
  exact Prod.ext hi.symm rfl

theorem mem_links {l : Link} :
    l ∈ m.links ↔ ∃ a, .association a ∈ m.relationships ∧ l ∈ a.links := by
  simp [links, allAssociations, Relationship.association?_eq_some]

theorem link_in_range (hd : build d = .ok m) {l : Link} (hl : l ∈ m.links) :
    l.1 < m.elements.size := by
  obtain ⟨a, ha, hl⟩ := mem_links.mp hl
  obtain ⟨h1, h2⟩ := ends_in_range hd ha
  rcases Association.mem_links.mp hl with ⟨-, rfl⟩ | ⟨-, rfl⟩
  · exact h1
  · exact h2

/-- All that the elements of a model hold are the navigable ends of its associations, which are
those of the document: each is told once, by the element at the other end. An element tells what it
holds in the order of the associations, the second end of an association first. -/
theorem held_exactly (hd : build d = .ok m) :
    List.Forall₂ d.Resolves d.relationships m.relationships ∧
    (m.ids.flatMap fun i => (m.held i).map fun h => (i, h.element)).Perm
      ((m.allAssociations.filter (·.end2.navigable)).map
          (fun a => (a.end1.element, a.end2.element)) ++
        (m.allAssociations.filter (·.end1.navigable)).map
          fun a => (a.end2.element, a.end1.element)) ∧
    ∀ i, m.held i = m.allAssociations.flatMap fun a =>
      (a.links.filter (·.1 == i)).map fun l => ⟨l.2, Text.stem (m.name l.2)⟩ := by
  refine ⟨(built_of_build hd).relationships, ?_, fun i => ?_⟩
  · simp only [collected_eq]
    exact (perm_of_numbers fun l hl => link_in_range hd hl).trans (links_perm m.allAssociations)
  · rw [held_eq, links, List.filter_flatMap, List.map_flatMap]

/-- A node refers to itself by both ends of an association. A leaf is at four more, of which one can
be followed both ways, one cannot be followed, and one stands twice. -/
def branching : Document where
  name := "Graph"
  ownedElements := [{ kind := "class", name := "Node" }, { kind := "class", name := "LeafNode" }]
  relationships := [
    .association "next" ⟨"Node", true⟩ ⟨"Node", true⟩,
    .generalization "LeafNode" "Node",
    .association "leaf" ⟨"Node", true⟩ ⟨"LeafNode", true⟩,
    .association "" ⟨"LeafNode", false⟩ ⟨"Node", false⟩,
    .association "" ⟨"LeafNode", true⟩ ⟨"Node", false⟩,
    .association "" ⟨"LeafNode", true⟩ ⟨"Node", false⟩]

theorem branching_held : ∃ m, build branching = .ok m ∧
    (m.ids.flatMap fun i => (m.held i).map fun h => (i, h.element)).Perm
      [(1, 1), (1, 2), (1, 1), (2, 1), (1, 2), (1, 2)] ∧
    (m.held 1).map (·.element) = [1, 1, 2, 2, 2] ∧ m.held 2 = [⟨1, "node"⟩] := by
  have hd : build branching = .ok ⟨(branching.entries.map (·.element)).toArray, [
    .association ⟨"next", ⟨1, true⟩, ⟨1, true⟩⟩, .generalization 2 1,
    .association ⟨"leaf", ⟨1, true⟩, ⟨2, true⟩⟩, .association ⟨"", ⟨2, false⟩, ⟨1, false⟩⟩,
    .association ⟨"", ⟨2, true⟩, ⟨1, false⟩⟩, .association ⟨"", ⟨2, true⟩, ⟨1, false⟩⟩]⟩ := rfl
  obtain ⟨-, hall, hheld⟩ := held_exactly hd
  refine ⟨_, hd, hall, ?_, ?_⟩
  · rw [hheld]
    rfl
  · rw [hheld]
    decide +kernel

end Model
end ClassScribe
