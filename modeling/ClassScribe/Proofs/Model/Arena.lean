import ClassScribe.Proofs.Model.Address
import ClassScribe.Proofs.Model.Climb
import ClassScribe.Proofs.Model.Reference

/-! # The elements of a model as a tree

A built model lists the nodes of its document in preorder. From the root down, the lists of owned
elements lead to each element by the address of its node; from an element up, parents lead back to
the root, so that every loop that follows them ends and reads no element that is not there.
-/
namespace ClassScribe
namespace Model
open Snapshot

variable {m : Model} {d : Document} {i j c : ElementId} {e : Element} {n : Snapshot.Element}
  {a b : Address}

/-- The element at an address below another one, by the lists of owned elements. -/
def descend (m : Model) (i : ElementId) : Address → Option ElementId
  | [] => some i
  | k :: a => (m.children i)[k]?.bind fun c => m.descend c a

/-- The element at an address. -/
def at? (m : Model) (a : Address) : Option ElementId := m.descend root a

/-- An element says what a node of a document says. -/
def Shows (m : Model) (i : ElementId) (n : Snapshot.Element) : Prop :=
  ∃ e, m.element? i = some e ∧ e.id = i ∧ e.name = n.name ∧ e.key = n.id.getD n.name ∧
    e.documentation = n.documentation ∧ e.stereotype = n.stereotype ∧
    e.kind = n.resolvedKind (m.children i)

theorem element?_number (hd : build d = .ok m) (h : d.at? a = some n) :
    m.element? (d.number a) = some (d.entryAt a n).element := by
  rw [element?_eq, build_elements hd, List.getElem?_map, Document.entries_number h]
  rfl

theorem size_eq (hd : build d = .ok m) : m.elements.size = d.entries.length := by
  rw [← Array.length_toList, build_elements hd, List.length_map]

theorem children_number (hd : build d = .ok m) (h : d.at? a = some n) :
    m.children (d.number a) =
      if isPackageKind n.kind then siblingIds (d.number a + 1) n.ownedElements else [] := by
  rw [children, element?_number hd h]
  cases a with
  | nil =>
    obtain rfl := Option.some.inj h
    rfl
  | cons k a => exact owned_resolvedKind n _

theorem shows_number (hd : build d = .ok m) (h : d.at? a = some n) : m.Shows (d.number a) n := by
  refine ⟨_, element?_number hd h, ?_⟩
  have howned := children_number hd h
  cases a with
  | nil =>
    obtain rfl := Option.some.inj h
    rw [howned]
    exact ⟨rfl, rfl, rfl, rfl, rfl, rfl⟩
  | cons k a =>
    refine ⟨rfl, rfl, rfl, rfl, rfl, ?_⟩
    rw [howned]
    show n.resolvedKind _ = n.resolvedKind _
    by_cases hk : isPackageKind n.kind = true
    · rw [if_pos hk]
    · rw [Element.resolvedKind, Element.resolvedKind, if_neg hk, if_neg hk]

/-- The lists of owned elements lead to the number of the node at an address, if there is one. -/
theorem descend_number (hd : build d = .ok m) (h : d.at? b = some n) (a : Address) :
    m.descend (d.number b) a = (n.at? a).map fun _ => d.number (b ++ a) := by
  induction a generalizing b n with
  | nil =>
    rw [List.append_nil]
    rfl
  | cons k a ih =>
    rw [descend, children_number hd h, Element.at?]
    by_cases hk : isPackageKind n.kind = true
    · rw [if_pos hk, if_pos hk]
      cases hx : n.ownedElements[k]? with
      | none =>
        have hlen : (siblingIds (d.number b + 1) n.ownedElements).length ≤ k := by
          rw [length_siblingIds]
          exact List.getElem?_eq_none_iff.mp hx
        rw [List.getElem?_eq_none hlen]
        rfl
      | some x =>
        have hchild := Document.at?_child h hk hx
        rw [siblingIds_getElem? _ hx, ← Document.number_child h hx, Option.bind_some,
          Option.bind_some, ih hchild, List.append_assoc, List.singleton_append]
    · rw [if_neg hk, if_neg hk]
      rfl

theorem at?_eq (hd : build d = .ok m) (a : Address) :
    m.at? a = (d.at? a).map fun _ => d.number a :=
  descend_number hd (b := []) rfl a

theorem at?_eq_some (hd : build d = .ok m) :
    m.at? a = some i ↔ ∃ n, d.at? a = some n ∧ d.number a = i := by
  rw [at?_eq hd, Option.map_eq_some_iff]

/-- A model lists the nodes of a document, as a tree that can be walked up and down. -/
structure Arena (d : Document) (m : Model) : Prop where
  /-- There is nothing but what the lists of owned elements lead to, -/
  addressed : ∀ i, i < m.elements.size ↔ ∃ a, m.at? a = some i
  /-- which are the nodes that packages lead to, -/
  reached : ∀ a, (∃ i, m.at? a = some i) ↔ ∃ n, d.at? a = some n
  /-- in preorder. -/
  preorder : ∀ a b i j, m.at? a = some i → m.at? b = some j → (i < j ↔ a < b)
  shows : ∀ a i n, m.at? a = some i → d.at? a = some n → m.Shows i n
  /-- What a package owns is what its node declares, in that order. -/
  declared : ∀ a i n, m.at? a = some i → d.at? a = some n → isPackageKind n.kind = true →
    List.Forall₂ m.Shows (m.children i) n.ownedElements
  sorted : ∀ i, (m.children i).Pairwise (· < ·)
  owned_in_range : ∀ i, ∀ c ∈ m.children i, c < m.elements.size
  /-- Only the root has no parent. Any other element is owned once, by a package before it. -/
  parent_none : ∀ i e, m.element? i = some e → (e.parent = none ↔ i = root)
  owner : ∀ i e p, m.element? i = some e → e.parent = some p →
    p < i ∧ m.IsPackage p ∧ (m.children p).count i = 1
  ends_in_range : ∀ r ∈ m.relationships, r.ends.1 < m.elements.size ∧ r.ends.2 < m.elements.size
  /-- The loops that go up end, without a read out of range, and this is what they give. -/
  ancestors : ∀ i e top x, m.element? i = some e →
    (m.Climbs (gather top) (fun _ => []) e.parent [] x ↔ x = m.ancestors i top)
  qualifiedName : ∀ i e x, m.element? i = some e →
    (m.Climbs m.gatherNames dotted e.parent [e.name] x ↔ x = m.qualifiedName i)
  isWithin : ∀ i top x, i < m.elements.size →
    (m.Climbs (seek top) (fun _ => false) (some i) () x ↔ x = m.isWithin i top)

theorem built_of_build (hd : build d = .ok m) : d.Built m := by
  rcases build_cases d with ⟨m', hm', -, hbuilt⟩ | ⟨e, he, -⟩
  · obtain rfl := Except.ok.inj (hm'.symm.trans hd)
    exact hbuilt
  · cases he.symm.trans hd

theorem ends_in_range (hd : build d = .ok m) {r : Relationship} (hr : r ∈ m.relationships) :
    r.ends.1 < m.elements.size ∧ r.ends.2 < m.elements.size := by
  have hbuilt := built_of_build hd
  have only {s : String} {i : ElementId} (h : d.Only s i) : i < m.elements.size := by
    obtain ⟨n, hn, -⟩ := h.1
    rw [hbuilt.size]
    exact (List.getElem?_eq_some_iff.mp hn).1
  have hall := hbuilt.relationships
  generalize d.relationships = rs at hall
  generalize m.relationships = rs' at hall hr
  induction hall with
  | nil => cases hr
  | cons hres _ ih =>
    rcases List.mem_cons.mp hr with rfl | hr
    · cases hres with
      | generalization hi hj | realization hi hj | association hi hj => exact ⟨only hi, only hj⟩
    · exact ih hr

theorem declared_of_build (hd : build d = .ok m) (h : d.at? a = some n)
    (hk : isPackageKind n.kind = true) :
    List.Forall₂ m.Shows (m.children (d.number a)) n.ownedElements := by
  rw [children_number hd h, if_pos hk, List.forall₂_iff_get]
  refine ⟨length_siblingIds _ _, fun k hk' hx' => ?_⟩
  have hx : n.ownedElements[k]? = some (n.ownedElements.get ⟨k, hx'⟩) :=
    List.getElem?_eq_getElem hx'
  have hnumber :
      (siblingIds (d.number a + 1) n.ownedElements).get ⟨k, hk'⟩ = d.number (a ++ [k]) := by
    have hsibling := siblingIds_getElem? (d.number a + 1) hx
    rw [Document.number_child h hx]
    exact (List.getElem?_eq_some_iff.mp hsibling).2
  rw [hnumber]
  exact shows_number hd (Document.at?_child h hk hx)

theorem owner_of_parent (hd : build d = .ok m) {p : ElementId} (he : m.element? i = some e)
    (hp : e.parent = some p) : p < i ∧ m.IsPackage p ∧ (m.children p).count i = 1 := by
  have ht := build_isTree hd
  have hpar : m.parent? i = some p := (parent?_eq hd he).trans hp
  have hnodup : (m.children p).Nodup := (ht.children_sorted p).imp fun h => Nat.ne_of_lt h
  exact ⟨parent?_lt hpar, ht.isPackage_of_child hpar,
    List.count_eq_one_of_mem hnodup (ht.mem_children.mpr hpar)⟩

/-- The elements of a built model are the tree of its document. -/
theorem build_arena (hd : build d = .ok m) : Arena d m := by
  have ht := build_isTree hd
  have node {a : Address} {i : ElementId} (h : m.at? a = some i) :
      ∃ n, d.at? a = some n ∧ d.number a = i := (at?_eq_some hd).mp h
  exact {
    addressed := by
      intro i
      rw [size_eq hd]
      constructor
      · intro hi
        obtain ⟨a, n, hn, ha⟩ := Document.exists_number hi
        exact ⟨a, (at?_eq_some hd).mpr ⟨n, hn, ha⟩⟩
      · rintro ⟨a, h⟩
        obtain ⟨n, hn, rfl⟩ := node h
        exact Document.number_lt hn
    reached := by
      intro a
      simp only [at?_eq_some hd]
      constructor
      · rintro ⟨i, n, hn, -⟩
        exact ⟨n, hn⟩
      · rintro ⟨n, hn⟩
        exact ⟨_, n, hn, rfl⟩
    preorder := by
      intro a b i j ha hb
      obtain ⟨n, hn, rfl⟩ := node ha
      obtain ⟨n', hn', rfl⟩ := node hb
      exact Document.number_lt_iff hn hn'
    shows := by
      intro a i n ha hn
      obtain ⟨n', -, rfl⟩ := node ha
      exact shows_number hd hn
    declared := by
      intro a i n ha hn hk
      obtain ⟨n', -, rfl⟩ := node ha
      exact declared_of_build hd hn hk
    sorted := ht.children_sorted
    owned_in_range := by
      intro i c hc
      rw [ht.children_eq, List.mem_filter, ids, List.mem_range] at hc
      exact hc.1
    parent_none := by
      intro i e he
      rw [← parent?_eq hd he]
      constructor
      · intro hp
        by_contra hi
        obtain ⟨p, hpar⟩ := ht.has_parent i (Array.getElem?_eq_some_iff.mp he).1 hi
        cases hp.symm.trans hpar
      · rintro rfl
        exact ht.root_parent
    owner := fun i e p he hp => owner_of_parent hd he hp
    ends_in_range := fun r hr => ends_in_range hd hr
    ancestors := fun i e top x he => climbs_ancestors hd he
    qualifiedName := fun i e x he => climbs_qualifiedName hd he
    isWithin := fun i top x hi => climbs_isWithin hd hi }

/-- A package that comes after its class, which has an element of its own nested in it. -/
def parts : Document where
  name := "Shop"
  ownedElements := [
    { kind := "class", name := "Cart", ownedElements := [{ kind := "class", name := "Slot" }] },
    { kind := "package", name := "Billing",
      ownedElements := [{ kind := "interface", name := "Tax" }] }]
  relationships := [.realization "Cart" "Tax"]

theorem parts_arena : ∃ m, build parts = .ok m ∧ Arena parts m ∧ m.elements.size = 4 ∧
    m.at? [1, 0] = some 3 ∧ m.at? [0, 0] = none ∧ m.ancestors 3 root = [2] :=
  ⟨_, rfl, build_arena rfl, rfl, rfl, rfl, by decide +kernel⟩

end Model
end ClassScribe
