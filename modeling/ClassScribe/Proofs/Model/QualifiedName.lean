import ClassScribe.Proofs.Model.Arena
import ClassScribe.Proofs.Model.ExplicitId
import ClassScribe.Proofs.Model.Shuffle

/-! # Qualified names from both ends

While a document is registered, qualified names are put together from the root down. In a model
they are read from an element up, and the first element is found that has a given one. Several
elements may share a qualified name, and a key may look like one, but a reference is resolved only
if it means a single element. So where it is also found as a qualified name, it is that element.
-/
namespace ClassScribe.Model
open Snapshot

variable {m : Model} {d : Document} {a : Address} {n : Snapshot.Element} {i : ElementId}
  {q : String} {x : Entry}

theorem name_number (hd : build d = .ok m) (h : d.at? a = some n) :
    m.name (d.number a) = n.name := by
  obtain ⟨e, he, -, hname, -⟩ := shows_number hd h
  rw [name, he]
  exact hname

theorem parent?_number (hd : build d = .ok m) {k : Nat} (h : d.at? (a ++ [k]) = some n) :
    m.parent? (d.number (a ++ [k])) = some (d.number a) := by
  have hparent : (d.entryAt (a ++ [k]) n).element.parent = some (d.number (a ++ [k]).dropLast) := by
    unfold Document.entryAt
    rw [if_neg (by simp)]
    rfl
  rw [parent?_eq hd (element?_number hd h), hparent, List.dropLast_concat]

/-- The names on the way up from a node are those on the way down to it. -/
theorem names_number (hd : build d = .ok m) (h : d.at? a = some n) :
    (d.number a :: m.lineage (d.number a)).reverse.map m.name = d.top.namesTo a := by
  induction a using List.reverseRecOn generalizing n with
  | nil =>
    have htop : m.lineage (d.number []) = [] := lineage_of_root (build_isTree hd).root_parent
    rw [htop, List.reverse_singleton, List.map_singleton, name_number hd h]
    obtain rfl := Option.some.inj h
    rfl
  | append_singleton a k ih =>
    obtain ⟨x, hx, -⟩ := at?_prefix h
    rw [lineage_of_parent (parent?_number hd h), List.reverse_cons, List.map_append, ih hx,
      List.map_singleton, name_number hd h, namesTo_concat h]

theorem qualified_entryAt (h : d.at? a = some n) :
    (d.entryAt a n).qualified = ".".intercalate (d.top.namesTo a) := by
  cases a with
  | nil => exact String.intercalate_singleton.symm
  | cons k a => rfl

/-- Every entry is an element of the model, and what was put together on the way down to it is what
is read on the way up. -/
theorem entries_qualified (hd : build d = .ok m) (hx : x ∈ d.entries) :
    m.element? x.element.id = some x.element ∧ x.qualified = m.qualifiedName x.element.id := by
  obtain ⟨j, hj⟩ := List.getElem?_of_mem hx
  obtain ⟨a, n, hn, rfl⟩ := Document.exists_number (List.getElem?_eq_some_iff.mp hj).1
  rw [id_of_getElem? hj]
  obtain rfl := Option.some.inj ((Document.entries_number hn).symm.trans hj)
  refine ⟨element?_number hd hn, ?_⟩
  rw [qualified_entryAt hn, qualifiedName, names_number hd hn]

/-- The element with the least number is found. -/
theorem find?_eq_some : m.find? q = some i ↔
    i < m.elements.size ∧ m.qualifiedName i = q ∧ ∀ j < i, m.qualifiedName j ≠ q := by
  rw [find?, ids, List.find?_range_eq_some, List.mem_range, beq_iff_eq]
  constructor
  · rintro ⟨hq, hi, hbefore⟩
    exact ⟨hi, hq, fun j hj => by simpa using hbefore j hj⟩
  · rintro ⟨hi, hq, hbefore⟩
    exact ⟨hq, hi, fun j hj => by simpa using hbefore j hj⟩

theorem find?_isSome : (∃ i, m.find? q = some i) ↔
    ∃ i, i < m.elements.size ∧ m.qualifiedName i = q := by
  rw [← Option.isSome_iff_exists, find?, List.find?_isSome]
  simp [ids]

theorem means_of_find? (hd : build d = .ok m) (h : m.find? q = some i) : d.Means q i := by
  obtain ⟨hi, rfl, -⟩ := find?_eq_some.mp h
  obtain ⟨a, n, hn, rfl⟩ := Document.exists_number (size_eq hd ▸ hi)
  refine Document.means_iff_names.mpr ⟨a, rfl, n, hn, .inr ?_⟩
  rw [qualifiedName, names_number hd hn]

/-- What is found is among what a text can mean, and a text that means one element means no
other. -/
theorem eq_of_find? (hd : build d = .ok m) {j : ElementId} (ho : d.Only q i)
    (h : m.find? q = some j) : i = j :=
  (ho.2 j (means_of_find? hd h)).symm

/-- Every element is registered under the qualified name that is read from it up to the root. An
element is found by a qualified name if there is one, and it is the one with the least number; a
text that is resolved is not found as the qualified name of another element. -/
theorem lookups_agree (hd : build d = .ok m) :
    d.entries.map (·.element) = m.elements.toList ∧
    (∀ x ∈ d.entries, m.element? x.element.id = some x.element ∧
      x.qualified = m.qualifiedName x.element.id ∧
      m.Climbs m.gatherNames dotted x.element.parent [x.element.name] x.qualified) ∧
    (∀ q, ((∃ i, m.find? q = some i) ↔ ∃ i, i < m.elements.size ∧ m.qualifiedName i = q) ∧
      ∀ i, m.find? q = some i → m.qualifiedName i = q ∧
        ∀ j, j < m.elements.size → m.qualifiedName j = q → i ≤ j) ∧
    (∀ k q i j, resolve d.entries k q = .ok i → m.find? q = some j → i = j) ∧
    List.Forall₂ (fun r i => ∀ j, m.find? r.2 = some j → i = j) d.references m.ends := by
  refine ⟨(build_elements hd).symm, fun x hx => ?_, fun q => ⟨find?_isSome, fun i hi => ?_⟩,
    fun k q i j hi hj => ?_, ?_⟩
  · obtain ⟨he, hq⟩ := entries_qualified hd hx
    exact ⟨he, hq, (climbs_qualifiedName hd he).mpr hq⟩
  · obtain ⟨-, hq, hbefore⟩ := find?_eq_some.mp hi
    refine ⟨hq, fun j _ hj => ?_⟩
    by_contra hlt
    exact hbefore j (Nat.lt_of_not_le hlt) hj
  · rcases resolve_cases d k q with ⟨i', hi', ho⟩ | ⟨e, he, -⟩
    · obtain rfl := Except.ok.inj (hi'.symm.trans hi)
      exact eq_of_find? hd ho hj
    · cases he.symm.trans hi
  · exact (built_of_build hd).ends.imp fun r i ho j hj => eq_of_find? hd ho hj

/-- Two classes have one qualified name, for the dots in their own and in a package. Another class
has an id that looks like one. -/
def branches : Document where
  name := "Shop"
  ownedElements := [
    { kind := "package", name := "A", ownedElements := [{ kind := "class", name := "B.C" }] },
    { kind := "package", name := "A.B", ownedElements := [{ kind := "class", name := "C" }] },
    { kind := "class", id := some "Shop.A.D", name := "C.D" }]
  relationships := [.generalization "Shop.A.D" "C", .realization "Shop.C.D" "Shop.A.B"]

theorem branches_agree : ∃ m, build branches = .ok m ∧
    m.ids.map m.qualifiedName =
      ["Shop", "Shop.A", "Shop.A.B.C", "Shop.A.B", "Shop.A.B.C", "Shop.C.D"] ∧
    (∀ x ∈ branches.entries, x.qualified = m.qualifiedName x.element.id) ∧
    (∃ i, m.find? "Shop.A.B.C" = some i ∧ i ≤ 2) ∧ m.find? "Shop.A.D" = none ∧
    m.ends = [5, 4, 5, 3] ∧
    List.Forall₂ (fun r i => ∀ j, m.find? r.2 = some j → i = j) branches.references m.ends := by
  have hd : build branches = .ok ⟨(branches.entries.map (·.element)).toArray,
    [.generalization 5 4, .realization 5 3]⟩ := rfl
  obtain ⟨-, hup, hfound, -, hends⟩ := lookups_agree hd
  obtain ⟨hsome, hleast⟩ := hfound "Shop.A.B.C"
  obtain ⟨i, hi⟩ := hsome.mpr ⟨2, by decide, by decide +kernel⟩
  refine ⟨_, hd, by decide +kernel, fun x hx => (hup x hx).2.1, ⟨i, hi, ?_⟩, by decide +kernel, rfl,
    hends⟩
  exact (hleast i hi).2 2 (by decide) (by decide +kernel)

end ClassScribe.Model
