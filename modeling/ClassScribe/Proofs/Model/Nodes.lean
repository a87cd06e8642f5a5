import ClassScribe.Proofs.Model.Tree

/-! # The nodes of a snapshot

What a snapshot registers can be said without numbers and entries: its nodes are the root and all
that packages own, in the order of the document. The entries of a build are these nodes one by one,
so a reference can mean an entry exactly when it can mean the node with the same number.
-/
namespace ClassScribe
namespace Snapshot

/-- An element as references see it. -/
structure Node where
  id? : Option String
  name : String
  /-- The names from the root down to the element, joined by dots. -/
  qualified : String

def Node.key (n : Node) : String := n.id?.getD n.name

mutual

/-- An element and what it owns. Only packages own anything. -/
def Element.nodes (above : List String) : Element → List Node
  | ⟨kind, id, name, _, _, owned, _, _⟩ =>
    ⟨id, name, ".".intercalate (above ++ [name])⟩ ::
      if isPackageKind kind then nodesAll (above ++ [name]) owned else []

def nodesAll (above : List String) : List Element → List Node
  | [] => []
  | e :: rest => e.nodes above ++ nodesAll above rest

end

namespace Document

variable (d : Document) (s : String) (i : ElementId)

def nodes : List Node := ⟨d.id, d.name, d.name⟩ :: nodesAll [d.name] d.ownedElements

/-- A reference can mean the node with number `i`. -/
def Means : Prop := ∃ n, d.nodes[i]? = some n ∧ (s = n.key ∨ s = n.qualified)

/-- A reference means the node with number `i` and no other. -/
def Only : Prop := d.Means s i ∧ ∀ j, d.Means s j → j = i

end Document
end Snapshot

def Entry.node (x : Entry) : Snapshot.Node := ⟨x.explicitId, x.element.name, x.qualified⟩

namespace Snapshot

variable {d : Document} {s : String} {i : ElementId} {x : Entry}

theorem intercalate_concat {above : List String} (h : above ≠ []) (name : String) :
    ".".intercalate (above ++ [name]) = ".".intercalate above ++ "." ++ name := by
  rw [String.intercalate_append_of_ne_nil h (by simp), String.intercalate_singleton]

mutual

/-- The entries of an element are its nodes, if the qualifier is that of the names above. -/
theorem Element.entries_node (parent next : ElementId) {above : List String} (h : above ≠ []) :
    ∀ e : Element, (e.entries parent next (".".intercalate above)).map Entry.node = e.nodes above ∧
      ∀ x ∈ e.entries parent next (".".intercalate above), x.element.key = x.node.key
  | ⟨kind, id, name, documentation, stereotype, owned, attributes, operations⟩ => by
    have hbelow : above ++ [name] ≠ [] := by simp
    obtain ⟨hn, hk⟩ := entriesAll_node next (next + 1) hbelow owned
    rw [intercalate_concat h] at hn hk
    simp only [Element.entries, Element.nodes, intercalate_concat h]
    constructor
    · rw [List.map_cons, ← hn]
      split <;> rfl
    · intro x hx
      rcases List.mem_cons.mp hx with rfl | hx
      · rfl
      · split at hx
        · exact hk x hx
        · cases hx

theorem entriesAll_node (parent next : ElementId) {above : List String} (h : above ≠ []) :
    ∀ es : List Element,
    (entriesAll parent next (".".intercalate above) es).map Entry.node = nodesAll above es ∧
      ∀ x ∈ entriesAll parent next (".".intercalate above) es, x.element.key = x.node.key
  | [] => ⟨rfl, by simp [entriesAll]⟩
  | e :: rest => by
    obtain ⟨hn, hk⟩ := Element.entries_node parent next h e
    obtain ⟨hn', hk'⟩ := entriesAll_node parent (next + e.count) h rest
    simp only [entriesAll, nodesAll]
    rw [List.map_append, hn, hn']
    exact ⟨rfl, fun x hx => (List.mem_append.mp hx).elim (hk x) (hk' x)⟩

end

theorem entries_node (d : Document) : d.entries.map Entry.node = d.nodes ∧
    ∀ x ∈ d.entries, x.element.key = x.node.key := by
  obtain ⟨hn, hk⟩ := entriesAll_node Model.root 1 (List.cons_ne_nil d.name []) d.ownedElements
  rw [String.intercalate_singleton] at hn hk
  rw [Document.entries, Document.nodes, List.map_cons, hn]
  exact ⟨rfl, List.forall_mem_cons.mpr ⟨rfl, hk⟩⟩

theorem entries_id (d : Document) :
    d.entries.map (·.element.id) = List.range d.entries.length := by
  obtain ⟨hb, -, -⟩ := entriesAll_block Model.root 1 d.name (by decide) d.ownedElements
  have hids := hb.ids
  rw [elementsOf, List.map_map, List.length_map] at hids
  rw [Document.entries, List.map_cons, List.length_cons, List.range_eq_range', List.range'_succ]
  exact congrArg (Model.root :: ·) hids

/-- An entry stands at the place that its number says. -/
theorem id_of_getElem? (h : d.entries[i]? = some x) : x.element.id = i := by
  have hi : (d.entries.map (·.element.id))[i]? = some x.element.id := by simp [h]
  rw [entries_id] at hi
  obtain ⟨_, hi⟩ := List.getElem?_eq_some_iff.mp hi
  simpa using hi.symm

theorem answers_iff (h : x ∈ d.entries) :
    x.answers s = true ↔ s = x.node.key ∨ s = x.node.qualified := by
  have hq : x.node.qualified = x.qualified := rfl
  rw [Entry.answers, (entries_node d).2 x h, Bool.or_eq_true, beq_iff_eq, beq_iff_eq, hq]
  exact or_congr eq_comm eq_comm

theorem means_iff : d.Means s i ↔ ∃ x ∈ d.entries, x.answers s = true ∧ x.element.id = i := by
  rw [Document.Means, ← (entries_node d).1]
  constructor
  · rintro ⟨n, hn, hs⟩
    rw [List.getElem?_map] at hn
    obtain ⟨x, hx, rfl⟩ := Option.map_eq_some_iff.mp hn
    have hmem := List.mem_of_getElem? hx
    exact ⟨x, hmem, (answers_iff hmem).mpr hs, id_of_getElem? hx⟩
  · rintro ⟨x, hmem, hs, rfl⟩
    obtain ⟨j, hx⟩ := List.getElem?_of_mem hmem
    refine ⟨x.node, ?_, (answers_iff hmem).mp hs⟩
    rw [id_of_getElem? hx, List.getElem?_map, hx]
    rfl

end Snapshot
end ClassScribe
