import Mathlib.Data.List.Basic
import ClassScribe.Model.Build

/-! # Numbering of registered elements

The elements registered for a list of siblings stand next to each other. Inside such a block every
element comes after its parent, everything between the two lies below the parent, and what a
package owns are the elements that name it as their parent, in order.
-/
namespace ClassScribe

def childIds (i : ElementId) (es : List Element) : List ElementId :=
  (es.filter (·.parent == some i)).map (·.id)

@[simp] theorem childIds_nil (i : ElementId) : childIds i [] = [] := rfl

@[simp] theorem childIds_append (i : ElementId) (es fs : List Element) :
    childIds i (es ++ fs) = childIds i es ++ childIds i fs := by
  simp [childIds]

theorem childIds_eq_nil {i : ElementId} {es : List Element} (h : ∀ e ∈ es, e.parent ≠ some i) :
    childIds i es = [] := by
  simpa [childIds] using h

/-- The elements of siblings below `parent` and of all below them, numbered from `next` on. -/
structure Block (parent next : ElementId) (es : List Element) : Prop where
  ids : es.map (·.id) = List.range' next es.length
  parents : ∀ e ∈ es, ∃ p, e.parent = some p ∧ p < e.id ∧ (p = parent ∨ next ≤ p)
  nested : ∀ e ∈ es, ∀ k ∈ es, ∀ p q, e.parent = some p → k.parent = some q →
    p < k.id → k.id < e.id → p ≤ q
  owned : ∀ e ∈ es, e.kind.owned = childIds e.id es

namespace Block

variable {parent next : ElementId} {es fs : List Element} {e : Element}

theorem id_bounds (h : Block parent next es) (he : e ∈ es) :
    next ≤ e.id ∧ e.id < next + es.length := by
  have hm : e.id ∈ es.map (·.id) := List.mem_map_of_mem he
  rw [h.ids, List.mem_range'_1] at hm
  exact hm

theorem nil (parent next : ElementId) : Block parent next [] where
  ids := rfl
  parents := by simp
  nested := by simp
  owned := by simp

theorem append (hp : parent < next) (h : Block parent next es)
    (h' : Block parent (next + es.length) fs) : Block parent next (es ++ fs) where
  ids := by
    rw [List.map_append, h.ids, h'.ids, List.length_append, ← List.range'_append_1]
  parents := by
    intro e he
    rcases List.mem_append.mp he with he | he
    · exact h.parents e he
    · obtain ⟨p, hep, hlt, hc⟩ := h'.parents e he
      exact ⟨p, hep, hlt, hc.imp id (by lia)⟩
  nested := by
    intro e he k hk p q hep hkq hpk hke
    rcases List.mem_append.mp he with he | he <;> rcases List.mem_append.mp hk with hk | hk
    · exact h.nested e he k hk p q hep hkq hpk hke
    · have := (h.id_bounds he).2
      have := (h'.id_bounds hk).1
      lia
    · -- an element of the first siblings lies between a later one and its parent
      obtain ⟨p', hep', -, hc⟩ := h'.parents e he
      obtain ⟨q', hkq', -, hc'⟩ := h.parents k hk
      obtain rfl : p = p' := by simpa [hep] using hep'
      obtain rfl : q = q' := by simpa [hkq] using hkq'
      have := (h.id_bounds hk).2
      lia
    · exact h'.nested e he k hk p q hep hkq hpk hke
  owned := by
    intro e he
    rw [childIds_append]
    rcases List.mem_append.mp he with he | he
    · have hn : childIds e.id fs = [] := by
        apply childIds_eq_nil
        intro k hk hke
        obtain ⟨p, hkp, -, hc⟩ := h'.parents k hk
        have hpe : p = e.id := Option.some.inj (hkp.symm.trans hke)
        have := h.id_bounds he
        lia
      rw [hn, List.append_nil]
      exact h.owned e he
    · have hn : childIds e.id es = [] := by
        apply childIds_eq_nil
        intro k hk hke
        obtain ⟨p, hkp, hlt, -⟩ := h.parents k hk
        have hpe : p = e.id := Option.some.inj (hkp.symm.trans hke)
        have := (h.id_bounds hk).2
        have := (h'.id_bounds he).1
        lia
      rw [hn, List.nil_append]
      exact h'.owned e he

theorem cons (hp : parent < next) (hid : e.id = next) (hpar : e.parent = some parent)
    (hown : e.kind.owned = childIds next es) (h : Block next (next + 1) es) :
    Block parent next (e :: es) where
  ids := by rw [List.map_cons, h.ids, hid, List.length_cons, List.range'_succ]
  parents := by
    intro k hk
    rcases List.mem_cons.mp hk with rfl | hk
    · exact ⟨parent, hpar, by lia, .inl rfl⟩
    · obtain ⟨p, hkp, hlt, hc⟩ := h.parents k hk
      exact ⟨p, hkp, hlt, .inr (by lia)⟩
  nested := by
    intro x hx k hk p q hxp hkq hpk hkx
    rcases List.mem_cons.mp hx with rfl | hx
    · rcases List.mem_cons.mp hk with rfl | hk
      · lia
      · have := (h.id_bounds hk).1
        lia
    · obtain ⟨p', hxp', -, hc⟩ := h.parents x hx
      obtain rfl : p = p' := by simpa [hxp] using hxp'
      rcases List.mem_cons.mp hk with rfl | hk
      · lia
      · exact h.nested x hx k hk p q hxp hkq hpk hkx
  owned := by
    have hself (i : ElementId) (hi : next ≤ i) : childIds i (e :: es) = childIds i es := by
      have : ¬ e.parent = some i := by
        rw [hpar]
        intro heq
        have := Option.some.inj heq
        lia
      simp [childIds, this]
    intro k hk
    rcases List.mem_cons.mp hk with rfl | hk
    · rw [hself _ (by lia), hown, hid]
    · rw [hself _ (by have := (h.id_bounds hk).1; lia)]
      exact h.owned k hk

end Block

namespace Snapshot

def elementsOf (es : List Entry) : List ClassScribe.Element := es.map (·.element)

theorem owned_resolvedKind (e : Element) (owned : List ElementId) :
    (e.resolvedKind owned).owned = if isPackageKind e.kind then owned else [] := by
  unfold Element.resolvedKind
  split
  · rfl
  · split
    · rfl
    · split <;> rfl

mutual

/-- What is registered for one element is a block that begins with it. -/
theorem Element.entries_block (parent next : ElementId) (qualifier : String)
    (hp : parent < next) : ∀ e : Element,
    Block parent next (elementsOf (e.entries parent next qualifier)) ∧
      (e.entries parent next qualifier).length = e.count ∧
      childIds parent (elementsOf (e.entries parent next qualifier)) = [next]
  | ⟨kind, id, name, documentation, stereotype, owned, attributes, operations⟩ => by
    obtain ⟨hb, hl, hc⟩ :=
      entriesAll_block next (next + 1) (qualifier ++ "." ++ name) (by lia) owned
    by_cases hk : isPackageKind kind = true
    · simp only [Element.entries, hk, ↓reduceIte, elementsOf, List.map_cons, List.length_cons,
        Element.count]
      have hn : childIds parent (elementsOf (entriesAll next (next + 1) (qualifier ++ "." ++ name)
          owned)) = [] := by
        apply childIds_eq_nil
        intro x hx hxp
        obtain ⟨p, hp', -, hc'⟩ := hb.parents x hx
        have : p = parent := Option.some.inj (hp'.symm.trans hxp)
        lia
      refine ⟨hb.cons hp rfl rfl ?_, by rw [hl, Nat.add_comm], ?_⟩
      · simp only [Element.entry, owned_resolvedKind, hk, ↓reduceIte, ← hc]
        rfl
      · simpa [childIds, Element.entry, elementsOf] using hn
    · simp only [Element.entries, hk, Bool.false_eq_true, ↓reduceIte, elementsOf, List.map_cons,
        List.map_nil, List.length_cons, List.length_nil, Element.count]
      refine ⟨(Block.nil next (next + 1)).cons hp rfl rfl ?_, by trivial, ?_⟩
      · simp [Element.entry, owned_resolvedKind, hk]
      · simp [childIds, Element.entry]

theorem entriesAll_block (parent next : ElementId) (qualifier : String) (hp : parent < next) :
    ∀ es : List Element,
    Block parent next (elementsOf (entriesAll parent next qualifier es)) ∧
      (entriesAll parent next qualifier es).length = countAll es ∧
      childIds parent (elementsOf (entriesAll parent next qualifier es)) = siblingIds next es
  | [] => ⟨Block.nil parent next, rfl, rfl⟩
  | e :: rest => by
    obtain ⟨hb, hl, hc⟩ := Element.entries_block parent next qualifier hp e
    obtain ⟨hb', hl', hc'⟩ :=
      entriesAll_block parent (next + e.count) qualifier (by lia) rest
    have hlen : (elementsOf (e.entries parent next qualifier)).length = e.count := by
      rw [elementsOf, List.length_map, hl]
    rw [← hlen] at hb'
    have happ : elementsOf (entriesAll parent next qualifier (e :: rest)) =
        elementsOf (e.entries parent next qualifier) ++
          elementsOf (entriesAll parent (next + e.count) qualifier rest) := by
      simp [entriesAll, elementsOf]
    refine ⟨happ ▸ hb.append hp (hlen ▸ hb'), ?_, ?_⟩
    · rw [entriesAll, List.length_append, hl, hl', countAll]
    · rw [happ, childIds_append, hc, hc']
      rfl

end

end Snapshot
end ClassScribe
