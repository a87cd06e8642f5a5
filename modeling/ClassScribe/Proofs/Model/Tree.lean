import Mathlib.Data.List.Sort
import ClassScribe.Proofs.Model.Block

/-! # The tree of a model

In a built model the numbers of the elements list the tree of packages in preorder. The properties
that say so are local: they speak of one element and its parent. That a subtree is a run of
consecutive numbers follows from them.
-/
namespace ClassScribe
namespace Model

/-- Elements are numbered by their places, parents come first, nothing stands between an element
and its parent that is not below that parent, and packages own their children in order. -/
structure IsTree (m : Model) : Prop where
  id_eq : ∀ i e, m.element? i = some e → e.id = i
  root_parent : m.parent? root = none
  has_parent : ∀ i, i < m.elements.size → i ≠ root → ∃ p, m.parent? i = some p
  nested : ∀ i k p, m.parent? i = some p → p < k → k < i → ∃ q, m.parent? k = some q ∧ p ≤ q
  children_eq : ∀ i, m.children i = m.ids.filter fun c => m.parent? c == some i

theorem uniqueEntries_fst {seen : List String} {es : List Entry}
    (h : (uniqueEntries seen es).2 = none) : (uniqueEntries seen es).1 = es := by
  induction es generalizing seen with
  | nil => rfl
  | cons e es ih =>
    unfold uniqueEntries at h ⊢
    cases he : e.explicitId with
    | none =>
      simp only [he] at h ⊢
      rw [ih h]
    | some id =>
      simp only [he] at h ⊢
      split at h
      · simp at h
      · rename_i hs
        simp only [hs, Bool.false_eq_true, ↓reduceIte]
        rw [ih h]

theorem build_elements {d : Snapshot.Document} {m : Model} (h : build d = .ok m) :
    m.elements.toList = d.entries.map (·.element) := by
  unfold build at h
  split at h
  · simp at h
  · rename_i es hu
    have he : es = d.entries := by
      have hnone : (uniqueEntries [] d.entries).2 = none := by rw [hu]
      rw [← uniqueEntries_fst hnone, hu]
    cases hr : d.relationships.mapM (resolveRelationship es) with
    | error e => simp [hr, bind, Except.bind] at h
    | ok rs =>
      simp only [hr, bind, Except.bind, pure, Except.pure, Except.ok.injEq] at h
      rw [← h, he]

theorem build_block {d : Snapshot.Document} {m : Model} (h : build d = .ok m) :
    ∃ es, m.elements.toList = d.rootEntry.element :: es ∧ Block root 1 es ∧
      childIds root es = d.rootEntry.element.kind.owned := by
  obtain ⟨hb, -, hc⟩ :=
    Snapshot.entriesAll_block root 1 d.name (by decide) d.ownedElements
  exact ⟨_, build_elements h, hb, hc⟩

theorem element?_eq (m : Model) (i : ElementId) : m.element? i = m.elements.toList[i]? := by
  simp [element?]

section Block

variable {m : Model} {e₀ e : Element} {es : List Element} {i : ElementId}

theorem element?_of_block (hm : m.elements.toList = e₀ :: es) (hb : Block root 1 es)
    (he : e ∈ es) : m.element? e.id = some e := by
  obtain ⟨k, hk⟩ := List.getElem?_of_mem he
  have hid : (es.map (·.id))[k]? = some e.id := by simp [hk]
  rw [hb.ids] at hid
  obtain ⟨_, hv⟩ := List.getElem?_eq_some_iff.mp hid
  rw [List.getElem_range'] at hv
  have hv : e.id = k + 1 := by lia
  rw [element?_eq, hm, hv, List.getElem?_cons_succ, hk]

theorem mem_of_element? (hm : m.elements.toList = e₀ :: es) (hb : Block root 1 es)
    (hi : i ≠ root) (he : m.element? i = some e) : e ∈ es ∧ e.id = i := by
  rw [element?_eq, hm] at he
  cases i with
  | zero => exact absurd rfl hi
  | succ i =>
    rw [List.getElem?_cons_succ] at he
    have hid : (es.map (·.id))[i]? = some e.id := by simp [he]
    rw [hb.ids] at hid
    obtain ⟨_, hv⟩ := List.getElem?_eq_some_iff.mp hid
    rw [List.getElem_range'] at hv
    exact ⟨List.mem_of_getElem? he, by lia⟩

theorem parent?_of_block (hm : m.elements.toList = e₀ :: es) (hb : Block root 1 es)
    (he : e ∈ es) : m.parent? e.id = e.parent := by
  obtain ⟨p, hp, hlt, -⟩ := hb.parents e he
  have hlt : decide (p < e.id) = true := decide_eq_true hlt
  simp [parent?, element?_of_block hm hb he, hp, Option.filter, hlt]

theorem ids_of_block (hm : m.elements.toList = e₀ :: es) (hb : Block root 1 es) :
    m.ids = root :: es.map (·.id) := by
  have hsize : m.elements.size = es.length + 1 := by
    rw [← Array.length_toList, hm, List.length_cons]
  rw [ids, hsize, hb.ids, List.range_eq_range', List.range'_succ]
  rfl

theorem childIds_of_block (hm : m.elements.toList = e₀ :: es) (hb : Block root 1 es)
    (hr : m.parent? root = none) (i : ElementId) :
    childIds i es = m.ids.filter fun c => m.parent? c == some i := by
  rw [ids_of_block hm hb, List.filter_cons_of_neg (by simp [hr]), List.filter_map]
  unfold childIds
  congr 1
  apply List.filter_congr
  intro e he
  simp [parent?_of_block hm hb he]

end Block

theorem build_isTree {d : Snapshot.Document} {m : Model} (h : build d = .ok m) : m.IsTree := by
  obtain ⟨es, hm, hb, hc⟩ := build_block h
  have hroot : m.element? root = some d.rootEntry.element := by rw [element?_eq, hm]; rfl
  have hr : m.parent? root = none := by simp [parent?, hroot, Snapshot.Document.rootEntry]
  have known {i : ElementId} (hi : i < m.elements.size) : ∃ e, m.element? i = some e :=
    ⟨m.elements[i], by simp [element?, hi]⟩
  have below {i p : ElementId} (hp : m.parent? i = some p) :
      ∃ e ∈ es, e.id = i ∧ e.parent = some p := by
    have hi : i ≠ root := by
      rintro rfl
      simp [hr] at hp
    cases he : m.element? i with
    | none => simp [parent?, he] at hp
    | some e =>
      obtain ⟨hes, hid⟩ := mem_of_element? hm hb hi he
      refine ⟨e, hes, hid, ?_⟩
      rw [← parent?_of_block hm hb hes, hid, hp]
  exact {
    id_eq := by
      intro i e he
      by_cases hi : i = root
      · subst hi
        obtain rfl : d.rootEntry.element = e := by simpa [hroot] using he
        rfl
      · exact (mem_of_element? hm hb hi he).2
    root_parent := hr
    has_parent := by
      intro i hi hne
      obtain ⟨e, he⟩ := known hi
      obtain ⟨hes, hid⟩ := mem_of_element? hm hb hne he
      obtain ⟨p, hp, -⟩ := hb.parents e hes
      exact ⟨p, by rw [← hid, parent?_of_block hm hb hes, hp]⟩
    nested := by
      intro i k p hp hpk hki
      obtain ⟨e, hes, rfl, hep⟩ := below hp
      have hk : k < m.elements.size := by
        have hsize : m.elements.size = es.length + 1 := by
          rw [← Array.length_toList, hm, List.length_cons]
        have := (hb.id_bounds hes).2
        lia
      obtain ⟨x, hx⟩ := known hk
      have hne : k ≠ root := by
        rintro rfl
        exact Nat.not_lt_zero p hpk
      obtain ⟨hxs, rfl⟩ := mem_of_element? hm hb hne hx
      obtain ⟨q, hq, -⟩ := hb.parents x hxs
      exact ⟨q, by rw [parent?_of_block hm hb hxs, hq],
        hb.nested e hes x hxs p q hep hq hpk hki⟩
    children_eq := by
      intro i
      rw [← childIds_of_block hm hb hr]
      by_cases hi : i = root
      · subst hi
        rw [children, hroot, hc]
        rfl
      · cases he : m.element? i with
        | none =>
          have hn : childIds i es = [] := by
            apply childIds_eq_nil
            intro e hes hei
            have hlt : i < e.id := parent?_lt (by rw [parent?_of_block hm hb hes, hei])
            have hid := element?_of_block hm hb hes
            simp only [element?, Array.getElem?_eq_none_iff] at he
            simp only [element?, Array.getElem?_eq_some_iff] at hid
            obtain ⟨hid, -⟩ := hid
            lia
          rw [children, he, hn]
          rfl
        | some e =>
          obtain ⟨hes, hid⟩ := mem_of_element? hm hb hi he
          rw [children, he, Option.elim_some, hb.owned e hes, hid] }

end Model
end ClassScribe
