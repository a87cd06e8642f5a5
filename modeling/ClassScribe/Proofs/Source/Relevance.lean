import Mathlib.Logic.Relation
import ClassScribe.Proofs.Model.Arena
import ClassScribe.Proofs.Source.Renumber

/-! # Relationships that matter to a file

A file asks the relationships of a model for nothing but what its class shows. Names, constants and
paths, also those of other elements, are made from the elements alone. What a class shows is told by
the relationships by which it inherits or realizes and by the associations at it. All others may
come, go and move without a trace in the file.
-/
namespace ClassScribe

namespace Relationship

variable {i : ElementId} {r : Relationship}

/-- The element inherits or realizes by the relationship, or is at an end of the association. -/
def concerns (r : Relationship) (i : ElementId) : Bool :=
  match r with
  | generalization source _ => source == i
  | realization source _ => source == i
  | association a => a.end1.element == i || a.end2.element == i

/-- The element has no part in the relationship, or it is only inherited from or realized. -/
inductive Unrelated (i : ElementId) : Relationship → Prop
  | apart {r : Relationship} : r.touches i = false → Unrelated i r
  | inherited {source} : source ≠ i → Unrelated i (generalization source i)
  | realized {source} : source ≠ i → Unrelated i (realization source i)

/-- A relationship that an element is not related to comes, goes, or moves past another one. -/
inductive Rearranged (i : ElementId) : List Relationship → List Relationship → Prop
  | insert {r : Relationship} (front back : List Relationship) : Unrelated i r →
      Rearranged i (front ++ back) (front ++ r :: back)
  | remove {r : Relationship} (front back : List Relationship) : Unrelated i r →
      Rearranged i (front ++ r :: back) (front ++ back)
  | later {r : Relationship} (front back : List Relationship) (r' : Relationship) : Unrelated i r →
      Rearranged i (front ++ r :: r' :: back) (front ++ r' :: r :: back)
  | earlier {r : Relationship} (front back : List Relationship) (r' : Relationship) :
      Unrelated i r → Rearranged i (front ++ r' :: r :: back) (front ++ r :: r' :: back)

theorem touches_of_concerns (h : r.concerns i = true) : r.touches i = true := by
  unfold touches
  cases r with
  | generalization source target | realization source target =>
    exact Bool.or_eq_true_iff.mpr (.inl h)
  | association a => exact h

theorem unrelated_iff : Unrelated i r ↔ r.concerns i = false := by
  constructor
  · intro h
    cases h with
    | apart ht =>
      apply Bool.eq_false_iff.mpr
      intro hc
      exact Bool.eq_false_iff.mp ht (touches_of_concerns hc)
    | inherited hs | realized hs => exact beq_eq_false_iff_ne.mpr hs
  · intro h
    cases ht : r.touches i with
    | false => exact .apart ht
    | true =>
      cases r with
      | generalization source target =>
        have hsource : (source == i) = false := h
        obtain rfl : target = i := by simpa [touches, ends, hsource] using ht
        exact .inherited (beq_eq_false_iff_ne.mp h)
      | realization source target =>
        have hsource : (source == i) = false := h
        obtain rfl : target = i := by simpa [touches, ends, hsource] using ht
        exact .realized (beq_eq_false_iff_ne.mp h)
      | association a => exact absurd ht (Bool.eq_false_iff.mp h)

theorem Rearranged.filter_eq {rs rs' : List Relationship} (h : Rearranged i rs rs') :
    rs'.filter (·.concerns i) = rs.filter (·.concerns i) := by
  cases h with
  | insert front back hr | remove front back hr => simp [unrelated_iff.mp hr]
  | later front back r' hr | earlier front back r' hr =>
    simp [List.filter_cons, unrelated_iff.mp hr]

end Relationship

namespace Model
open Relationship

variable {m m' : Model} {i root : ElementId}

/-- The relationships that concern an element, in the order of the snapshot. -/
def concerning (m : Model) (i : ElementId) : List Relationship :=
  m.relationships.filter (·.concerns i)

/-- What is asked of the relationships at an element is asked of those that concern it, if the
others have no answer. -/
theorem filterMap_relationshipsOf {α : Type} {f : Relationship → Option α}
    (hf : ∀ r, r.concerns i = false → r.touches i = true → f r = none) :
    (m.relationshipsOf i).filterMap f = (m.concerning i).filterMap f := by
  unfold relationshipsOf concerning
  rw [List.filterMap_filter, List.filterMap_filter]
  refine List.filterMap_congr fun r _ => ?_
  cases hc : r.concerns i with
  | true => rw [touches_of_concerns hc]
  | false =>
    split
    · rename_i ht
      rw [hf r hc ht]
      rfl
    · rfl

theorem superclasses_concerning (m : Model) (i : ElementId) :
    m.superclasses i = (m.concerning i).filterMap (·.superclassOf? i) := by
  refine filterMap_relationshipsOf fun r hc _ => ?_
  cases r with
  | generalization source target => exact if_neg (beq_eq_false_iff_ne.mp hc)
  | realization source target | association a => rfl

theorem interfaces_concerning (m : Model) (i : ElementId) :
    m.interfaces i = (m.concerning i).filterMap (·.interfaceOf? i) := by
  refine filterMap_relationshipsOf fun r hc _ => ?_
  cases r with
  | realization source target => exact if_neg (beq_eq_false_iff_ne.mp hc)
  | generalization source target | association a => rfl

theorem associations_concerning (m : Model) (i : ElementId) :
    m.associations i = (m.concerning i).filterMap (·.association?) := by
  refine filterMap_relationshipsOf fun r hc ht => ?_
  cases r with
  | association a => exact absurd ht (Bool.eq_false_iff.mp hc)
  | generalization source target | realization source target => rfl

theorem sameTree_of_elements (h : m'.elements = m.elements) : SameTree id m m' where
  injective := Function.injective_id
  element := by
    intro i
    have hsame (e : Element) : e.renumber id = e := by simp [Element.renumber]
    simp only [element?, h, hsame]
    rfl
  parent? := by
    intro i
    rw [Option.map_id_apply, Model.parent?, element?, h]
    rfl

end Model

namespace Source

variable {m m' : Model} {i : ElementId}

theorem classFacts_renumber_id (f : ClassFacts) : f.renumber id = f := by
  simp [ClassFacts.renumber, Held.renumber]

/-- What a class shows is told by the elements and by the relationships that concern it. -/
theorem classFacts_eq (h : m'.elements = m.elements) (hr : m'.concerning i = m.concerning i)
    (root : ElementId) (ms : Members) : ClassFacts.of m' root i ms = ClassFacts.of m root i ms := by
  have ht := Model.sameTree_of_elements h
  have hpath : m'.packagePath? i root = m.packagePath? i root := ht.packagePath? i root
  have hheld : m'.held i = m.held i := by
    unfold Model.held
    rw [Model.associations_concerning, Model.associations_concerning, hr]
    exact List.map_congr_left fun j _ => congrArg (fun n => Held.mk j (Text.stem n)) (ht.name j)
  unfold ClassFacts.of
  rw [hpath, hheld, Model.superclasses_concerning, Model.superclasses_concerning,
    Model.interfaces_concerning, Model.interfaces_concerning, hr]

/-- The file of an element depends on the elements and on the relationships that concern it. -/
theorem render?_concerning (h : m'.elements = m.elements)
    (hr : ∀ e, m.element? i = some e → m'.concerning e.id = m.concerning e.id) (root : ElementId)
    (o : Options) : render? m' root o i = render? m root o i := by
  refine (Model.sameTree_of_elements h).render? root o fun e ms he => ?_
  rw [classFacts_renumber_id]
  exact classFacts_eq h (hr e he) root ms

/-- With the same elements, a class or an interface has the same file for every two lists of
relationships of which those that concern it are the same, in the same order. So it has the same
file however the others are inserted, removed or moved. -/
theorem unrelated_unseen {es : Array Element} {e : Element} {ms : Members} (he : es[i]? = some e)
    (hk : e.kind.members? = some ms) (root : ElementId) (o : Options) :
    (∀ rs rs' : List Relationship,
      rs'.filter (·.concerns e.id) = rs.filter (·.concerns e.id) →
        ∃ f, render? ⟨es, rs⟩ root o i = some f ∧ render? ⟨es, rs'⟩ root o i = some f) ∧
    ∀ rs rs' : List Relationship,
      Relation.ReflTransGen (Relationship.Rearranged e.id) rs rs' →
        ∃ f, render? ⟨es, rs⟩ root o i = some f ∧ render? ⟨es, rs'⟩ root o i = some f := by
  have hsame (rs rs' : List Relationship)
      (hr : rs'.filter (·.concerns e.id) = rs.filter (·.concerns e.id)) :
      ∃ f, render? ⟨es, rs⟩ root o i = some f ∧ render? ⟨es, rs'⟩ root o i = some f := by
    have helements : (Model.mk es rs').elements = (Model.mk es rs).elements := rfl
    obtain ⟨f, hf⟩ := exists_render? (m := ⟨es, rs⟩) he hk root o
    refine ⟨f, hf, (render?_concerning helements ?_ root o).trans hf⟩
    intro e' he'
    obtain rfl := Option.some.inj (he.symm.trans he')
    exact hr
  refine ⟨hsame, fun rs rs' h => hsame rs rs' ?_⟩
  induction h with
  | refl => rfl
  | tail _ hstep ih => exact hstep.filter_eq.trans ih

/-- A cart realizes a tax. It is of no matter to its file that the tax inherits from it, nor what
the tax and a package have to do with each other. -/
theorem cart_unmoved : ∃ f,
    render? ⟨(Model.parts.entries.map (·.element)).toArray, [.realization 1 3]⟩ Model.root {} 1 =
      some f ∧
    render? ⟨(Model.parts.entries.map (·.element)).toArray,
      [.generalization 3 1, .realization 1 3, .association ⟨"", ⟨2, true⟩, ⟨3, true⟩⟩]⟩
      Model.root {} 1 = some f ∧
    render? ⟨(Model.parts.entries.map (·.element)).toArray, [.realization 1 3, .generalization 3 1]⟩
      Model.root {} 1 = some f := by
  have hcart : (Model.parts.entries.map (·.element)).toArray[1]? = some _ := rfl
  obtain ⟨hsame, hmoved⟩ := unrelated_unseen hcart rfl Model.root {}
  obtain ⟨f, hf, hf'⟩ := hsame [.realization 1 3]
    [.generalization 3 1, .realization 1 3, .association ⟨"", ⟨2, true⟩, ⟨3, true⟩⟩] rfl
  obtain ⟨g, hg, hg'⟩ := hmoved [.realization 1 3] [.realization 1 3, .generalization 3 1]
    (.single (.insert [.realization 1 3] [] (.inherited (by decide))))
  obtain rfl := Option.some.inj (hf.symm.trans hg)
  exact ⟨f, hf, hf', hg'⟩

end Source
end ClassScribe
