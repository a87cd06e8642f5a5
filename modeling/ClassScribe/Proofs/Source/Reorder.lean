import ClassScribe.Proofs.Model.Arena
import ClassScribe.Proofs.Model.Shuffle
import ClassScribe.Proofs.Source.Renumber

/-! # Siblings in another order

A document whose packages have what they own in another order has a model whenever the first one
has, and that model is the first one renumbered: the numbers go along with the addresses. So the
order of siblings is not seen in any source.
-/
namespace ClassScribe
namespace Snapshot.Document

variable {s : Address → Equiv.Perm Nat} {d d' : Document} {m m' : Model} {r : ElementId → ElementId}
  {a : Address} {i : ElementId} {n : Element} {reference : String}

/-- The numbers go along with the addresses. No number beyond those of one document becomes one of
the other. -/
structure Numbering (s : Address → Equiv.Perm Nat) (d d' : Document) (r : ElementId → ElementId) :
    Prop where
  injective : Function.Injective r
  number : ∀ a n, d.at? a = some n → r (d.number a) = d'.number (moved s a)
  beyond : ∀ i, d.entries.length ≤ i → d'.entries.length ≤ r i

theorem Reordered.exists_numbering (h : Reordered s d d') : ∃ r, Numbering s d d' r := by
  have target (i : ElementId) : ∃ j,
      (∀ a n, d.at? a = some n → d.number a = i → j = d'.number (moved s a)) ∧
        (d.entries.length ≤ i → j = d'.entries.length + i) := by
    by_cases hi : i < d.entries.length
    · obtain ⟨a, n, hn, rfl⟩ := exists_number hi
      refine ⟨d'.number (moved s a), ?_, fun hle => absurd hi (Nat.not_lt.mpr hle)⟩
      intro b x hx hb
      rw [number_inj hx hn hb]
    · refine ⟨d'.entries.length + i, ?_, fun _ => rfl⟩
      rintro a n hn rfl
      exact absurd (number_lt hn) hi
  choose r hnumber hbeyond using target
  have hin {a : Address} {n : Element} (hn : d.at? a = some n) :
      r (d.number a) < d'.entries.length := by
    obtain ⟨n', hn', -⟩ := h.node hn
    rw [hnumber _ a n hn rfl]
    exact number_lt hn'
  refine ⟨r, ?_, fun a n hn => hnumber _ a n hn rfl, ?_⟩
  · intro i j hij
    by_cases hi : i < d.entries.length
    · obtain ⟨a, n, hn, rfl⟩ := exists_number hi
      by_cases hj : j < d.entries.length
      · obtain ⟨b, x, hx, rfl⟩ := exists_number hj
        obtain ⟨n', hn', -⟩ := h.node hn
        obtain ⟨x', hx', -⟩ := h.node hx
        rw [hnumber _ a n hn rfl, hnumber _ b x hx rfl] at hij
        rw [moved_injective s (number_inj hn' hx' hij)]
      · have hlt := hin hn
        have hj := hbeyond j (Nat.not_lt.mp hj)
        lia
    · have hi := hbeyond i (Nat.not_lt.mp hi)
      by_cases hj : j < d.entries.length
      · obtain ⟨b, x, hx, rfl⟩ := exists_number hj
        have hlt := hin hx
        lia
      · have hj := hbeyond j (Nat.not_lt.mp hj)
        lia
  · intro i hi
    rw [hbeyond i hi]
    exact Nat.le_add_right _ _

theorem Reordered.means_iff (h : Reordered s d d') (hr : Numbering s d d' r) :
    d'.Means reference i ↔ ∃ j, d.Means reference j ∧ r j = i := by
  rw [means_iff_names]
  constructor
  · rintro ⟨b, rfl, hb⟩
    obtain ⟨a, rfl⟩ := moved_surjective s b
    have ha := h.names_iff.mp hb
    have ⟨n, hn, _⟩ := ha
    exact ⟨d.number a, means_iff_names.mpr ⟨a, rfl, ha⟩, hr.number a n hn⟩
  · rintro ⟨j, hj, rfl⟩
    obtain ⟨a, rfl, ha⟩ := means_iff_names.mp hj
    have ⟨n, hn, _⟩ := ha
    exact ⟨moved s a, (hr.number a n hn).symm, h.names_iff.mpr ha⟩

theorem Reordered.only (h : Reordered s d d') (hr : Numbering s d d' r)
    (ho : d.Only reference i) : d'.Only reference (r i) := by
  constructor
  · exact (h.means_iff hr).mpr ⟨i, ho.1, rfl⟩
  · intro j hj
    obtain ⟨k, hk, rfl⟩ := (h.means_iff hr).mp hj
    rw [ho.2 k hk]

theorem Reordered.sound (h : Reordered s d d') (hr : Numbering s d d' r) (hs : d.Sound) :
    d'.Sound where
  ids := by
    rw [nodup_explicitIds]
    intro a b n n' x hn hn' hx hx'
    obtain ⟨a, rfl⟩ := moved_surjective s a
    obtain ⟨b, rfl⟩ := moved_surjective s b
    obtain ⟨y, hy, hyn⟩ := h.node_back hn
    obtain ⟨y', hy', hyn'⟩ := h.node_back hn'
    have hid : y.id = n.id := (congrArg Element.id hyn :)
    have hid' : y'.id = n'.id := (congrArg Element.id hyn' :)
    rw [nodup_explicitIds.mp hs.ids a b y y' x hy hy' (hid.trans hx) (hid'.trans hx')]
  references := by
    intro k hk
    rw [references, h.relationships] at hk
    obtain ⟨i, hi⟩ := hs.references k hk
    exact ⟨r i, h.only hr hi⟩

theorem Only.unique {i j : ElementId} (h : d.Only reference i) (h' : d.Only reference j) : i = j :=
  h'.2 i h.1

theorem Reordered.resolves (h : Reordered s d d') (hr : Numbering s d d' r) {x : Relationship}
    {y y' : ClassScribe.Relationship} (hy : d.Resolves x y) (hy' : d'.Resolves x y') :
    y' = y.renumber r := by
  cases hy with
  | generalization hi hj =>
    cases hy' with
    | generalization hi' hj' =>
      rw [hi'.unique (h.only hr hi), hj'.unique (h.only hr hj)]
      rfl
  | realization hi hj =>
    cases hy' with
    | realization hi' hj' =>
      rw [hi'.unique (h.only hr hi), hj'.unique (h.only hr hj)]
      rfl
  | association hi hj =>
    cases hy' with
    | association hi' hj' =>
      rw [hi'.unique (h.only hr hi), hj'.unique (h.only hr hj)]
      rfl

theorem Reordered.resolves_all (h : Reordered s d d') (hr : Numbering s d d' r)
    {xs : List Relationship} {ys ys' : List ClassScribe.Relationship}
    (hy : List.Forall₂ d.Resolves xs ys) (hy' : List.Forall₂ d'.Resolves xs ys') :
    ys' = ys.map (·.renumber r) := by
  induction hy generalizing ys' with
  | nil =>
    cases hy'
    rfl
  | cons hx _ ih =>
    cases hy' with
    | cons hx' hrest =>
      rw [List.map_cons, h.resolves hr hx hx', ih hrest]

theorem element_entryAt (h : d.at? a = some n) : (d.entryAt a n).element =
    { id := d.number a, key := n.id.getD n.name, name := n.name, documentation := n.documentation,
      stereotype := n.stereotype, parent := if a = [] then none else some (d.number a.dropLast),
      kind := n.resolvedKind (siblingIds (d.number a + 1) n.ownedElements) } := by
  cases a with
  | nil =>
    obtain rfl := Option.some.inj h
    rfl
  | cons k a => rfl

theorem unowned_resolvedKind {n n' : Element} (h : n'.unowned = n.unowned) (is js : List ElementId) :
    (n'.resolvedKind is).unowned = (n.resolvedKind js).unowned := by
  have hkind : n'.kind = n.kind := (congrArg Element.kind h :)
  have hmembers : n'.members = n.members := (congrArg Element.members h :)
  rw [Element.resolvedKind, Element.resolvedKind, hkind, hmembers]
  split
  · rfl
  · rfl

/-- The element at an address is the one at the moved address, renumbered. -/
theorem Reordered.element (h : Reordered s d d') (hr : Numbering s d d' r) (hn : d.at? a = some n) :
    ∃ n', d'.at? (moved s a) = some n' ∧ (d'.entryAt (moved s a) n').element.unowned =
      ((d.entryAt a n).element.renumber r).unowned := by
  obtain ⟨n', hn', hsame⟩ := h.node hn
  refine ⟨n', hn', ?_⟩
  have hparent : (if moved s a = [] then none else some (d'.number (moved s a).dropLast)) =
      (if a = [] then none else some (d.number a.dropLast)).map r := by
    cases a using List.reverseRecOn with
    | nil => rfl
    | append_singleton a k =>
      obtain ⟨x, hx, -⟩ := at?_prefix hn
      rw [dropLast_moved, List.dropLast_concat, moved_concat, if_neg (by simp), if_neg (by simp),
        Option.map_some, hr.number a x hx]
  have hid : n'.id = n.id := (congrArg Element.id hsame :)
  have hname : n'.name = n.name := (congrArg Element.name hsame :)
  have hdocumentation : n'.documentation = n.documentation :=
    (congrArg Element.documentation hsame :)
  have hstereotype : n'.stereotype = n.stereotype := (congrArg Element.stereotype hsame :)
  simp only [element_entryAt hn', element_entryAt hn, ClassScribe.Element.unowned, Element.renumber,
    hparent, hid, hname, hdocumentation, hstereotype, hr.number a n hn]
  rw [unowned_resolvedKind hsame _ (siblingIds (d.number a + 1) n.ownedElements)]

end Snapshot.Document

namespace Model
open Snapshot Document

variable {s : Address → Equiv.Perm Nat} {d d' : Document} {m m' : Model} {r : ElementId → ElementId}

theorem sound_of_build (hd : build d = .ok m) : d.Sound := by
  rcases build_cases d with ⟨-, -, hsound, -⟩ | ⟨e, he, -⟩
  · exact hsound
  · cases he.symm.trans hd

theorem build_of_sound (h : d.Sound) : ∃ m, build d = .ok m := by
  rcases build_cases d with ⟨m, hm, -, -⟩ | ⟨e, -, hfault⟩
  · exact ⟨m, hm⟩
  · exact absurd h hfault.not_sound

/-- The model of a reordered document is the model renumbered. -/
theorem renumbers_of_reordered (h : Reordered s d d') (hr : Numbering s d d' r)
    (hd : build d = .ok m) (hd' : build d' = .ok m') : m.Renumbers r m' := by
  have helement (i : ElementId) : (m'.element? (r i)).map Element.unowned =
      (m.element? i).map fun e => (e.renumber r).unowned := by
    by_cases hi : i < d.entries.length
    · obtain ⟨a, n, hn, rfl⟩ := exists_number hi
      obtain ⟨n', hn', hsame⟩ := h.element hr hn
      rw [hr.number a n hn, element?_number hd hn, element?_number hd' hn']
      exact congrArg some hsame
    · have hout : m.element? i = none :=
        Array.getElem?_eq_none_iff.mpr (size_eq hd ▸ Nat.not_lt.mp hi)
      have hout' : m'.element? (r i) = none :=
        Array.getElem?_eq_none_iff.mpr (size_eq hd' ▸ hr.beyond i (Nat.not_lt.mp hi))
      rw [hout, hout']
      rfl
  exact {
    injective := hr.injective
    element := helement
    parent? := by
      intro i
      have hi := helement i
      cases he : m.element? i with
      | none =>
        rw [he] at hi
        rw [Model.parent?, Model.parent?, he, Option.map_eq_none_iff.mp hi]
        rfl
      | some e =>
        rw [he] at hi
        obtain ⟨e', he', hsame⟩ := Option.map_eq_some_iff.mp hi
        rw [parent?_eq hd he, parent?_eq hd' he']
        exact (congrArg Element.parent hsame :)
    relationships := by
      have hbuilt := (built_of_build hd').relationships
      rw [h.relationships] at hbuilt
      exact h.resolves_all hr (built_of_build hd).relationships hbuilt }

/-- The order of siblings is not seen in any source. A model can be built of a shuffled document,
and in whatever way its nodes are matched with those it had, every element has the file it had. -/
theorem build_shuffled (h : d.Shuffled d') (hd : build d = .ok m) : ∃ m', build d' = .ok m' ∧
    (∃ s, Reordered s d d') ∧ ∀ s, Reordered s d d' → ∃ r : ElementId → ElementId,
      (∀ a i, m'.at? (moved s a) = some (r i) ↔ m.at? a = some i) ∧
      ∀ root o i, Source.render? m' (r root) o (r i) = Source.render? m root o i := by
  obtain ⟨s, hs⟩ := h.exists_reordered
  obtain ⟨r, hr⟩ := hs.exists_numbering
  obtain ⟨m', hd'⟩ := build_of_sound (hs.sound hr (sound_of_build hd))
  refine ⟨m', hd', ⟨s, hs⟩, ?_⟩
  intro s hs
  obtain ⟨r, hr⟩ := hs.exists_numbering
  refine ⟨r, ?_, (renumbers_of_reordered hs hr hd hd').render?⟩
  intro a i
  rw [at?_eq_some hd, at?_eq_some hd']
  constructor
  · rintro ⟨n', hn', hi⟩
    obtain ⟨n, hn, -⟩ := hs.node_back hn'
    exact ⟨n, hn, hr.injective ((hr.number a n hn).trans hi)⟩
  · rintro ⟨n, hn, rfl⟩
    obtain ⟨n', hn', -⟩ := hs.node hn
    exact ⟨n', hn', (hr.number a n hn).symm⟩

/-- The package before the class that uses it. -/
def turned : Document := { parts with ownedElements := parts.ownedElements.reverse }

theorem turned_renders : ∃ m m' : Model, build parts = .ok m ∧ build turned = .ok m' ∧
    m.name 1 = "Cart" ∧ m'.name 1 = "Billing" ∧ ∃ r : ElementId → ElementId, r root = root ∧
      ∀ o i, Source.render? m' root o (r i) = Source.render? m root o i := by
  have hshuffled : parts.Shuffled turned :=
    ⟨rfl, .intro rfl (List.forall₂_same.mpr fun x _ => .refl x) (List.reverse_perm _).symm⟩
  obtain ⟨m', hm', ⟨s, hs⟩, hall⟩ := build_shuffled hshuffled rfl
  obtain ⟨r, hat, hrender⟩ := hall s hs
  have hroot : r root = root := (Option.some.inj ((hat [] root).mpr rfl)).symm
  have hname : m'.name 1 = "Billing" := by
    obtain rfl := Except.ok.inj hm'
    rfl
  refine ⟨_, m', rfl, hm', rfl, hname, r, hroot, ?_⟩
  intro o i
  rw [← hrender root o i, hroot]

end Model
end ClassScribe
