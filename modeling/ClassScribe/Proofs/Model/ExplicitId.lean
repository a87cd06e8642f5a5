import ClassScribe.Proofs.Model.Reference

/-! # References to explicit ids

Explicit ids, names and qualified names are keys of one kind. An explicit id always means the node
it is given to, and never one that is known by another id. It can also be the name of a node without
an id, or the qualified name of any node, and giving out more ids does not help against the latter.
Such a reference is ambiguous; any other is resolved.
-/
namespace ClassScribe

/-- The elements at the ends of the relationships, the first end first. -/
def Model.ends (m : Model) : List ElementId := m.relationships.flatMap fun r => [r.ends.1, r.ends.2]

namespace Snapshot.Document

/-- A node other than number `i` has the text for its qualified name, or for its name where it has
no id. -/
def Shadowed (d : Document) (s : String) (i : ElementId) : Prop :=
  ∃ j n, d.nodes[j]? = some n ∧ j ≠ i ∧ (s = n.qualified ∨ n.id? = none ∧ s = n.name)

variable {d : Document} {s x : String} {i j : ElementId} {n n' : Node} {m : Model}

theorem eq_of_explicitId (h : (explicitIds d.nodes).Nodup) (hi : d.nodes[i]? = some n)
    (hj : d.nodes[j]? = some n') (hn : n.id? = some x) (hn' : n'.id? = some x) : i = j := by
  rw [explicitIds, List.Nodup, List.pairwise_filterMap, List.pairwise_iff_getElem] at h
  obtain ⟨hil, rfl⟩ := List.getElem?_eq_some_iff.mp hi
  obtain ⟨hjl, rfl⟩ := List.getElem?_eq_some_iff.mp hj
  rcases Nat.lt_trichotomy i j with hlt | heq | hlt
  · exact absurd rfl (h i j hil hjl hlt x hn x hn')
  · exact heq
  · exact absurd rfl (h j i hjl hil hlt x hn' x hn)

theorem means_of_explicitId (hi : d.nodes[i]? = some n) (hn : n.id? = some s) : d.Means s i :=
  ⟨n, hi, .inl (by rw [Node.key, hn, Option.getD_some])⟩

theorem means_of_shadow (hj : d.nodes[j]? = some n)
    (hs : s = n.qualified ∨ n.id? = none ∧ s = n.name) : d.Means s j := by
  refine ⟨n, hj, ?_⟩
  rcases hs with hs | ⟨hid, hs⟩
  · exact .inr hs
  · exact .inl (by rw [Node.key, hid, Option.getD_none, hs])

/-- An explicit id means its own node and those that shadow it. -/
theorem only_explicitId_iff (h : (explicitIds d.nodes).Nodup) (hi : d.nodes[i]? = some n)
    (hn : n.id? = some s) : d.Only s i ↔ ¬ d.Shadowed s i := by
  constructor
  · rintro ⟨-, honly⟩ ⟨j, n', hj, hne, hs⟩
    exact hne (honly j (means_of_shadow hj hs))
  · intro hshadow
    refine ⟨means_of_explicitId hi hn, fun j hj => ?_⟩
    obtain ⟨n', hj, hs⟩ := hj
    by_contra hne
    refine hshadow ⟨j, n', hj, hne, ?_⟩
    rcases hs with hs | hs
    · rw [Node.key] at hs
      cases hid : n'.id? with
      | none =>
        rw [hid, Option.getD_none] at hs
        exact .inr ⟨rfl, hs⟩
      | some x =>
        rw [hid, Option.getD_some] at hs
        exact absurd (eq_of_explicitId h hi hj hn (hid.trans (congrArg some hs.symm))).symm hne
    · exact .inl hs

theorem Resolves.ends {r : Relationship} {r' : ClassScribe.Relationship} (h : d.Resolves r r') :
    List.Forall₂ (fun x i => d.Only x.2 i) r.references [r'.ends.1, r'.ends.2] := by
  cases h with
  | generalization hi hj | realization hi hj | association hi hj => exact .cons hi (.cons hj .nil)

theorem Built.ends (h : d.Built m) :
    List.Forall₂ (fun x i => d.Only x.2 i) d.references m.ends := by
  have hall {rs : List Relationship} {rs' : List ClassScribe.Relationship}
      (hrs : List.Forall₂ d.Resolves rs rs') : List.Forall₂ (fun x i => d.Only x.2 i)
        (rs.flatMap Relationship.references) (rs'.flatMap fun r => [r.ends.1, r.ends.2]) := by
    induction hrs with
    | nil => exact .nil
    | cons hr _ ih =>
      rw [List.flatMap_cons, List.flatMap_cons]
      exact List.rel_append hr.ends ih
  exact hall h.relationships

end Snapshot.Document

namespace Model
open Snapshot

variable {d : Document} {s : String} {i : ElementId} {n : Node}

theorem resolve_explicitId (h : (explicitIds d.nodes).Nodup) (hi : d.nodes[i]? = some n)
    (hn : n.id? = some s) (k : RelationshipKind) :
    (¬ d.Shadowed s i → resolve d.entries k s = .ok i) ∧
      (d.Shadowed s i → resolve d.entries k s = .error (.ambiguousReference k s)) := by
  have honly := Document.only_explicitId_iff h hi hn
  have hmeans := Document.means_of_explicitId hi hn
  rcases resolve_cases d k s with ⟨j, hj, hjs⟩ | ⟨e, he, hmiss⟩
  · obtain rfl : i = j := hjs.2 i hmeans
    exact ⟨fun _ => hj, fun hs => absurd hs (honly.mp hjs)⟩
  · refine ⟨fun hs => absurd ?_ (hmiss.not_clear (List.mem_singleton_self (k, s))), fun _ => ?_⟩
    · exact List.forall_mem_singleton.mpr ⟨i, honly.mpr hs⟩
    · cases hmiss with
      | unknown hnone => exact absurd hmeans (hnone i)
      | ambiguous => exact he

/-- With all explicit ids different, a reference to one of them is resolved to its node exactly if
no other node shadows it, and is ambiguous otherwise, even if all nodes have explicit ids. In a
model it is the node with the id wherever it stands; no model is built of a document with a shadowed
one, which is the fault that is told if all references before it are clear. -/
theorem explicitId_resolves (h : (explicitIds d.nodes).Nodup) (hi : d.nodes[i]? = some n)
    (hn : n.id? = some s) :
    (∀ k, (resolve d.entries k s = .ok i ↔ ¬ d.Shadowed s i) ∧
      (resolve d.entries k s = .error (.ambiguousReference k s) ↔ d.Shadowed s i)) ∧
    (∀ m, build d = .ok m → List.Forall₂ (fun r j => r.2 = s → j = i) d.references m.ends) ∧
    ∀ before k after, d.references = before ++ (k, s) :: after → d.Shadowed s i →
      ∃ e, build d = .error e ∧ (d.Clear before → e = .ambiguousReference k s) := by
  have hmeans := Document.means_of_explicitId hi hn
  refine ⟨fun k => ?_, fun m hm => ?_, fun before k after hrefs hs => ?_⟩
  · obtain ⟨hclear, hshadowed⟩ := resolve_explicitId h hi hn k
    constructor
    · refine ⟨fun hok hs => ?_, hclear⟩
      cases hok.symm.trans (hshadowed hs)
    · refine ⟨fun herror => ?_, hshadowed⟩
      by_contra hs
      cases herror.symm.trans (hclear hs)
  · rcases build_cases d with ⟨m', hm', -, hbuilt⟩ | ⟨e, he, -⟩
    · obtain rfl : m' = m := Except.ok.inj (hm'.symm.trans hm)
      refine hbuilt.ends.imp ?_
      rintro r j ⟨-, honly⟩ rfl
      exact (honly i hmeans).symm
    · cases he.symm.trans hm
  · have hnot : ¬ ∃ j, d.Only s j := by
      rintro ⟨j, hj⟩
      obtain rfl : i = j := hj.2 i hmeans
      exact (Document.only_explicitId_iff h hi hn).mp hj hs
    have hmem : (k, s) ∈ d.references := by simp [hrefs]
    rcases build_cases d with ⟨m, -, hsound, -⟩ | ⟨e, he, hfault⟩
    · exact absurd (hsound.references (k, s) hmem) hnot
    · refine ⟨e, he, fun hb => hfault.unique (.reference h ⟨before, k, s, after, hrefs, hb, ?_⟩)⟩
      obtain ⟨j, n', hj, hne, hs⟩ := hs
      exact .ambiguous hmeans (Document.means_of_shadow hj hs) hne.symm

/-- Every element has an id, and that of the second class is the qualified name of the first. -/
def articles : Document where
  id := some "shop"
  name := "Shop"
  ownedElements := [
    { kind := "class", id := some "item", name := "Item" },
    { kind := "class", id := some "Shop.Item", name := "Article" }]
  relationships := [.generalization "Shop.Item" "item"]

theorem articles_resolve : (explicitIds articles.nodes).Nodup ∧
    resolve articles.entries .generalization "item" = .ok 1 ∧
    resolve articles.entries .generalization "Shop.Item" =
      .error (.ambiguousReference .generalization "Shop.Item") ∧
    build articles = .error (.ambiguousReference .generalization "Shop.Item") := by
  have hids : (explicitIds articles.nodes).Nodup := by decide
  have hclear : ¬ articles.Shadowed "item" 1 := by
    rintro ⟨j, n, hj, hne, hs⟩
    match j, hj, hs with
    | 0, rfl, hs => exact absurd hs (by decide)
    | 1, _, _ => exact hne rfl
    | 2, rfl, hs => exact absurd hs (by decide)
  have hshadow : articles.Shadowed "Shop.Item" 2 :=
    ⟨1, ⟨some "item", "Item", "Shop.Item"⟩, rfl, by decide, .inl rfl⟩
  obtain ⟨hitem, -⟩ := explicitId_resolves hids (i := 1) rfl rfl
  obtain ⟨harticle, -, hbuild⟩ := explicitId_resolves hids (i := 2) rfl rfl
  obtain ⟨e, he, hfirst⟩ := hbuild [] .generalization _ rfl hshadow
  obtain rfl := hfirst nofun
  exact ⟨hids, (hitem _).1.mpr hclear, (harticle _).2.mpr hshadow, he⟩

/-- An explicit id can be ambiguous although all ids are different and no element lacks one. -/
theorem explicitId_ambiguous : (explicitIds articles.nodes).Nodup ∧
    (∀ n ∈ articles.nodes, n.id?.isSome = true) ∧
    articles.nodes[2]? = some ⟨some "Shop.Item", "Article", "Shop.Article"⟩ ∧
    (.generalization, "Shop.Item") ∈ articles.references ∧
    build articles = .error (.ambiguousReference .generalization "Shop.Item") :=
  ⟨by decide, by decide, rfl, by decide, rfl⟩

end Model
end ClassScribe
