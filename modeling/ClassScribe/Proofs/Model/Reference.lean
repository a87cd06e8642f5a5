import ClassScribe.Proofs.Model.Nodes

/-! # Resolving references

Building a model succeeds exactly when no explicit id is given twice and every reference means one
node. Otherwise it tells the first fault: a repeated id before any reference, and of the references
the first that means no node or several.
-/
namespace ClassScribe
namespace Snapshot

def explicitIds (ns : List Node) : List String := ns.filterMap (·.id?)

/-- The references of a relationship, the first end first. -/
def Relationship.references : Relationship → List (RelationshipKind × String)
  | .generalization source target => [(.generalization, source), (.generalization, target)]
  | .realization source target => [(.realization, source), (.realization, target)]
  | .association _ end1 end2 => [(.association, end1.reference), (.association, end2.reference)]

namespace Document

variable (d : Document)

def references : List (RelationshipKind × String) := d.relationships.flatMap Relationship.references

/-- All references mean one node each. -/
def Clear (rs : List (RelationshipKind × String)) : Prop := ∀ r ∈ rs, ∃ i, d.Only r.2 i

/-- What it takes to build a model. -/
structure Sound : Prop where
  ids : (explicitIds d.nodes).Nodup
  references : d.Clear d.references

/-- A reference does not mean one node, and the error for it. -/
inductive Misses : RelationshipKind → String → BuildError → Prop
  | unknown {k s} : (∀ i, ¬ d.Means s i) → Misses k s (.unknownReference k s)
  | ambiguous {k s i j} : d.Means s i → d.Means s j → i ≠ j → Misses k s (.ambiguousReference k s)

/-- One of the references misses, and none before it. -/
def FirstMiss (rs : List (RelationshipKind × String)) (e : BuildError) : Prop :=
  ∃ before k s after, rs = before ++ (k, s) :: after ∧ d.Clear before ∧ d.Misses k s e

/-- The fault of a document that is told before any other. -/
inductive Faulty : BuildError → Prop
  | duplicate {before n after x} : d.nodes = before ++ n :: after → (explicitIds before).Nodup →
      n.id? = some x → x ∈ explicitIds before → Faulty (.duplicateId x)
  | reference {e} : (explicitIds d.nodes).Nodup → d.FirstMiss d.references e → Faulty e

inductive Resolves : Relationship → ClassScribe.Relationship → Prop
  | generalization {s t i j} : d.Only s i → d.Only t j →
      Resolves (.generalization s t) (.generalization i j)
  | realization {s t i j} : d.Only s i → d.Only t j → Resolves (.realization s t) (.realization i j)
  | association {name end1 end2 i j} : d.Only end1.reference i → d.Only end2.reference j →
      Resolves (.association name end1 end2)
        (.association ⟨name, ⟨i, end1.navigable⟩, ⟨j, end2.navigable⟩⟩)

/-- The elements of a model are the nodes of a document, and its relationships are resolved. -/
structure Built (m : Model) : Prop where
  size : m.elements.size = d.nodes.length
  element : ∀ i e, m.element? i = some e →
    ∃ n, d.nodes[i]? = some n ∧ e.id = i ∧ e.name = n.name ∧ e.key = n.key
  relationships : List.Forall₂ d.Resolves d.relationships m.relationships

end Document

variable {d : Document} {s : String} {k : RelationshipKind} {e e' : BuildError} {x : String}
  {rs others : List (RelationshipKind × String)}

/-- There is only one place where a list ceases to be good. -/
theorem first_unique {α : Type} (good : List α → Prop) (hgood : ∀ xs ys, good (xs ++ ys) → good xs)
    {before after before' after' : List α} {x x' : α}
    (h : before ++ x :: after = before' ++ x' :: after') (hb : good before)
    (hx : ¬ good (before ++ [x])) (hb' : good before') (hx' : ¬ good (before' ++ [x'])) :
    before = before' ∧ x = x' := by
  rcases List.append_eq_append_iff.mp h with ⟨between, rfl, hz⟩ | ⟨between, rfl, hz⟩
  · cases between with
    | nil => exact ⟨(List.append_nil before).symm, (List.cons.inj hz).1⟩
    | cons y between =>
      obtain ⟨rfl, -⟩ := List.cons.inj hz
      exact absurd (hgood (before ++ [x]) between (by simpa using hb')) hx
  · cases between with
    | nil => exact ⟨List.append_nil before', (List.cons.inj hz).1.symm⟩
    | cons y between =>
      obtain ⟨rfl, -⟩ := List.cons.inj hz
      exact absurd (hgood (before' ++ [x']) between (by simpa using hb)) hx'

theorem nodup_front (xs ys : List Node) (h : (explicitIds (xs ++ ys)).Nodup) :
    (explicitIds xs).Nodup := by
  rw [explicitIds, List.filterMap_append] at h
  exact (List.nodup_append.mp h).1

theorem not_nodup_of_repeated {before : List Node} {n : Node} (hn : n.id? = some x)
    (hx : x ∈ explicitIds before) : ¬ (explicitIds (before ++ [n])).Nodup := by
  have hsplit : explicitIds (before ++ [n]) = explicitIds before ++ [x] := by
    simp [explicitIds, hn]
  rw [hsplit]
  intro h
  exact (List.nodup_append.mp h).2.2 x hx x List.mem_cons_self rfl

theorem not_nodup_of_split {ns before after : List Node} {n : Node} (h : ns = before ++ n :: after)
    (hn : n.id? = some x) (hx : x ∈ explicitIds before) : ¬ (explicitIds ns).Nodup := by
  rw [h, List.append_cons]
  exact fun hids => not_nodup_of_repeated hn hx (nodup_front _ _ hids)

namespace Document

theorem Clear.front (xs ys : List (RelationshipKind × String)) (h : d.Clear (xs ++ ys)) :
    d.Clear xs :=
  fun r hr => h r (List.mem_append_left _ hr)

theorem Clear.append {xs ys : List (RelationshipKind × String)} (hx : d.Clear xs)
    (hy : d.Clear ys) : d.Clear (xs ++ ys) :=
  fun r hr => (List.mem_append.mp hr).elim (hx r) (hy r)

theorem Misses.not_clear (h : d.Misses k s e) (hrs : (k, s) ∈ rs) : ¬ d.Clear rs := by
  intro hc
  obtain ⟨i, hi, hall⟩ := hc (k, s) hrs
  cases h with
  | unknown hn => exact hn i hi
  | ambiguous ha hb hne => exact hne ((hall _ ha).trans (hall _ hb).symm)

theorem Misses.unique (h : d.Misses k s e) (h' : d.Misses k s e') : e = e' := by
  cases h with
  | unknown hn =>
    cases h' with
    | unknown => rfl
    | ambiguous ha => exact absurd ha (hn _)
  | ambiguous ha =>
    cases h' with
    | unknown hn => exact absurd ha (hn _)
    | ambiguous => rfl

theorem FirstMiss.unique (h : d.FirstMiss rs e) (h' : d.FirstMiss rs e') : e = e' := by
  obtain ⟨before, k, s, after, hrs, hb, hm⟩ := h
  obtain ⟨before', k', s', after', hrs', hb', hm'⟩ := h'
  obtain ⟨-, hks⟩ := first_unique d.Clear Clear.front (hrs.symm.trans hrs') hb
    (hm.not_clear (by simp)) hb' (hm'.not_clear (by simp))
  obtain ⟨rfl, rfl⟩ := Prod.mk.inj hks
  exact hm.unique hm'

theorem FirstMiss.not_clear (h : d.FirstMiss rs e) : ¬ d.Clear rs := by
  obtain ⟨before, k, s, after, rfl, -, hm⟩ := h
  exact hm.not_clear (by simp)

theorem FirstMiss.append (h : d.FirstMiss rs e) (others : List (RelationshipKind × String)) :
    d.FirstMiss (rs ++ others) e := by
  obtain ⟨before, k, s, after, rfl, hb, hm⟩ := h
  exact ⟨before, k, s, after ++ others, by simp, hb, hm⟩

theorem FirstMiss.after (h : d.FirstMiss rs e) (hc : d.Clear others) :
    d.FirstMiss (others ++ rs) e := by
  obtain ⟨before, k, s, after, rfl, hb, hm⟩ := h
  exact ⟨others ++ before, k, s, after, by simp, hc.append hb, hm⟩

theorem Faulty.not_sound (h : d.Faulty e) : ¬ d.Sound := by
  intro hs
  cases h with
  | duplicate hd _ hn hx => exact not_nodup_of_split hd hn hx hs.ids
  | reference _ hm => exact hm.not_clear hs.references

theorem Faulty.unique (h : d.Faulty e) (h' : d.Faulty e') : e = e' := by
  cases h with
  | duplicate hd hb hn hx =>
    cases h' with
    | duplicate hd' hb' hn' hx' =>
      obtain ⟨-, rfl⟩ := first_unique (fun ns => (explicitIds ns).Nodup) nodup_front
        (hd.symm.trans hd') hb (not_nodup_of_repeated hn hx) hb' (not_nodup_of_repeated hn' hx')
      rw [Option.some.inj (hn.symm.trans hn')]
    | reference hids _ => exact absurd hids (not_nodup_of_split hd hn hx)
  | reference hids hm =>
    cases h' with
    | duplicate hd' _ hn' hx' => exact absurd hids (not_nodup_of_split hd' hn' hx')
    | reference _ hm' => exact hm.unique hm'

theorem Resolves.clear {r : Relationship} {r' : ClassScribe.Relationship} (h : d.Resolves r r') :
    d.Clear r.references := by
  cases h with
  | generalization hi hj | realization hi hj | association hi hj =>
    exact List.forall_mem_cons.mpr ⟨⟨_, hi⟩, List.forall_mem_singleton.mpr ⟨_, hj⟩⟩

theorem clear_of_resolved {rs : List Relationship} {rs' : List ClassScribe.Relationship}
    (h : List.Forall₂ d.Resolves rs rs') : d.Clear (rs.flatMap Relationship.references) := by
  induction h with
  | nil => exact fun r hr => absurd hr List.not_mem_nil
  | cons hr _ ih => exact hr.clear.append ih

end Document
end Snapshot

namespace Model
open Snapshot

variable {d : Document}

theorem resolve_cases (d : Document) (k : RelationshipKind) (s : String) :
    (∃ i, resolve d.entries k s = .ok i ∧ d.Only s i) ∨
      ∃ e, resolve d.entries k s = .error e ∧ d.Misses k s e := by
  have hmeans (i : ElementId) :
      d.Means s i ↔ i ∈ (d.entries.filter (·.answers s)).map (·.element.id) := by
    simp [means_iff, and_assoc]
  have hnodup : ((d.entries.filter (·.answers s)).map (·.element.id)).Nodup := by
    have hall : (d.entries.map (·.element.id)).Nodup := entries_id d ▸ List.nodup_range
    exact hall.sublist (List.filter_sublist.map _)
  unfold resolve
  cases hhits : d.entries.filter (·.answers s) with
  | nil =>
    rw [hhits] at hmeans
    exact .inr ⟨_, rfl, .unknown fun i hi => by simpa using (hmeans i).mp hi⟩
  | cons x rest =>
    rw [hhits] at hmeans hnodup
    cases rest with
    | nil => exact .inl ⟨_, rfl, by simp [hmeans], fun j hj => by simpa using (hmeans j).mp hj⟩
    | cons y rest =>
      have hx : d.Means s x.element.id := (hmeans _).mpr (by simp)
      have hy : d.Means s y.element.id := (hmeans _).mpr (by simp)
      refine .inr ⟨_, rfl, .ambiguous hx hy fun he => ?_⟩
      simp [he] at hnodup

/-- The two references of a relationship are resolved one after the other. -/
theorem resolveBoth_cases (d : Document) (k : RelationshipKind) (s t : String)
    (f : ElementId → ElementId → Relationship) {x : Except BuildError Relationship}
    (hx : x = (resolve d.entries k s).bind fun i => (resolve d.entries k t).bind fun j =>
      .ok (f i j)) :
    (∃ i j, x = .ok (f i j) ∧ d.Only s i ∧ d.Only t j) ∨
      ∃ e, x = .error e ∧ d.FirstMiss [(k, s), (k, t)] e := by
  rcases resolve_cases d k s with ⟨i, hi, his⟩ | ⟨e, he, hm⟩
  · rw [hi] at hx
    rcases resolve_cases d k t with ⟨j, hj, hjt⟩ | ⟨e, he, hm⟩
    · rw [hj] at hx
      exact .inl ⟨i, j, hx, his, hjt⟩
    · rw [he] at hx
      exact .inr ⟨e, hx, [(k, s)], k, t, [], rfl, List.forall_mem_singleton.mpr ⟨i, his⟩, hm⟩
  · rw [he] at hx
    exact .inr ⟨e, hx, [], k, s, [(k, t)], rfl, fun r hr => absurd hr List.not_mem_nil, hm⟩

theorem resolveRelationship_cases (d : Document) (r : Snapshot.Relationship) :
    (∃ r', resolveRelationship d.entries r = .ok r' ∧ d.Resolves r r') ∨
      ∃ e, resolveRelationship d.entries r = .error e ∧ d.FirstMiss r.references e := by
  cases r with
  | generalization s t =>
    refine (resolveBoth_cases d .generalization s t .generalization rfl).imp ?_ id
    rintro ⟨i, j, hr, hi, hj⟩
    exact ⟨_, hr, .generalization hi hj⟩
  | realization s t =>
    refine (resolveBoth_cases d .realization s t .realization rfl).imp ?_ id
    rintro ⟨i, j, hr, hi, hj⟩
    exact ⟨_, hr, .realization hi hj⟩
  | association name end1 end2 =>
    let f (i j : ElementId) : Relationship :=
      .association ⟨name, ⟨i, end1.navigable⟩, ⟨j, end2.navigable⟩⟩
    have hx : resolveRelationship d.entries (.association name end1 end2) =
        (resolve d.entries .association end1.reference).bind fun i =>
          (resolve d.entries .association end2.reference).bind fun j => .ok (f i j) := by
      simp only [resolveRelationship, resolveEnd]
      cases resolve d.entries .association end1.reference with
      | error e => rfl
      | ok i => cases resolve d.entries .association end2.reference <;> rfl
    refine (resolveBoth_cases d .association _ _ f hx).imp ?_ id
    rintro ⟨i, j, hr, hi, hj⟩
    exact ⟨_, hr, .association hi hj⟩

/-- Relationships are resolved in their order, up to the first reference that misses. -/
theorem resolveAll_cases (d : Document) (rs : List Snapshot.Relationship) :
    (∃ rs', rs.mapM (resolveRelationship d.entries) = .ok rs' ∧ List.Forall₂ d.Resolves rs rs') ∨
      ∃ e, rs.mapM (resolveRelationship d.entries) = .error e ∧
        d.FirstMiss (rs.flatMap Snapshot.Relationship.references) e := by
  induction rs with
  | nil => exact .inl ⟨[], rfl, .nil⟩
  | cons r rs ih =>
    rw [List.mapM_cons, List.flatMap_cons]
    rcases resolveRelationship_cases d r with ⟨r', hr, hres⟩ | ⟨e, he, hm⟩
    · rw [hr]
      rcases ih with ⟨rs', hrs, hall⟩ | ⟨e, he, hm⟩
      · rw [hrs]
        exact .inl ⟨r' :: rs', rfl, .cons hres hall⟩
      · rw [he]
        exact .inr ⟨e, rfl, hm.after hres.clear⟩
    · rw [he]
      exact .inr ⟨e, rfl, hm.append _⟩

/-- Entries are taken up to the first whose explicit id was met before. -/
theorem uniqueEntries_cases (seen : List String) (es : List Entry) :
    ((uniqueEntries seen es).2 = none ∧ (explicitIds (es.map Entry.node)).Nodup ∧
      ∀ x ∈ explicitIds (es.map Entry.node), x ∉ seen) ∨
    ∃ x before e after, (uniqueEntries seen es).2 = some x ∧ es = before ++ e :: after ∧
      e.explicitId = some x ∧ (explicitIds (before.map Entry.node)).Nodup ∧
      (∀ y ∈ explicitIds (before.map Entry.node), y ∉ seen) ∧
      (x ∈ explicitIds (before.map Entry.node) ∨ x ∈ seen) := by
  induction es generalizing seen with
  | nil => exact .inl ⟨rfl, .nil, by simp [explicitIds]⟩
  | cons e es ih =>
    cases he : e.explicitId with
    | none =>
      have hids (es : List Entry) :
          explicitIds ((e :: es).map Entry.node) = explicitIds (es.map Entry.node) := by
        simp [explicitIds, Entry.node, he]
      have hrest : (uniqueEntries seen (e :: es)).2 = (uniqueEntries seen es).2 := by
        simp [uniqueEntries, he]
      rw [hids, hrest]
      refine (ih seen).imp id ?_
      rintro ⟨x, before, e', after, hx, rfl, he', hb⟩
      exact ⟨x, e :: before, e', after, hx, rfl, he', by rwa [hids]⟩
    | some id =>
      have hids (es : List Entry) :
          explicitIds ((e :: es).map Entry.node) = id :: explicitIds (es.map Entry.node) := by
        simp [explicitIds, Entry.node, he]
      by_cases hid : id ∈ seen
      · refine .inr ⟨id, [], e, es, ?_, rfl, he, .nil, by simp [explicitIds], .inr hid⟩
        simp [uniqueEntries, he, hid]
      · have hrest : (uniqueEntries seen (e :: es)).2 = (uniqueEntries (id :: seen) es).2 := by
          simp [uniqueEntries, he, hid]
        have hnew {ids : List String} (hn : ids.Nodup) (hs : ∀ y ∈ ids, y ∉ id :: seen) :
            (id :: ids).Nodup ∧ ∀ y ∈ id :: ids, y ∉ seen := by
          refine ⟨List.nodup_cons.mpr ⟨fun h => hs id h List.mem_cons_self, hn⟩, ?_⟩
          exact List.forall_mem_cons.mpr ⟨hid, fun y hy h => hs y hy (List.mem_cons_of_mem _ h)⟩
        rw [hids, hrest]
        refine (ih (id :: seen)).imp ?_ ?_
        · rintro ⟨hnone, hn, hs⟩
          exact ⟨hnone, hnew hn hs⟩
        · rintro ⟨x, before, e', after, hx, rfl, he', hn, hs, hmet⟩
          refine ⟨x, e :: before, e', after, hx, rfl, he', ?_⟩
          rw [hids]
          refine ⟨(hnew hn hs).1, (hnew hn hs).2, ?_⟩
          rcases hmet with hmet | hmet
          · exact .inl (List.mem_cons_of_mem _ hmet)
          · rcases List.mem_cons.mp hmet with rfl | hmet
            · exact .inl List.mem_cons_self
            · exact .inr hmet

theorem built_of_resolved {rs : List Relationship}
    (h : List.Forall₂ d.Resolves d.relationships rs) :
    d.Built ⟨(d.entries.map (·.element)).toArray, rs⟩ where
  size := by
    rw [← (entries_node d).1, List.size_toArray, List.length_map, List.length_map]
  element := by
    intro i e he
    have hentry : (d.entries.map (·.element))[i]? = some e := by simpa [element?] using he
    rw [List.getElem?_map] at hentry
    obtain ⟨x, hx, rfl⟩ := Option.map_eq_some_iff.mp hentry
    refine ⟨x.node, ?_, id_of_getElem? hx, rfl, (entries_node d).2 x (List.mem_of_getElem? hx)⟩
    rw [← (entries_node d).1, List.getElem?_map, hx]
    rfl
  relationships := h

/-- Building gives a model of a sound document, or tells the first fault. -/
theorem build_cases (d : Document) : (∃ m, build d = .ok m ∧ d.Sound ∧ d.Built m) ∨
    ∃ e, build d = .error e ∧ d.Faulty e := by
  have hnodes := (entries_node d).1
  rcases uniqueEntries_cases [] d.entries with ⟨hnone, hids, -⟩ | hrepeated
  · rw [hnodes] at hids
    have hunique : uniqueEntries [] d.entries = (d.entries, none) :=
      Prod.ext (uniqueEntries_fst hnone) hnone
    have hbuild : build d = (d.relationships.mapM (resolveRelationship d.entries)).bind
        fun rs => .ok ⟨(d.entries.map (·.element)).toArray, rs⟩ := by
      rw [build, hunique]
      rfl
    rcases resolveAll_cases d d.relationships with ⟨rs, hrs, hall⟩ | ⟨e, he, hm⟩
    · rw [hrs] at hbuild
      exact .inl ⟨_, hbuild, ⟨hids, Document.clear_of_resolved hall⟩, built_of_resolved hall⟩
    · rw [he] at hbuild
      exact .inr ⟨e, hbuild, .reference hids hm⟩
  · obtain ⟨x, before, e, after, hx, hentries, he, hb, -, hmet⟩ := hrepeated
    have hsplit : d.nodes = before.map Entry.node ++ e.node :: after.map Entry.node := by
      rw [← hnodes, hentries, List.map_append, List.map_cons]
    have hbuild : build d = .error (.duplicateId x) := by
      rw [build, show uniqueEntries [] d.entries = (_, some x) from Prod.ext rfl hx]
    exact .inr ⟨_, hbuild, .duplicate hsplit hb he (hmet.resolve_right List.not_mem_nil)⟩

/-- A model can be built of a document exactly if its explicit ids are all different and every
reference means one node, and then the references are resolved to these nodes. Otherwise building
tells the first fault of the document. -/
theorem build_exact (d : Document) : ((∃ m, build d = .ok m) ↔ d.Sound) ∧
    (∀ m, build d = .ok m → d.Built m) ∧ ∀ e, build d = .error e ↔ d.Faulty e := by
  rcases build_cases d with ⟨m, hm, hsound, hbuilt⟩ | ⟨e, he, hfault⟩
  · refine ⟨⟨fun _ => hsound, fun _ => ⟨m, hm⟩⟩, ?_, fun e => ⟨?_, ?_⟩⟩
    · intro m' hm'
      rw [hm] at hm'
      exact Except.ok.inj hm' ▸ hbuilt
    · intro he
      cases hm.symm.trans he
    · intro hfault
      exact absurd hsound hfault.not_sound
  · refine ⟨⟨?_, fun hs => absurd hs hfault.not_sound⟩, ?_, fun e' => ⟨?_, ?_⟩⟩
    · rintro ⟨m, hm⟩
      cases he.symm.trans hm
    · intro m hm
      cases he.symm.trans hm
    · intro he'
      rw [he] at he'
      exact Except.error.inj he' ▸ hfault
    · intro hfault'
      rw [he, hfault.unique hfault']

/-- Two classes with one name, and a package with the qualified name of another for its id. -/
def items (reference : String) : Document where
  name := "Shop"
  ownedElements := [
    { kind := "package", name := "A", ownedElements := [{ kind := "class", name := "Item" }] },
    { kind := "package", id := some "Shop.A", name := "B",
      ownedElements := [{ kind := "class", name := "Item" }] }]
  relationships := [.generalization reference "Shop.B.Item"]

theorem items_exact :
    (items "Shop.A.Item").Built
      ⟨((items "Shop.A.Item").entries.map (·.element)).toArray, [.generalization 2 4]⟩ ∧
    (items "Item").Faulty (.ambiguousReference .generalization "Item") ∧
    (items "Shop.A").Faulty (.ambiguousReference .generalization "Shop.A") ∧
    (items "A.Item").Faulty (.unknownReference .generalization "A.Item") :=
  ⟨(build_exact (items "Shop.A.Item")).2.1 _ rfl, ((build_exact (items "Item")).2.2 _).mp rfl,
    ((build_exact (items "Shop.A")).2.2 _).mp rfl, ((build_exact (items "A.Item")).2.2 _).mp rfl⟩

end Model
end ClassScribe
