import Mathlib.Data.Fintype.Card
import Mathlib.Logic.Relation
import ClassScribe.Proofs.Model.Navigation
import ClassScribe.Proofs.Source.Body
import ClassScribe.Proofs.Source.Constant
import ClassScribe.Proofs.Source.Within

/-! # Construction of held references

An initializer makes a new object, without arguments, for every reference that its class holds, and
so runs the initializers of other classes. These take a parameter for every attribute of an
instance, whoever calls them. Construction works exactly when no class on the way has such an
attribute and no way leads back to a class on it.
-/
namespace ClassScribe
open Relation (TransGen)

namespace Model

variable (m : Model) (root : ElementId)

/-- A class that has a definition in sources; an annotation has none. -/
def isConcrete (i : ElementId) : Bool := (m.element? i).any fun e => e.isClass && !e.isAnnotation

/-- A class that has a definition in sources, with its members. -/
structure HasClass (c : Element) (ms : Members) : Prop where
  own : m.element? c.id = some c
  kind : c.kind = .classOf ms
  concrete : c.isAnnotation = false

/-- The parameters of the initializer of a class. -/
def parameters (i : ElementId) : List String :=
  ((m.element? i).bind (·.kind.members?)).elim [] fun ms =>
    (ms.attributesWith false).map (·.name)

/-- The members that the initializer of a class sets to new objects, with the constants of these. -/
def constructions (i : ElementId) : List (String × String) :=
  (m.held i).map fun h => (h.stem, Source.constantName m root h.element)

/-- The class that a constant names in the sources below a root. -/
def classOf? (constant : String) : Option ElementId :=
  m.ids.find? fun j =>
    m.isConcrete j && m.isWithin j root && Source.constantName m root j == constant

/-- Objects of the given constants are made one after the other, each by the initializer of its
class. The classes are those whose initializers are called meanwhile. -/
inductive Evaluates : List String → List ElementId → Prop
  | done : Evaluates [] []
  | call {constant rest j inner after} : m.classOf? root constant = some j →
      Evaluates ((m.constructions root j).map (·.2)) inner → Evaluates rest after →
      Evaluates (constant :: rest) (j :: inner ++ after)

/-- The evaluation of the initializer of a class ends, and every call in it is of an initializer
without parameters. -/
def Constructs (i : ElementId) : Prop :=
  ∃ called, m.Evaluates root ((m.constructions root i).map (·.2)) called ∧
    ∀ j ∈ called, m.parameters j = []

/-- The initializer of `i` has a line that calls the one of `j`. -/
def Calls (i j : ElementId) : Prop :=
  ∃ h ∈ m.held i, m.classOf? root (Source.constantName m root h.element) = some j

/-- Navigable ends refer to classes at or below the root that have a definition. -/
def EndsIn : Prop :=
  ∀ a, .association a ∈ m.relationships → ∀ e ∈ [a.end1, a.end2], e.navigable = true →
    m.isConcrete e.element = true ∧ m.isWithin e.element root = true

variable {m root} {i j : ElementId} {constant : String}

theorem mem_held {h : Held} (hh : h ∈ m.held i) :
    ∃ a, .association a ∈ m.relationships ∧ ∃ e ∈ [a.end1, a.end2],
      e.navigable = true ∧ e.element = h.element := by
  rw [held_eq] at hh
  obtain ⟨l, hl, rfl⟩ := List.mem_map.mp hh
  obtain ⟨a, ha, hla⟩ := mem_links.mp (List.mem_filter.mp hl).1
  refine ⟨a, ha, ?_⟩
  rcases Association.mem_links.mp hla with ⟨hnavigable, rfl⟩ | ⟨hnavigable, rfl⟩
  · exact ⟨a.end2, by simp, hnavigable, rfl⟩
  · exact ⟨a.end1, by simp, hnavigable, rfl⟩

theorem classOf?_eq_some (h : m.classOf? root constant = some j) :
    m.isConcrete j = true ∧ m.isWithin j root = true ∧ Source.constantName m root j = constant := by
  have hp := List.find?_some h
  simpa [and_assoc] using hp

theorem lt_of_isConcrete (h : m.isConcrete i = true) : i < m.elements.size := by
  rw [isConcrete] at h
  cases he : m.element? i with
  | none => simp [he] at h
  | some e => exact (Array.getElem?_eq_some_iff.mp he).1

theorem exists_classOf? (hc : m.isConcrete i = true) (hw : m.isWithin i root = true) :
    ∃ j, m.classOf? root (Source.constantName m root i) = some j := by
  refine Option.isSome_iff_exists.mp (List.find?_isSome.mpr ⟨i, ?_, by simp [hc, hw]⟩)
  exact List.mem_range.mpr (lt_of_isConcrete hc)

theorem EndsIn.exists_calls (he : m.EndsIn root) {h : Held} (hh : h ∈ m.held i) :
    ∃ j, m.classOf? root (Source.constantName m root h.element) = some j := by
  obtain ⟨a, ha, e, hmem, hn, hle⟩ := mem_held hh
  obtain ⟨hc, hw⟩ := he a ha e hmem hn
  exact exists_classOf? (hle ▸ hc) (hle ▸ hw)

theorem calls_iff : m.Calls root i j ↔
    ∃ K ∈ (m.constructions root i).map (·.2), m.classOf? root K = some j := by
  simp [Calls, constructions]

theorem Calls.lt (h : m.Calls root i j) : j < m.elements.size := by
  obtain ⟨_, _, hj⟩ := h
  exact lt_of_isConcrete (classOf?_eq_some hj).1

/-- What an evaluation makes objects of is called in it, and with it all that is called from there;
nothing among it calls itself, however indirectly. -/
theorem Evaluates.called {constants : List String} {called : List ElementId}
    (h : m.Evaluates root constants called) :
    ∀ K ∈ constants, ∀ j, m.classOf? root K = some j →
      Acc (fun b a => m.Calls root a b) j ∧ j ∈ called ∧
        ∀ k, TransGen (m.Calls root) j k → k ∈ called := by
  induction h with
  | done => simp
  | @call K rest j inner after hK _ _ ihinner ihafter =>
    have hbelow (k : ElementId) (hk : m.Calls root j k) :=
      let ⟨K', hmem, hk⟩ := calls_iff.mp hk
      ihinner K' hmem k hk
    intro K' hmem j' hj'
    rcases List.mem_cons.mp hmem with rfl | hmem
    · obtain rfl : j = j' := Option.some.inj (hK.symm.trans hj')
      refine ⟨Acc.intro _ fun k hk => (hbelow k hk).1, by simp, fun k hk => ?_⟩
      rcases TransGen.head'_iff.mp hk with ⟨l, hl, hlk⟩
      have hin : k ∈ inner := by
        rcases Relation.reflTransGen_iff_eq_or_transGen.mp hlk with rfl | hlk
        · exact (hbelow _ hl).2.1
        · exact (hbelow l hl).2.2 k hlk
      simp [hin]
    · obtain ⟨hacc, hj, hk⟩ := ihafter K' hmem j' hj'
      exact ⟨hacc, by simp [hj], fun k hjk => by simp [hk k hjk]⟩

/-- Where all ways end, none of them comes to a cycle. -/
theorem not_transGen_of_acc {α : Type} {r : α → α → Prop} {a b : α}
    (h : Acc (fun b a => r a b) a) (hb : Relation.ReflTransGen r a b) : ¬ TransGen r b b := by
  have hacc : Acc (fun b a => r a b) b := by
    induction hb with
    | refl => exact h
    | tail _ hbc ih => exact ih.inv hbc
  induction hacc with
  | intro b _ ih =>
    intro hcycle
    obtain ⟨c, hbc, hcb⟩ := TransGen.head'_iff.mp hcycle
    exact ih c hbc (hb.tail hbc) (TransGen.tail' hcb hbc)

/-- Among finitely many, ways without a cycle end: with every step fewer can be reached. -/
theorem acc_of_not_transGen {r : ElementId → ElementId → Prop} {n : Nat}
    (hn : ∀ a b, r a b → b < n) {i : ElementId} (h : ∀ j, TransGen r i j → ¬ TransGen r j j) :
    Acc (fun b a => r a b) i := by
  classical
  let ahead (i : ElementId) : Finset ElementId := (Finset.range n).filter (TransGen r i)
  induction hc : (ahead i).card using Nat.strongRecOn generalizing i with
  | ind c ih =>
    refine Acc.intro i fun j hij => ?_
    have hfewer : ahead j ⊂ ahead i := by
      refine Finset.ssubset_iff_of_subset (fun k hk => ?_) |>.mpr ⟨j, ?_, ?_⟩
      · obtain ⟨hk, hjk⟩ := Finset.mem_filter.mp hk
        exact Finset.mem_filter.mpr ⟨hk, .head hij hjk⟩
      · exact Finset.mem_filter.mpr ⟨Finset.mem_range.mpr (hn i j hij), .single hij⟩
      · exact fun hj => h j (.single hij) (Finset.mem_filter.mp hj).2
    exact ih _ (hc ▸ Finset.card_lt_card hfewer) (fun k hjk => h k (.head hij hjk)) rfl

theorem EndsIn.evaluates (he : m.EndsIn root) (h : Acc (fun b a => m.Calls root a b) i) :
    ∃ called, m.Evaluates root ((m.constructions root i).map (·.2)) called ∧
      ∀ j ∈ called, TransGen (m.Calls root) i j := by
  induction h with
  | intro i _ ih =>
    have hlines (hs : List Held) (hsub : ∀ h ∈ hs, h ∈ m.held i) : ∃ called,
        m.Evaluates root (hs.map fun h => Source.constantName m root h.element) called ∧
          ∀ j ∈ called, TransGen (m.Calls root) i j := by
      induction hs with
      | nil => exact ⟨[], .done, by simp⟩
      | cons h hs ihs =>
        obtain ⟨hh, hhs⟩ := List.forall_mem_cons.mp hsub
        obtain ⟨after, hafter, hreached⟩ := ihs hhs
        obtain ⟨j, hj⟩ := he.exists_calls hh
        have hij : m.Calls root i j := ⟨h, hh, hj⟩
        obtain ⟨inner, hinner, hbelow⟩ := ih j hij
        refine ⟨_, .call hj hinner hafter, fun k hk => ?_⟩
        rcases List.mem_append.mp hk with hk | hk
        · rcases List.mem_cons.mp hk with rfl | hk
          · exact .single hij
          · exact .head hij (hbelow k hk)
        · exact hreached k hk
    rw [constructions, List.map_map]
    exact hlines (m.held i) fun _ hh => hh

theorem EndsIn.constructs_iff (he : m.EndsIn root) : m.Constructs root i ↔
    ∀ j, TransGen (m.Calls root) i j → m.parameters j = [] ∧ ¬ TransGen (m.Calls root) j j := by
  constructor
  · rintro ⟨called, heval, hparameters⟩ j hij
    obtain ⟨k, hik, hkj⟩ := TransGen.head'_iff.mp hij
    obtain ⟨K, hmem, hk⟩ := calls_iff.mp hik
    obtain ⟨hacc, hcalled, hbelow⟩ := heval.called K hmem k hk
    refine ⟨hparameters j ?_, not_transGen_of_acc hacc hkj⟩
    rcases Relation.reflTransGen_iff_eq_or_transGen.mp hkj with rfl | hkj
    · exact hcalled
    · exact hbelow j hkj
  · intro h
    have hacc := acc_of_not_transGen (fun _ _ hab => hab.lt) fun j hij => (h j hij).2
    obtain ⟨called, heval, hreached⟩ := he.evaluates hacc
    exact ⟨called, heval, fun j hj => (h j (hreached j hj)).1⟩

end Model

namespace Source

/-- Among lines, some in a row are the given texts, each behind an indentation. -/
def HaveLines (ls texts : List String) : Prop :=
  ∃ shown, shown <:+: ls ∧
    List.Forall₂ (fun line text => ∃ pad, IsPad pad ∧ line = pad ++ text) shown texts

/-- Among the lines of a content, some in a row are the given texts, each behind an indentation. -/
def HasLines (content : String) (texts : List String) : Prop :=
  ∃ front shown back, content = "\n".intercalate (front ++ shown ++ back) ∧
    List.Forall₂ (fun line text => ∃ pad, IsPad pad ∧ line = pad ++ text) shown texts

theorem HaveLines.content {ls texts : List String} (h : HaveLines ls texts) :
    HasLines ("\n".intercalate ls) texts := by
  obtain ⟨shown, ⟨front, back, rfl⟩, hshown⟩ := h
  exact ⟨front, shown, back, rfl, hshown⟩

variable {m : Model} {root i : ElementId} {o : Options}

theorem fileLines?_class {c : Element} {ms : Members} (hc : m.HasClass c ms) (root : ElementId)
    (o : Options) : fileLines? m root o c.id = some (writtenLines o (classFile m root o c ms)) := by
  simp [fileLines?, hc.own, blocks?, hc.kind, hc.concrete]

/-- The file of a class has the lines of its initializer. -/
theorem haveLines_initializer {e : Element} {ms : Members} (ho : o.initializer = true) :
    HaveLines (writtenLines o (classFile m root o e ms))
      (Item.initializer ((ms.attributesWith false).map (·.name)) (m.constructions root e.id)).texts := by
  have hwithin : Within [initializer (ms.attributesWith false) (m.constructions root e.id)]
      (classFile m root o e ms) :=
    within_classFile (s := .initializer) ho
  obtain ⟨d, hd⟩ := hwithin o.indentUnit 0
  rw [writtenLines_eq]
  refine ⟨_, hd, lines_rows (fun depth s _ => padded_line (isPad_indentUnit o) depth s) ?_⟩
  rw [rows_cons, rows_nil, List.append_nil, initializer_eq, rows_scope, rows_lines,
    texts_initializer]
  simp

end Source

namespace Model

variable {m : Model} {root i j : ElementId}

theorem isConcrete_iff : m.isConcrete i = true ↔
    ∃ e ms, m.element? i = some e ∧ e.kind = .classOf ms ∧ e.isAnnotation = false := by
  rw [isConcrete, Option.any_eq_true]
  constructor
  · rintro ⟨e, he, hc⟩
    rw [Bool.and_eq_true, Bool.not_eq_true'] at hc
    cases hk : e.kind <;> simp_all [Element.isClass]
  · rintro ⟨e, ms, he, hk, ha⟩
    exact ⟨e, he, by simp [Element.isClass, hk, ha]⟩

theorem isPackage_not_concrete (hp : m.IsPackage i) : m.isConcrete i ≠ true := by
  obtain ⟨e, owned, he, hk⟩ := hp
  rw [ne_eq, isConcrete_iff]
  rintro ⟨e', ms, he', hk', -⟩
  obtain rfl := Option.some.inj (he.symm.trans he')
  cases hk.symm.trans hk'

/-- Concrete classes with different qualified names have different constants. -/
theorem IsTree.eq_of_constantName (ht : m.IsTree) (hm : ∀ k, ':' ∉ (m.name k).toList)
    (hq : ∀ i j, m.isConcrete i = true → m.isConcrete j = true →
      m.qualifiedName i = m.qualifiedName j → i = j)
    (hi : m.isConcrete i = true) (hj : m.isConcrete j = true) (hir : m.isWithin i root = true)
    (hjr : m.isWithin j root = true)
    (h : Source.constantName m root i = Source.constantName m root j) : i = j := by
  -- A class as the root is all that is within it.
  have htop {k l : ElementId} (hk : m.isConcrete k = true) (hl : m.isWithin l k = true) : l = k := by
    by_contra hne
    exact isPackage_not_concrete (ht.isPackage_of_within hl hne) hk
  rcases isWithin_iff.mp hir with rfl | hil
  · exact (htop hi hjr).symm
  · rcases isWithin_iff.mp hjr with rfl | hjl
    · exact htop hj hir
    · exact hq i j hi hj (qualifiedName_of_constantName hm hil hjl h)

theorem EndsIn.calls_iff_held (he : m.EndsIn root) (ht : m.IsTree)
    (hm : ∀ k, ':' ∉ (m.name k).toList)
    (hq : ∀ i j, m.isConcrete i = true → m.isConcrete j = true →
      m.qualifiedName i = m.qualifiedName j → i = j) :
    m.Calls root i j ↔ ∃ h ∈ m.held i, h.element = j := by
  have hmeans {h : Held} (hh : h ∈ m.held i) {k : ElementId}
      (hk : m.classOf? root (Source.constantName m root h.element) = some k) : h.element = k := by
    obtain ⟨a, ha, e, hmem, hn, hle⟩ := mem_held hh
    obtain ⟨hc, hw⟩ := he a ha e hmem hn
    obtain ⟨hkc, hkw, hconstant⟩ := classOf?_eq_some hk
    exact ht.eq_of_constantName hm hq (hle ▸ hc) hkc (hle ▸ hw) hkw hconstant.symm
  constructor
  · rintro ⟨h, hh, hk⟩
    exact ⟨h, hh, hmeans hh hk⟩
  · rintro ⟨h, hh, rfl⟩
    obtain ⟨k, hk⟩ := he.exists_calls hh
    exact ⟨h, hh, (hmeans hh hk).symm ▸ hk⟩

theorem lines_initializer {d : Snapshot.Document} (hd : build d = .ok m) {o : Options}
    (ho : o.initializer = true) (hi : m.isConcrete i = true) (root : ElementId) :
    ∃ ls, Source.fileLines? m root o i = some ls ∧
      Source.HaveLines ls
        (Source.Item.initializer (m.parameters i) (m.constructions root i)).texts := by
  obtain ⟨e, ms, he, hk, ha⟩ := isConcrete_iff.mp hi
  obtain rfl : e.id = i := (build_isTree hd).id_eq _ _ he
  have hparameters : m.parameters e.id = (ms.attributesWith false).map (·.name) := by
    simp [parameters, he, hk, ElementKind.members?]
  refine ⟨_, Source.fileLines?_class ⟨he, hk, ha⟩ root o, ?_⟩
  rw [hparameters]
  exact Source.haveLines_initializer ho

theorem render?_initializer {d : Snapshot.Document} (hd : build d = .ok m) {o : Options}
    (ho : o.initializer = true) (hi : m.isConcrete i = true) :
    ∃ f, Source.render? m root o i = some f ∧
      Source.HasLines f.content
        (Source.Item.initializer (m.parameters i) (m.constructions root i)).texts := by
  obtain ⟨ls, hls, hlines⟩ := lines_initializer hd ho hi root
  refine ⟨⟨Source.fileName m i, "\n".intercalate ls⟩, ?_, hlines.content⟩
  rw [Source.render?_lines, hls, Option.map_some]

/-- The file of every class has its initializer, which makes an object for every reference held.
Evaluating it ends with calls of initializers without parameters only, exactly when no class it
leads to has an attribute of an instance or leads back to itself. A call is of the class that is
referred to, if the classes can be told apart by their constants. -/
theorem constructs_exactly {d : Snapshot.Document} (hd : build d = .ok m) (he : m.EndsIn root)
    {o : Options} (ho : o.initializer = true) :
    (∀ i, m.isConcrete i = true →
      (∃ f, Source.render? m root o i = some f ∧ Source.HasLines f.content
        (Source.Item.initializer (m.parameters i) (m.constructions root i)).texts) ∧
      (m.Constructs root i ↔ ∀ j, TransGen (m.Calls root) i j →
        m.parameters j = [] ∧ ¬ TransGen (m.Calls root) j j)) ∧
    ((∀ k, ':' ∉ (m.name k).toList) →
      (∀ i j, m.isConcrete i = true → m.isConcrete j = true →
        m.qualifiedName i = m.qualifiedName j → i = j) →
      ∀ i j, m.Calls root i j ↔ ∃ h ∈ m.held i, h.element = j) :=
  ⟨fun _ hi => ⟨render?_initializer hd ho hi, he.constructs_iff⟩,
    fun hm hq _ _ => he.calls_iff_held (build_isTree hd) hm hq⟩

/-- A cart holds an item, whose initializer takes an attribute, and a node holds nodes. -/
def tangled : Snapshot.Document where
  name := "Shop"
  ownedElements := [
    { kind := "class", name := "Cart" },
    { kind := "class", name := "Item", attributes := [{ name := "sku" }] },
    { kind := "class", name := "Node" }]
  relationships := [
    .association "" ⟨"Cart", false⟩ ⟨"Item", true⟩,
    .association "" ⟨"Node", true⟩ ⟨"Node", true⟩]

def tangledModel : Model where
  elements := (tangled.entries.map (·.element)).toArray
  relationships := [.association ⟨"", ⟨1, false⟩, ⟨2, true⟩⟩, .association ⟨"", ⟨3, true⟩, ⟨3, true⟩⟩]

/-- Every end refers to a class below the root, and the classes have different names. Still the
cart calls an initializer with a parameter, and evaluating that of a node never ends. -/
theorem tangled_not_constructed :
    build tangled = .ok tangledModel ∧ tangledModel.EndsIn Model.root ∧
    (∀ i j, tangledModel.isConcrete i = true → tangledModel.isConcrete j = true →
      tangledModel.qualifiedName i = tangledModel.qualifiedName j → i = j) ∧
    (tangledModel.isConcrete 1 = true ∧ ∀ called,
      tangledModel.Evaluates Model.root ((tangledModel.constructions Model.root 1).map (·.2)) called →
        ∃ j ∈ called, tangledModel.parameters j = ["sku"]) ∧
    (tangledModel.isConcrete 3 = true ∧
      ¬ ∃ called, tangledModel.Evaluates Model.root
        ((tangledModel.constructions Model.root 3).map (·.2)) called) := by
  have hd : build tangled = .ok tangledModel := rfl
  have hitem : tangledModel.classOf? Model.root "Item" = some 2 := by decide +kernel
  have hnode : tangledModel.classOf? Model.root "Node" = some 3 := by decide +kernel
  have hnames : ∀ i < 4, ∀ j < 4, tangledModel.isConcrete i = true →
      tangledModel.isConcrete j = true →
      tangledModel.qualifiedName i = tangledModel.qualifiedName j → i = j := by decide +kernel
  refine ⟨hd, ?_, fun i j hi hj => ?_, ⟨by decide, fun called h => ?_⟩, by decide, ?_⟩
  · intro a ha
    obtain rfl | rfl : a = ⟨"", ⟨1, false⟩, ⟨2, true⟩⟩ ∨ a = ⟨"", ⟨3, true⟩, ⟨3, true⟩⟩ := by
      simpa [tangledModel] using ha
    all_goals decide +kernel
  · exact hnames i (lt_of_isConcrete hi) j (lt_of_isConcrete hj) hi hj
  · exact ⟨2, (h.called "Item" (by decide +kernel) 2 hitem).2.1, by decide⟩
  · rintro ⟨called, h⟩
    have hself : tangledModel.Calls Model.root 3 3 :=
      calls_iff.mpr ⟨"Node", by decide +kernel, hnode⟩
    have hacc := (h.called "Node" (by decide +kernel) 3 hnode).1
    exact not_transGen_of_acc hacc .refl (.single hself)

/-- A cart holds an item, which holds its price. -/
def chained : Snapshot.Document where
  name := "Shop"
  ownedElements := [
    { kind := "class", name := "Cart", attributes := [{ name := "owner" }] },
    { kind := "package", name := "Stock", ownedElements := [
      { kind := "class", name := "Item" },
      { kind := "class", name := "Price" }] }]
  relationships := [
    .association "" ⟨"Cart", false⟩ ⟨"Item", true⟩,
    .association "" ⟨"Item", false⟩ ⟨"Price", true⟩]

def chainedModel : Model where
  elements := (chained.entries.map (·.element)).toArray
  relationships := [.association ⟨"", ⟨1, false⟩, ⟨3, true⟩⟩, .association ⟨"", ⟨3, false⟩, ⟨4, true⟩⟩]

theorem chained_constructs : build chained = .ok chainedModel ∧ chainedModel.EndsIn Model.root ∧
    chainedModel.Constructs Model.root 1 := by
  have hd : build chained = .ok chainedModel := rfl
  have he : chainedModel.EndsIn Model.root := by
    intro a ha
    obtain rfl | rfl : a = ⟨"", ⟨1, false⟩, ⟨3, true⟩⟩ ∨ a = ⟨"", ⟨3, false⟩, ⟨4, true⟩⟩ := by
      simpa [chainedModel] using ha
    all_goals decide +kernel
  have hnames : ∀ e ∈ chainedModel.elements, ':' ∉ e.name.toList := by decide +kernel
  have hcolon (k : ElementId) : ':' ∉ (chainedModel.name k).toList := by
    rw [name, element?]
    cases hk : chainedModel.elements[k]? with
    | none => simp
    | some e => exact hnames e (Array.mem_of_getElem? hk)
  have hdistinct : ∀ i < 5, ∀ j < 5, chainedModel.isConcrete i = true →
      chainedModel.isConcrete j = true →
      chainedModel.qualifiedName i = chainedModel.qualifiedName j → i = j := by decide +kernel
  obtain ⟨hconstructs, hcalls⟩ := constructs_exactly hd he (o := {}) rfl
  have hheld (i : ElementId) : ∀ h ∈ chainedModel.held i,
      i < h.element ∧ chainedModel.parameters h.element = [] := by
    by_cases hi : i < 5
    · have hall : ∀ i < 5, ∀ h ∈ chainedModel.held i,
          i < h.element ∧ chainedModel.parameters h.element = [] := by decide +kernel
      exact hall i hi
    · have hne : chainedModel.relationshipsOf i = [] := by
        have h1 : 1 ≠ i := by lia
        have h3 : 3 ≠ i := by lia
        have h4 : 4 ≠ i := by lia
        simp [relationshipsOf, chainedModel, Relationship.touches, Relationship.ends, h1, h3, h4]
      simp [held, associations, hne]
  have hstep (i j : ElementId) (h : chainedModel.Calls Model.root i j) :
      i < j ∧ chainedModel.parameters j = [] := by
    obtain ⟨x, hx, rfl⟩ := (hcalls hcolon (fun i j hi hj => hdistinct i (lt_of_isConcrete hi) j
      (lt_of_isConcrete hj) hi hj) i j).mp h
    exact hheld i x hx
  refine ⟨hd, he, ((hconstructs 1 (by decide)).2).mpr fun j hj => ⟨?_, fun hcycle => ?_⟩⟩
  · obtain ⟨k, -, hkj⟩ := TransGen.tail'_iff.mp hj
    exact (hstep k j hkj).2
  · have hlt : TransGen (· < ·) j j := TransGen.mono (fun i j h => (hstep i j h).1) _ _ hcycle
    rw [Relation.transGen_eq_self] at hlt
    exact Nat.lt_irrefl j hlt

end Model
end ClassScribe
