import ClassScribe.Proofs.Source.Nesting
import ClassScribe.Proofs.Source.Plain

/-! # Every member lands once

What the items of a body say about the members: the stubs read under a visibility are the
operations with that visibility, and the readers and writers are those of the attributes with it.
What a class holds references to has public accessors besides. Static attributes are assigned in
the shared state and nowhere else.
-/
namespace ClassScribe.Source
open Text

/-- The items read under a visibility. -/
def readUnder (v : Visibility) (xs : List (Visibility × Item)) : List Item :=
  (xs.filter (·.1 == v)).map (·.2)

namespace Item

def stubs : Item → List (String × List String)
  | stub n ps => [(n, ps)]
  | _ => []

/-- The names that an item makes readers for. -/
def readable : Item → List String
  | readers ns => ns
  | accessors ns => ns
  | getter n => [n]
  | _ => []

def writable : Item → List String
  | accessors ns => ns
  | setter n => [n]
  | _ => []

def constants : Item → List (String × String)
  | constant n value => [(n, value)]
  | _ => []

def classVariables : Item → List (String × String)
  | classVariable n value => [(n, value)]
  | _ => []

/-- Whether an item belongs to the shared state. -/
def isShared : Item → Bool
  | constant _ _ => true
  | hiddenConstant _ => true
  | classVariable _ _ => true
  | _ => false

/-- Whether an item gives access to fields. -/
def isAccess : Item → Bool
  | readers _ => true
  | accessors _ => true
  | getter _ => true
  | setter _ => true
  | _ => false

/-- Whether it does so in a line, and not as a method. -/
def isDeclaration : Item → Bool
  | readers _ => true
  | accessors _ => true
  | _ => false

end Item

section Members

variable {α : Type} {x : Item} (o : Options) (as : List Attribute)

/-- Accessors of attributes are declared or written out, as an option says. -/
theorem style_of_accessorItems (h : x ∈ accessorItems o as) :
    x.isAccess = true ∧ x.isDeclaration = o.declaredAccessors := by
  rcases cases_accessorItems h with ⟨ho, p, rfl | rfl⟩ | ⟨ho, a, -, rfl | rfl⟩
  all_goals exact ⟨rfl, ho.symm⟩

theorem flatMap_accessorItems {p : Item → List α} (hp : ∀ x, x.isAccess = true → p x = []) :
    (accessorItems o as).flatMap p = [] :=
  List.flatMap_eq_nil_iff.mpr fun x hx => hp x (style_of_accessorItems o as hx).1

theorem isShared_of_mem (h : x ∈ sharedItems as) : x.isShared = true := by
  obtain ⟨a, -, rfl | rfl | rfl⟩ := cases_sharedItems h
  all_goals rfl

theorem flatMap_sharedItems {p : Item → List α} (hp : ∀ x, x.isShared = true → p x = []) :
    (sharedItems as).flatMap p = [] :=
  List.flatMap_eq_nil_iff.mpr fun x hx => hp x (isShared_of_mem as hx)

theorem readable_accessorItems :
    ((accessorItems o as).flatMap Item.readable).Perm (as.map (·.name)) := by
  rw [accessorItems]
  split
  · have hparts := (List.filter_append_perm (·.isReadOnly) as).map (·.name)
    rw [List.map_append] at hparts
    refine List.Perm.trans (List.Perm.of_eq ?_) hparts
    rw [declarationItems, List.flatMap_append]
    cases as.filter (·.isReadOnly) <;> cases as.filter (!·.isReadOnly) <;> simp [Item.readable]
  · have hmethods (a : Attribute) : (methodItems a).flatMap Item.readable = [a.name] := by
      cases h : a.isReadOnly <;> simp [methodItems, Item.readable, h]
    rw [List.flatMap_assoc, List.map_eq_flatMap]
    simp only [hmethods]
    exact List.Perm.refl _

theorem writable_accessorItems : (accessorItems o as).flatMap Item.writable =
    (as.filter (!·.isReadOnly)).map (·.name) := by
  rw [accessorItems]
  split
  · rw [declarationItems, List.flatMap_append]
    cases as.filter (·.isReadOnly) <;> cases as.filter (!·.isReadOnly) <;> simp [Item.writable]
  · have hmethods (a : Attribute) : (methodItems a).flatMap Item.writable =
        if a.isReadOnly then [] else [a.name] := by
      cases h : a.isReadOnly <;> simp [methodItems, Item.writable, h]
    rw [List.flatMap_assoc]
    simp only [hmethods]
    induction as with
    | nil => rfl
    | cons a as ih => cases h : a.isReadOnly <;> simp [h, ih]

theorem flatMap_stubItems {p : Item → List α} (ops : List Operation) :
    (stubItems ops).flatMap p = ops.flatMap fun op => p (.stub op.name op.signature) :=
  List.flatMap_map ..

theorem stubs_stubItems (ops : List Operation) :
    (stubItems ops).flatMap Item.stubs = ops.map fun op => (op.name, op.signature) := by
  rw [flatMap_stubItems, List.map_eq_flatMap]
  rfl

theorem constants_sharedItems : (sharedItems as).flatMap Item.constants =
    (as.filter (·.isReadOnly)).map fun a => (a.name, initialValue a) := by
  have hconstant (a : Attribute) :
      (constantItems a).flatMap Item.constants = [(a.name, initialValue a)] := by
    rw [constantItems]
    split <;> rfl
  rw [sharedItems, List.flatMap_append, List.flatMap_assoc, List.flatMap_map, List.map_eq_flatMap]
  simp [hconstant, Item.constants]

theorem classVariables_sharedItems : (sharedItems as).flatMap Item.classVariables =
    (as.filter (!·.isReadOnly)).map fun a => (a.name, initialValue a) := by
  have hconstant (a : Attribute) : (constantItems a).flatMap Item.classVariables = [] := by
    rw [constantItems]
    split <;> rfl
  rw [sharedItems, List.flatMap_append, List.flatMap_assoc, List.flatMap_map, List.map_eq_flatMap]
  simp [hconstant, Item.classVariables]

end Members

theorem readUnder_append (v : Visibility) (xs ys : List (Visibility × Item)) :
    readUnder v (xs ++ ys) = readUnder v xs ++ readUnder v ys := by
  simp [readUnder]

theorem readUnder_map (v u : Visibility) (xs : List Item) :
    readUnder v (xs.map (u, ·)) = if u = v then xs else [] := by
  by_cases h : u = v <;> simp [readUnder, List.filter_map, Function.comp_def, h]

section Classes

variable {α : Type} {m : Model} {root : ElementId} {o : Options} {f : ClassFacts}

theorem hasMembersIn_eq_false {v : Visibility} :
    f.hasMembersIn v = false ↔ f.attributesIn v = [] ∧ f.operationsIn v = [] := by
  simp [ClassFacts.hasMembersIn]

/-- A section that a class does not have would be empty, unless an option leaves it out. -/
theorem items_of_not_applies (m : Model) (root : ElementId) {s : Section}
    (h : s.applies f o = false) :
    s.items m root o f = [] ∨ s.items m root o f = [.accessors []] ∨
      s = .initializer ∨ s = .textMethod := by
  cases s with
  | inclusion =>
    have hnone : f.interface = none := by simpa [Section.applies] using h
    exact .inl (by rw [Section.items, hnone]; rfl)
  | references =>
    have hnone : f.held = [] := by simpa [Section.applies] using h
    exact .inr (.inl (by rw [Section.items, hnone]; rfl))
  | publicAttributes =>
    have hnone : f.attributesIn .publicAccess = [] := by simpa [Section.applies] using h
    exact .inl (by rw [Section.items, hnone, accessorItems_nil])
  | sharedState =>
    have hnone : f.statics = [] := by simpa [Section.applies] using h
    exact .inl (by rw [Section.items, hnone]; rfl)
  | initializer => exact .inr (.inr (.inl rfl))
  | publicOperations =>
    have hnone : f.operationsIn .publicAccess = [] := by simpa [Section.applies] using h
    exact .inl (by rw [Section.items, hnone]; rfl)
  | protectedMembers =>
    obtain ⟨ha, ho⟩ := hasMembersIn_eq_false.mp h
    exact .inl (by rw [Section.items, ha, ho, accessorItems_nil]; rfl)
  | privateMembers =>
    obtain ⟨ha, ho⟩ := hasMembersIn_eq_false.mp h
    exact .inl (by rw [Section.items, ha, ho, accessorItems_nil]; rfl)
  | textMethod => exact .inr (.inr (.inr rfl))

/-- What the items under a visibility say, section by section, of anything that neither
initializers nor text methods have. -/
theorem flatMap_readUnder {p : Item → List α} (haccessors : p (.accessors []) = [])
    (hinitializer : ∀ ns held, p (.initializer ns held) = []) (hdisplay : p .display = [])
    (v : Visibility) : (readUnder v (classItems m root o f)).flatMap p =
      Section.layout.flatMap fun s =>
        if s.visibility = v then (s.items m root o f).flatMap p else [] := by
  have hitems (s : Section) : (s.itemsIn m root o f).flatMap p = (s.items m root o f).flatMap p := by
    rw [Section.itemsIn]
    cases h : s.applies f o with
    | true => rfl
    | false =>
      rw [if_neg Bool.false_ne_true]
      rcases items_of_not_applies m root h with h | h | rfl | rfl
      · rw [h]
      · simp [h, haccessors]
      · simp [Section.items, hinitializer]
      · simp [Section.items, hdisplay]
  rw [classItems]
  induction Section.layout with
  | nil => rfl
  | cons s ss ih =>
    rw [List.flatMap_cons, List.flatMap_cons, readUnder_append, List.flatMap_append, ih,
      readUnder_map, ← hitems]
    split <;> rfl

theorem stubs_classItems (m : Model) (root : ElementId) (o : Options) (f : ClassFacts)
    (v : Visibility) : (readUnder v (classItems m root o f)).flatMap Item.stubs =
      (f.operationsIn v).map fun op => (op.name, op.signature) := by
  have haccessors (as : List Attribute) : (accessorItems o as).flatMap Item.stubs = [] :=
    flatMap_accessorItems o as fun x hx => by cases x <;> simp_all [Item.isAccess, Item.stubs]
  have hshared : (sharedItems f.statics).flatMap Item.stubs = [] :=
    flatMap_sharedItems f.statics fun x hx => by cases x <;> simp_all [Item.isShared, Item.stubs]
  rw [flatMap_readUnder rfl (fun _ _ => rfl) rfl]
  cases v <;> simp [Section.layout, Section.visibility, Section.items, haccessors, hshared,
    stubs_stubItems, Item.stubs, List.flatMap_map]

/-- The accessors for what a class holds references to are public. -/
def referencesIn (held : List String) : Visibility → List String
  | .publicAccess => held
  | _ => []

/-- What accessors say is said of references and of the attributes with a visibility. -/
theorem access_classItems {p : Item → List String}
    (hp : ∀ x : Item, x.isAccess = false → p x = [])
    (hr : ∀ ns, p (.accessors ns) = ns) (v : Visibility) :
    (readUnder v (classItems m root o f)).flatMap p =
      referencesIn (f.held.map (·.stem)) v ++ (accessorItems o (f.attributesIn v)).flatMap p := by
  have hshared : (sharedItems f.statics).flatMap p = [] :=
    flatMap_sharedItems f.statics fun x hx => by
      cases x <;> simp_all [Item.isShared, Item.isAccess]
  have hstubs (ops : List Operation) : (stubItems ops).flatMap p = [] := by
    rw [flatMap_stubItems]
    exact List.flatMap_eq_nil_iff.mpr fun op _ => hp _ rfl
  have hinclusion (n : String) : p (.inclusion n) = [] := hp _ rfl
  have hinitializer (ns : List String) (held : List (String × String)) :
    p (.initializer ns held) = [] := hp _ rfl
  have hdisplay : p .display = [] := hp _ rfl
  rw [flatMap_readUnder (hr []) hinitializer hdisplay]
  cases v <;> simp [Section.layout, Section.visibility, Section.items, hshared, hstubs, hr,
    hinclusion, hinitializer, hdisplay, List.flatMap_map, referencesIn]

theorem readable_classItems (m : Model) (root : ElementId) (o : Options) (f : ClassFacts)
    (v : Visibility) : ((readUnder v (classItems m root o f)).flatMap Item.readable).Perm
      (referencesIn (f.held.map (·.stem)) v ++ (f.attributesIn v).map (·.name)) := by
  rw [access_classItems (fun x hx => by cases x <;> simp_all [Item.isAccess,
    Item.readable]) fun _ => rfl]
  exact (readable_accessorItems o _).append_left _

theorem writable_classItems (m : Model) (root : ElementId) (o : Options) (f : ClassFacts)
    (v : Visibility) : (readUnder v (classItems m root o f)).flatMap Item.writable =
      referencesIn (f.held.map (·.stem)) v ++
        ((f.attributesIn v).filter (!·.isReadOnly)).map (·.name) := by
  rw [access_classItems (fun x hx => by cases x <;> simp_all [Item.isAccess,
    Item.writable]) fun _ => rfl, writable_accessorItems]

theorem isShared_of_isAccess {x : Item} (h : x.isAccess = true) : x.isShared = false := by
  cases x <;> simp_all [Item.isShared, Item.isAccess]

/-- Accessors are for what a class holds references to, or else in the style of the options. -/
theorem style_classItems {x : Visibility × Item} (h : x ∈ classItems m root o f)
    (hx : x.2.isAccess = true) : x = (.publicAccess, .accessors (f.held.map (·.stem))) ∨
      x.2.isDeclaration = o.declaredAccessors := by
  obtain ⟨s, hv, hs⟩ := mem_classItems h
  rcases cases_items hs with ⟨v, h⟩ | ⟨v, h⟩ | ⟨rfl, h⟩ | ⟨-, h⟩ | ⟨i, h⟩ | h | h
  · exact .inr (style_of_accessorItems o _ h).2
  · obtain ⟨op, -, h⟩ := List.mem_map.mp h
    rw [← h] at hx
    cases hx
  · exact .inl (Prod.ext hv h)
  · have hshared := isShared_of_mem f.statics h
    rw [isShared_of_isAccess hx] at hshared
    cases hshared
  all_goals
    rw [h] at hx
    cases hx

/-- Only the section for the shared state has items of it. -/
theorem isShared_of_mem_items {s : Section} (hs : s ≠ .sharedState) {x : Item}
    (hx : x ∈ s.items m root o f) : x.isShared = false := by
  rcases cases_items hx with ⟨v, h⟩ | ⟨v, h⟩ | ⟨-, rfl⟩ | ⟨rfl, -⟩ | ⟨i, rfl⟩ | rfl | rfl
  · exact isShared_of_isAccess (style_of_accessorItems o _ h).1
  · obtain ⟨op, -, rfl⟩ := List.mem_map.mp h
    rfl
  · rfl
  · exact absurd rfl hs
  all_goals rfl

theorem shared_classItems (m : Model) (root : ElementId) (o : Options) (f : ClassFacts) :
    ∃ before after, classItems m root o f =
      before ++ (sharedItems f.statics).map (.publicAccess, ·) ++ after ∧
      ∀ x ∈ before ++ after, x.2.isShared = false := by
  let items (ss : List Section) : List (Visibility × Item) :=
    ss.flatMap fun s => (s.itemsIn m root o f).map (s.visibility, ·)
  have hothers {ss : List Section} (hss : .sharedState ∉ ss) :
      ∀ x ∈ items ss, x.2.isShared = false := by
    intro x hx
    obtain ⟨s, hs, hx⟩ := List.mem_flatMap.mp hx
    obtain ⟨y, hy, rfl⟩ := List.mem_map.mp hx
    rw [Section.itemsIn] at hy
    split at hy
    · exact isShared_of_mem_items (fun h => hss (h ▸ hs)) hy
    · cases hy
  have hshared : Section.sharedState.itemsIn m root o f = sharedItems f.statics := by
    rw [Section.itemsIn]
    split
    · rfl
    · rename_i h
      have hnone : f.statics = [] := by simpa [Section.applies] using h
      rw [hnone]
      rfl
  refine ⟨items [.inclusion, .references, .publicAttributes],
    items [.initializer, .publicOperations, .protectedMembers, .privateMembers, .textMethod],
    ?_, fun x hx => ?_⟩
  · rw [← hshared]
    simp [classItems, Section.layout, items, Section.visibility]
  · exact (List.mem_append.mp hx).elim (hothers (by decide) x) (hothers (by decide) x)

end Classes

theorem stubs_interfaceItems (ms : Members) (v : Visibility) :
    (readUnder v (interfaceItems ms)).flatMap Item.stubs =
      (bucket Operation.access? v ms.operations).map fun op => (op.name, op.signature) := by
  cases v <;> simp [interfaceItems, readUnder_append, readUnder_map, stubs_stubItems]

/-- The word in a model for a visibility is its marker in a source. -/
theorem ofMarker?_eq_some {s : String} {v : Visibility} :
    Visibility.ofMarker? s = some v ↔ s = v.marker := by
  unfold Visibility.ofMarker?
  cases v <;> grind [Visibility.marker]

/-- What the items of a class say about its attributes, when it holds references under some
names. -/
structure AttributesLand (o : Options) (held : List String) (as : List Attribute)
    (xs : List (Visibility × Item)) : Prop where
  readers : ∀ v, ((readUnder v xs).flatMap Item.readable).Perm (referencesIn held v ++
    (as.filter fun a => !a.isStatic && a.visibility == v.marker).map (·.name))
  writers : ∀ v, (readUnder v xs).flatMap Item.writable = referencesIn held v ++
    (as.filter fun a => !a.isStatic && a.visibility == v.marker && !a.isReadOnly).map (·.name)
  style : ∀ x ∈ xs, x.2.isAccess = true →
    x = (.publicAccess, .accessors held) ∨ x.2.isDeclaration = o.declaredAccessors
  /-- Static attributes are assigned in one place, constants first. -/
  shared : ∃ (before : List (Visibility × Item)) (statics : List Item)
    (after : List (Visibility × Item)), xs = before ++ statics.map (.publicAccess, ·) ++ after ∧
    (∀ x ∈ statics, x.isShared = true) ∧ (∀ x ∈ before ++ after, x.2.isShared = false) ∧
    statics.flatMap Item.constants =
      (as.filter fun a => a.isStatic && a.isReadOnly).map (fun a => (a.name, initialValue a)) ∧
    statics.flatMap Item.classVariables =
      (as.filter fun a => a.isStatic && !a.isReadOnly).map fun a => (a.name, initialValue a)

theorem attributesIn_of (m : Model) (root i : ElementId) (ms : Members) (v : Visibility) :
    (ClassFacts.of m root i ms).attributesIn v =
      ms.attributes.filter fun a => !a.isStatic && a.visibility == v.marker := by
  rw [ClassFacts.attributesIn, bucket, ClassFacts.of, Members.attributesWith, List.filter_filter]
  refine List.filter_congr fun a _ => ?_
  rw [Attribute.access?, Bool.eq_iff_iff]
  simp [ofMarker?_eq_some, and_comm]

theorem attributesLand_of (m : Model) (root i : ElementId) (o : Options) (ms : Members) :
    AttributesLand o ((m.held i).map (·.stem)) ms.attributes
      (classItems m root o (ClassFacts.of m root i ms)) where
  readers v := by
    rw [← attributesIn_of m root i]
    exact readable_classItems m root o _ v
  writers v := by
    rw [writable_classItems, attributesIn_of, List.filter_filter]
    simp only [Bool.and_comm]
    rfl
  style x hx := style_classItems hx
  shared := by
    have hstatics : (ClassFacts.of m root i ms).statics = ms.attributes.filter (·.isStatic) := by
      simp [ClassFacts.of, Members.attributesWith]
    obtain ⟨before, after, hitems, hothers⟩ :=
      shared_classItems m root o (ClassFacts.of m root i ms)
    refine ⟨before, _, after, hitems, fun x hx => isShared_of_mem _ hx, hothers, ?_, ?_⟩
    · rw [constants_sharedItems, hstatics, List.filter_filter]
      simp only [Bool.and_comm]
    · rw [classVariables_sharedItems, hstatics, List.filter_filter]
      simp only [Bool.and_comm]

/-- All parameters of an operation are shown except for results. -/
theorem signature_eq (op : Operation) :
    op.signature = (op.parameters.filter (·.direction ≠ .result)).map (·.name) := by
  rw [Operation.signature]
  congr 2
  funext p
  exact (decide_not ..).symm

theorem bucket_operations (ops : List Operation) (v : Visibility) :
    bucket Operation.access? v ops = ops.filter (·.visibility == v.marker) := by
  refine List.filter_congr fun op _ => ?_
  rw [Operation.access?, Bool.eq_iff_iff]
  simp [ofMarker?_eq_some]

/-- What opens the body of an element. -/
def bodyHeader (m : Model) (root : ElementId) (e : Element) (ms : Members) : String :=
  if e.isClass then classHeader m root (ClassFacts.of m root e.id ms) else "module " ++ e.name

/-- The members of an element land in the body of its file, each under its own visibility, and
there is no other reading of the body if names are plain. -/
theorem members_land {m : Model} (hm : m.Unbroken) {i : ElementId} {e : Element} {ms : Members}
    (he : m.element? i = some e) (hk : e.kind.members? = some ms) (ha : e.isAnnotation = false)
    (root : ElementId) (o : Options) : ∃ f body xs w, render? m root o i = some f ∧
      HasBody (lines f.content) (bodyHeader m root e ms) body ∧ Reads .publicAccess body xs w ∧
      (∀ v, (readUnder v xs).flatMap Item.stubs =
        (ms.operations.filter (·.visibility == v.marker)).map fun op =>
          (op.name, (op.parameters.filter (·.direction ≠ .result)).map (·.name))) ∧
      (e.isClass = true → AttributesLand o ((m.held e.id).map (·.stem)) ms.attributes xs) ∧
      (m.Plain → ∀ ys w', Reads .publicAccess body ys w' → (∀ y ∈ ys, y.2.Plain) → ys = xs) := by
  have hu := isPad_indentUnit o
  have hmem : e ∈ m.elements := Array.mem_of_getElem? he
  have hms : ms.Unbroken := (hm e hmem).2 ms hk
  cases hkind : e.kind with
  | package owned => simp [hkind, ElementKind.members?] at hk
  | other label => simp [hkind, ElementKind.members?] at hk
  | classOf ms' =>
    obtain rfl : ms' = ms := by simpa [hkind, ElementKind.members?] using hk
    have hclass : e.isClass = true := by rw [Element.isClass, hkind]
    obtain ⟨d, hbody⟩ := classFile_hasBody hm hu root o e ms'
    obtain ⟨w, hread⟩ := Reading.classBody hm (ClassFacts.unbroken_of hm hms root e.id) root o
    have hreads := hread o.indentUnit d hu
    refine ⟨_, _, _, w, render?_class m root o he hkind ha, ?_, hreads, fun v => ?_, fun _ => ?_,
      fun hplain ys w' hys hy => ?_⟩
    · rw [lines_print (classFile_ne_nil m root o e ms') (hbody.unbroken hreads.unbroken),
        bodyHeader, if_pos hclass]
      exact hbody
    · rw [stubs_classItems, ← bucket_operations]
      simp only [signature_eq]
      rfl
    · exact attributesLand_of m root e.id o ms'
    · have hitems := plain_classItems hplain ((hplain e hmem).2 ms' hk) root e.id o
      exact (hreads.unique hys hitems hy).1
  | interfaceOf ms' =>
    obtain rfl : ms' = ms := by simpa [hkind, ElementKind.members?] using hk
    have hclass : e.isClass = false := by rw [Element.isClass, hkind]
    have hbody := interfaceFile_hasBody hu o (hm e hmem).1 ms'
    obtain ⟨w, hread⟩ := Reading.interfaceBody o hms
    have hreads := hread o.indentUnit 1 hu
    refine ⟨⟨fileName m i, print o (interfaceFile o e ms')⟩, _, _, w, ?_, ?_, hreads, fun v => ?_,
      fun h => ?_, fun hplain ys w' hys hy => ?_⟩
    · simp [render?, he, blocks?, hkind]
    · rw [lines_print (interfaceFile_ne_nil o e ms') (hbody.unbroken hreads.unbroken), bodyHeader,
        if_neg (by simp [hclass])]
      exact hbody
    · rw [stubs_interfaceItems, bucket_operations]
      simp only [signature_eq]
    · exact absurd (hclass.symm.trans h) Bool.false_ne_true
    · have hitems := plain_interfaceItems ((hplain e hmem).2 ms' hk)
      exact (hreads.unique hys hitems hy).1

theorem billing_members : ∃ f body xs w,
    render? (billing intruding) Model.root {} 2 = some f ∧
    HasBody (lines f.content) "class Invoice" body ∧ Reads .publicAccess body xs w ∧
    (readUnder .publicAccess xs).flatMap Item.stubs = [("pay", ["amount"])] ∧
    (readUnder .privateAccess xs).flatMap Item.stubs = [("check", [])] ∧
    (readUnder .protectedAccess xs).flatMap Item.writable = [] ∧
    (∃ (before : List (Visibility × Item)) (statics : List Item) (after : List (Visibility × Item)),
      xs = before ++ statics.map (.publicAccess, ·) ++ after ∧
      statics.flatMap Item.constants = [("LIMIT", "9")] ∧
      statics.flatMap Item.classVariables = [("count", "nil")]) ∧
    ∀ ys w', Reads .publicAccess body ys w' → (∀ y ∈ ys, y.2.Plain) → ys = xs := by
  have hm : (billing intruding).Unbroken := by decide +kernel
  have hplain : (billing intruding).Plain := by decide +kernel
  obtain ⟨f, body, xs, w, hf, hbody, hread, hstubs, hland, hunique⟩ :=
    members_land hm (i := 2) rfl rfl rfl Model.root {}
  have hland := hland rfl
  obtain ⟨before, statics, after, hxs, -, -, hconstants, hvariables⟩ := hland.shared
  exact ⟨f, body, xs, w, hf, hbody, hread, hstubs .publicAccess, hstubs .privateAccess,
    hland.writers .protectedAccess, ⟨before, statics, after, hxs, hconstants, hvariables⟩,
    hunique hplain⟩

end ClassScribe.Source
