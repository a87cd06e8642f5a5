import ClassScribe.Proofs.Model.Unbroken
import ClassScribe.Proofs.Source.Reading

/-! # What bodies consist of

The items of a body, section by section, said without blocks. Reading the blocks gives these items,
each under the visibility of its section: only the restricted sections leave a visibility other
than the public one behind, and what stands after them begins with a marker of its own.
-/
namespace ClassScribe.Source
open Text

def declarationItems (as : List Attribute) : List Item :=
  (if (as.filter (·.isReadOnly)).isEmpty then []
    else [.readers ((as.filter (·.isReadOnly)).map (·.name))]) ++
  if (as.filter (!·.isReadOnly)).isEmpty then []
    else [.accessors ((as.filter (!·.isReadOnly)).map (·.name))]

def methodItems (a : Attribute) : List Item :=
  .getter a.name :: if a.isReadOnly then [] else [.setter a.name]

def accessorItems (o : Options) (as : List Attribute) : List Item :=
  if o.declaredAccessors then declarationItems as else as.flatMap methodItems

theorem accessorItems_nil (o : Options) : accessorItems o [] = [] := by
  rw [accessorItems]
  split <;> rfl

def constantItems (a : Attribute) : List Item :=
  .constant a.name (initialValue a) ::
    if a.access? = some .privateAccess then [.hiddenConstant a.name] else []

def sharedItems (statics : List Attribute) : List Item :=
  (statics.filter (·.isReadOnly)).flatMap constantItems ++
    (statics.filter (!·.isReadOnly)).map fun a => .classVariable a.name (initialValue a)

def stubItems (ops : List Operation) : List Item := ops.map fun op => .stub op.name op.signature

/-- What an initializer encloses. -/
def assignments (names : List String) (held : List (String × String)) : List String :=
  names.map (fun n => "@" ++ n ++ " = " ++ n) ++
    held.map fun x => "@" ++ x.1 ++ " = " ++ x.2 ++ ".new"

theorem initializer_eq (as : List Attribute) (held : List (String × String)) :
    initializer as held = .scope (signature "initialize" (as.map (·.name)))
      ((assignments (as.map (·.name)) held).map .line) := by
  simp only [initializer, assignments, List.map_append, List.map_map]
  rfl

theorem texts_initializer (names : List String) (held : List (String × String)) :
    (Item.initializer names held).texts =
      signature "initialize" names :: assignments names held ++ ["end"] := by
  simp [Item.texts, assignments]

section Members

variable {o : Options} {as : List Attribute} {x : Item}

theorem cases_accessorItems (h : x ∈ accessorItems o as) :
    o.declaredAccessors = true ∧ (∃ p : Attribute → Bool,
      x = .readers ((as.filter p).map (·.name)) ∨ x = .accessors ((as.filter p).map (·.name))) ∨
    o.declaredAccessors = false ∧ ∃ a ∈ as, x = .getter a.name ∨ x = .setter a.name := by
  rw [accessorItems] at h
  split at h
  · rename_i ho
    refine .inl ⟨ho, ?_⟩
    rcases List.mem_append.mp h with h | h
    all_goals
      split at h
      · cases h
    · exact ⟨_, .inl (List.mem_singleton.mp h)⟩
    · exact ⟨_, .inr (List.mem_singleton.mp h)⟩
  · rename_i ho
    refine .inr ⟨Bool.eq_false_iff.mpr ho, ?_⟩
    obtain ⟨a, ha, h⟩ := List.mem_flatMap.mp h
    rcases List.mem_cons.mp h with h | h
    · exact ⟨a, ha, .inl h⟩
    · split at h
      · cases h
      · exact ⟨a, ha, .inr (List.mem_singleton.mp h)⟩

theorem cases_sharedItems (h : x ∈ sharedItems as) : ∃ a ∈ as,
    x = .constant a.name (initialValue a) ∨ x = .hiddenConstant a.name ∨
      x = .classVariable a.name (initialValue a) := by
  rcases List.mem_append.mp h with h | h
  · obtain ⟨a, ha, h⟩ := List.mem_flatMap.mp h
    refine ⟨a, List.mem_of_mem_filter ha, ?_⟩
    rcases List.mem_cons.mp h with h | h
    · exact .inl h
    · split at h
      · exact .inr (.inl (List.mem_singleton.mp h))
      · cases h
  · obtain ⟨a, ha, rfl⟩ := List.mem_map.mp h
    exact ⟨a, List.mem_of_mem_filter ha, .inr (.inr rfl)⟩

end Members

namespace Reading

variable {v : Visibility} {as : List Attribute} {ops : List Operation}

theorem accessorLines (v : Visibility) (o : Options) (h : ∀ a ∈ as, a.Unbroken) :
    Reading v (accessorLines o as) ((declarationItems as).map (v, ·)) v := by
  have hnames (p : Attribute → Bool) : Unbroken (symbols ((as.filter p).map (·.name))) := by
    refine unbroken_symbols fun s hs => ?_
    obtain ⟨a, ha, rfl⟩ := List.mem_map.mp hs
    exact (h a (List.mem_of_mem_filter ha)).1
  have hdocs : Reading v (as.flatMap fun a => Source.documentation o a.documentation) [] v := by
    have hnone : as.flatMap (fun _ => ([] : List Item)) = [] :=
      List.flatMap_eq_nil_iff.mpr fun _ _ => rfl
    have hd := flatMap (g := fun _ => []) fun a (_ : a ∈ as) => documentation v o a.documentation
    rwa [hnone] at hd
  have hread := line v (.readers _) rfl (Unbroken.append (by decide) (hnames (·.isReadOnly)))
  have hwrite := line v (.accessors _) rfl (Unbroken.append (by decide) (hnames (!·.isReadOnly)))
  rw [declarationItems, List.map_append]
  exact (hdocs.append (guarded hread)).append (guarded hwrite)

theorem accessorGroups (v : Visibility) (o : Options) {a : Attribute} (h : a.Unbroken) :
    Reading v (separated (accessorGroups o a)) ((methodItems a).map (v, ·)) v := by
  have hname {pre : String} (hpre : Unbroken pre) : Unbroken (pre ++ a.name) := hpre.append h.1
  have hget : Reading v [Source.method ("def " ++ a.name) ("@" ++ a.name)]
      [(v, .getter a.name)] v :=
    method v (.getter a.name) rfl (hname (by decide)) (hname (by decide))
  have hset :
      Reading v [Source.method ("def " ++ a.name ++ "=(value)") ("@" ++ a.name ++ " = value")]
        [(v, .setter a.name)] v :=
    method v (.setter a.name) rfl ((hname (by decide)).append (by decide))
      ((hname (by decide)).append (by decide))
  have hfirst := (documentation v o a.documentation).append hget
  rw [Source.accessorGroups, methodItems]
  split
  · rw [separated_singleton]
    exact hfirst
  · rw [separated_cons_cons, separated_singleton]
    exact hfirst.append hset.gap

theorem accessors (v : Visibility) (o : Options) (h : ∀ a ∈ as, a.Unbroken) :
    Reading v (accessors o as) ((accessorItems o as).map (v, ·)) v := by
  rw [Source.accessors, accessorItems]
  split
  · exact accessorLines v o h
  · exact separated_flatMap fun a ha => accessorGroups v o (h a ha)

theorem constantBlocks (v : Visibility) {a : Attribute} (h : a.Unbroken) :
    Reading v (constantBlocks a) ((constantItems a).map (v, ·)) v := by
  have hvalue : Reading v [.line (a.name ++ " = " ++ initialValue a)]
      [(v, .constant a.name (initialValue a))] v :=
    line v (.constant a.name (initialValue a)) rfl
      ((h.1.append (by decide)).append (unbroken_initialValue h))
  have hhide : Reading v [.line ("private_constant :" ++ a.name)]
      [(v, .hiddenConstant a.name)] v :=
    line v (.hiddenConstant a.name) rfl (Unbroken.append (by decide) h.1)
  rw [Source.constantBlocks, constantItems]
  split
  · exact hvalue.append hhide
  · exact hvalue

theorem sharedState (v : Visibility) {statics : List Attribute} (h : ∀ a ∈ statics, a.Unbroken) :
    Reading v (sharedState statics) ((sharedItems statics).map (v, ·)) v := by
  rw [Source.sharedState, sharedItems, List.map_append]
  refine append (flatMap fun a ha => constantBlocks v (h a (List.mem_of_mem_filter ha))) ?_
  refine map fun a ha => ?_
  have ha := h a (List.mem_of_mem_filter ha)
  exact line v (.classVariable a.name (initialValue a)) rfl
    (((Unbroken.append (by decide) ha.1).append (by decide)).append (unbroken_initialValue ha))

theorem initializer (v : Visibility) {held : List (String × String)} (h : ∀ a ∈ as, a.Unbroken)
    (hh : ∀ x ∈ held, Unbroken x.1 ∧ Unbroken x.2) :
    Reading v [initializer as held] [(v, .initializer (as.map (·.name)) held)] v := by
  have hnames : ∀ s ∈ as.map (·.name), Unbroken s := by
    intro s hs
    obtain ⟨a, ha, rfl⟩ := List.mem_map.mp hs
    exact (h a ha).1
  have hinside : ∀ s ∈ assignments (as.map (·.name)) held, Unbroken s := by
    intro s hs
    rcases List.mem_append.mp hs with hs | hs
    · obtain ⟨n, hn, rfl⟩ := List.mem_map.mp hs
      have hn := hnames n hn
      exact ((Unbroken.append (by decide) hn).append (by decide)).append hn
    · obtain ⟨x, hx, rfl⟩ := List.mem_map.mp hs
      obtain ⟨hm, hc⟩ := hh x hx
      exact (((Unbroken.append (by decide) hm).append (by decide)).append hc).append (by decide)
  have hheader : Unbroken "initialize" := by decide
  rw [initializer_eq]
  exact scope v _ (texts_initializer _ held)
    (List.forall_mem_cons.mpr ⟨unbroken_signature hheader hnames, hinside⟩)

theorem stubs (v : Visibility) (o : Options) (h : ∀ op ∈ ops, op.Unbroken) :
    Reading v (stubs o ops) ((stubItems ops).map (v, ·)) v := by
  refine separated_map fun op hop => ?_
  have hstub := method v (.stub op.name op.signature) rfl
    (unbroken_signature (h op hop).1 (h op hop).signature) (by decide)
  exact (documentation v o op.documentation).append hstub

theorem separated_stubs (v : Visibility) (o : Options) (h : ∀ op ∈ ops, op.Unbroken) :
    Reading v (separated (if ops.isEmpty then [] else [Source.stubs o ops]))
      ((stubItems ops).map (v, ·)) v := by
  refine separated_guarded (fun he => ?_) (stubs v o h)
  rw [List.isEmpty_iff.mp he]
  rfl

theorem restricted (v u : Visibility) (o : Options) (ha : ∀ a ∈ as, a.Unbroken)
    (ho : ∀ op ∈ ops, op.Unbroken) :
    Reading v [restricted o u as ops] ((accessorItems o as ++ stubItems ops).map (u, ·)) u := by
  have hnone : as.isEmpty = true → accessorItems o as = [] := by
    intro he
    rw [List.isEmpty_iff.mp he, accessorItems_nil]
  rw [List.map_append]
  exact under u ((separated_guarded hnone (accessors u o ha)).separated_append
    (separated_stubs u o ho))

end Reading

namespace Section

/-- The visibility that the items of a section are read under. -/
def visibility : Section → Visibility
  | protectedMembers => .protectedAccess
  | privateMembers => .privateAccess
  | _ => .publicAccess

def items (m : Model) (root : ElementId) (o : Options) (f : ClassFacts) : Section → List Item
  | inclusion => f.interface.toList.map fun i => .inclusion (m.name i)
  | references => [.accessors (f.held.map (·.stem))]
  | publicAttributes => accessorItems o (f.attributesIn .publicAccess)
  | sharedState => sharedItems f.statics
  | initializer =>
    [.initializer (f.instanceAttributes.map (·.name))
      (f.held.map fun h => (h.stem, constantName m root h.element))]
  | publicOperations => stubItems (f.operationsIn .publicAccess)
  | protectedMembers =>
    accessorItems o (f.attributesIn .protectedAccess) ++ stubItems (f.operationsIn .protectedAccess)
  | privateMembers =>
    accessorItems o (f.attributesIn .privateAccess) ++ stubItems (f.operationsIn .privateAccess)
  | textMethod => [.display]

/-- The items of a section in a class that has it. -/
def itemsIn (m : Model) (root : ElementId) (o : Options) (f : ClassFacts) (s : Section) :
    List Item :=
  if s.applies f o then s.items m root o f else []

end Section

/-- The items of the body of a class, each with the visibility it is read under. -/
def classItems (m : Model) (root : ElementId) (o : Options) (f : ClassFacts) :
    List (Visibility × Item) :=
  Section.layout.flatMap fun s => (s.itemsIn m root o f).map (s.visibility, ·)

section Classes

variable {m : Model} {root : ElementId} {o : Options} {f : ClassFacts}

/-- What a section of a class can have. -/
theorem cases_items {s : Section} {x : Item} (h : x ∈ s.items m root o f) :
    (∃ v, x ∈ accessorItems o (f.attributesIn v)) ∨ (∃ v, x ∈ stubItems (f.operationsIn v)) ∨
      s = .references ∧ x = .accessors (f.held.map (·.stem)) ∨
      s = .sharedState ∧ x ∈ sharedItems f.statics ∨ (∃ i, x = .inclusion (m.name i)) ∨
      x = .initializer (f.instanceAttributes.map (·.name))
        (f.held.map fun h => (h.stem, constantName m root h.element)) ∨ x = .display := by
  cases s with
  | inclusion =>
    obtain ⟨i, -, h⟩ := List.mem_map.mp h
    exact .inr (.inr (.inr (.inr (.inl ⟨i, h.symm⟩))))
  | references => exact .inr (.inr (.inl ⟨rfl, List.mem_singleton.mp h⟩))
  | publicAttributes => exact .inl ⟨_, h⟩
  | sharedState => exact .inr (.inr (.inr (.inl ⟨rfl, h⟩)))
  | initializer => exact .inr (.inr (.inr (.inr (.inr (.inl (List.mem_singleton.mp h))))))
  | publicOperations => exact .inr (.inl ⟨_, h⟩)
  | protectedMembers => exact (List.mem_append.mp h).imp (fun h => ⟨_, h⟩) fun h => .inl ⟨_, h⟩
  | privateMembers => exact (List.mem_append.mp h).imp (fun h => ⟨_, h⟩) fun h => .inl ⟨_, h⟩
  | textMethod => exact .inr (.inr (.inr (.inr (.inr (.inr (List.mem_singleton.mp h))))))

theorem mem_classItems {x : Visibility × Item} (h : x ∈ classItems m root o f) :
    ∃ s : Section, x.1 = s.visibility ∧ x.2 ∈ s.items m root o f := by
  obtain ⟨s, -, hx⟩ := List.mem_flatMap.mp h
  obtain ⟨y, hy, rfl⟩ := List.mem_map.mp hx
  rw [Section.itemsIn] at hy
  split at hy
  · exact ⟨s, rfl, hy⟩
  · cases hy

end Classes

structure ClassFacts.Unbroken (f : ClassFacts) : Prop where
  held : ∀ h ∈ f.held, Text.Unbroken h.stem
  instanceAttributes : ∀ a ∈ f.instanceAttributes, a.Unbroken
  statics : ∀ a ∈ f.statics, a.Unbroken
  operations : ∀ op ∈ f.operations, op.Unbroken

theorem ClassFacts.unbroken_of {m : Model} (hm : m.Unbroken) {ms : Members} (hms : ms.Unbroken)
    (root i : ElementId) : (ClassFacts.of m root i ms).Unbroken where
  held := by
    intro h hh
    obtain ⟨j, -, rfl⟩ := List.mem_map.mp hh
    exact hm.stem j
  instanceAttributes := fun a ha => hms.attributes a (List.mem_of_mem_filter ha)
  statics := fun a ha => hms.attributes a (List.mem_of_mem_filter ha)
  operations := hms.operations

namespace Reading

variable {m : Model} {root : ElementId} {o : Options} {f : ClassFacts} {v : Visibility}

/-- A public section can follow where the visibility is still public; the text method has a marker
of its own behind restricted members. -/
def Follows (f : ClassFacts) (v : Visibility) (s : Section) : Prop :=
  s.visibility = .publicAccess → v = .publicAccess ∨
    s = .textMethod ∧
      (f.hasMembersIn .protectedAccess || f.hasMembersIn .privateAccess) = true

theorem section_blocks (hm : m.Unbroken) (hf : f.Unbroken) (root : ElementId) (o : Options)
    {s : Section} (hs : Follows f v s) :
    Reading v (s.blocks m root o f) ((s.items m root o f).map (s.visibility, ·)) s.visibility := by
  have hattributes (u : Visibility) : ∀ a ∈ f.attributesIn u, a.Unbroken :=
    fun a ha => hf.instanceAttributes a (List.mem_of_mem_filter ha)
  have hoperations (u : Visibility) : ∀ op ∈ f.operationsIn u, op.Unbroken :=
    fun op hop => hf.operations op (List.mem_of_mem_filter hop)
  have hpublic (hv : s.visibility = .publicAccess) (ht : s ≠ .textMethod) : v = .publicAccess :=
    (hs hv).resolve_right fun h => ht h.1
  cases s with
  | inclusion =>
    obtain rfl := hpublic rfl (by decide)
    exact map fun i _ => line _ (.inclusion _) rfl (Unbroken.append (by decide) (hm.name i))
  | references =>
    obtain rfl := hpublic rfl (by decide)
    have hnames : ∀ s ∈ f.held.map (·.stem), Unbroken s := by
      intro s hs
      obtain ⟨h, hh, rfl⟩ := List.mem_map.mp hs
      exact hf.held h hh
    exact line _ (.accessors _) rfl (Unbroken.append (by decide) (unbroken_symbols hnames))
  | publicAttributes =>
    obtain rfl := hpublic rfl (by decide)
    exact accessors _ o (hattributes _)
  | sharedState =>
    obtain rfl := hpublic rfl (by decide)
    exact sharedState _ hf.statics
  | initializer =>
    obtain rfl := hpublic rfl (by decide)
    refine initializer _ hf.instanceAttributes fun x hx => ?_
    obtain ⟨h, hh, rfl⟩ := List.mem_map.mp hx
    exact ⟨hf.held h hh, hm.constantName root h.element⟩
  | publicOperations =>
    obtain rfl := hpublic rfl (by decide)
    exact stubs _ o (hoperations _)
  | protectedMembers => exact restricted v _ o (hattributes _) (hoperations _)
  | privateMembers => exact restricted v _ o (hattributes _) (hoperations _)
  | textMethod =>
    have hdisplay : Reading .publicAccess [Source.textMethod] [(.publicAccess, .display)]
        .publicAccess :=
      method _ .display rfl (by decide) (by decide)
    rw [Section.blocks]
    split
    · exact under .publicAccess hdisplay
    · rename_i hnone
      obtain rfl := (hs rfl).resolve_right fun h => hnone h.2
      exact hdisplay

end Reading

theorem plan_map {α : Type} (f : ClassFacts) (o : Options) (g : Section → α) :
    (plan f o).map g = Section.layout.flatMap fun s => if s.applies f o then [g s] else [] := by
  rw [plan]
  induction Section.layout with
  | nil => rfl
  | cons s ss ih =>
    rw [List.flatMap_cons, ← ih]
    cases h : s.applies f o <;> simp [h]

namespace Reading

variable {m : Model} {root : ElementId} {o : Options} {f : ClassFacts} {v : Visibility}

theorem separated_section (hm : m.Unbroken) (hf : f.Unbroken) (root : ElementId) (o : Options)
    {s : Section} (hs : Follows f v s) :
    Reading v (separated (if s.applies f o then [s.blocks m root o f] else []))
      ((s.itemsIn m root o f).map (s.visibility, ·)) (if s.applies f o then s.visibility else v) := by
  rw [Section.itemsIn]
  cases s.applies f o with
  | true =>
    rw [if_pos rfl, if_pos rfl, if_pos rfl, separated_singleton]
    exact section_blocks hm hf root o hs
  | false =>
    rw [if_neg Bool.false_ne_true, if_neg Bool.false_ne_true, if_neg Bool.false_ne_true,
      separated_nil]
    exact nil v

/-- The public sections leave the visibility as it is at the head of a body. -/
theorem separated_public (hm : m.Unbroken) (hf : f.Unbroken) (root : ElementId) (o : Options)
    {ss : List Section} (hs : ∀ s ∈ ss, s.visibility = .publicAccess) :
    Reading .publicAccess
      (separated (ss.flatMap fun s => if s.applies f o then [s.blocks m root o f] else []))
      (ss.flatMap fun s => (s.itemsIn m root o f).map (s.visibility, ·)) .publicAccess := by
  induction ss with
  | nil =>
    rw [List.flatMap_nil, separated_nil]
    exact nil _
  | cons s ss ih =>
    obtain ⟨hv, hss⟩ := List.forall_mem_cons.mp hs
    have hfirst := separated_section hm hf root o (s := s) (v := .publicAccess) fun _ => .inl rfl
    rw [hv, ite_self] at hfirst
    rw [List.flatMap_cons, List.flatMap_cons, hv]
    exact hfirst.separated_append (ih hss)

theorem classBody (hm : m.Unbroken) (hf : f.Unbroken) (root : ElementId) (o : Options) :
    ∃ w, Reading .publicAccess (classBody m root o f) (classItems m root o f) w := by
  let opening : List Section :=
    [.inclusion, .references, .publicAttributes, .sharedState, .initializer, .publicOperations]
  have hlayout : Section.layout =
    opening ++ ([.protectedMembers] ++ ([.privateMembers] ++ [.textMethod])) := rfl
  have hopening : ∀ s ∈ opening, s.visibility = .publicAccess := by decide
  have hprivate (v : Visibility) : Follows f v .privateMembers := nofun
  -- only a restricted section leaves another visibility to the text method
  have htext : Follows f (if Section.privateMembers.applies f o then .privateAccess
      else if Section.protectedMembers.applies f o then .protectedAccess else .publicAccess)
      .textMethod := by
    intro _
    by_cases hp : f.hasMembersIn .protectedAccess = true <;>
      by_cases hq : f.hasMembersIn .privateAccess = true <;>
      simp [Section.applies, hp, hq]
  rw [Source.classBody, plan_map, classItems, hlayout]
  simp only [List.flatMap_append, List.flatMap_singleton]
  exact ⟨_, (separated_public hm hf root o hopening).separated_append
    ((separated_section hm hf root o (s := .protectedMembers) nofun).separated_append
      ((separated_section hm hf root o (hprivate _)).separated_append
        (separated_section hm hf root o htext)))⟩

end Reading

def restrictedStubs (o : Options) (v : Visibility) (ops : List Operation) : List (List Block) :=
  if ops.isEmpty then [] else [[restricted o v [] ops]]

/-- What the module of an interface encloses. -/
def interfaceBody (o : Options) (ms : Members) : List Block :=
  let operations (v : Visibility) : List Operation := bucket Operation.access? v ms.operations
  separated
    ((if (operations .publicAccess).isEmpty then [] else [stubs o (operations .publicAccess)]) ++
      restrictedStubs o .protectedAccess (operations .protectedAccess) ++
      restrictedStubs o .privateAccess (operations .privateAccess))

theorem interfaceFile_eq (o : Options) (e : Element) (ms : Members) : interfaceFile o e ms =
    documentation o e.documentation ++ [.scope ("module " ++ e.name) (interfaceBody o ms)] := rfl

def interfaceItems (ms : Members) : List (Visibility × Item) :=
  [.publicAccess, .protectedAccess, .privateAccess].flatMap fun v =>
    (stubItems (bucket Operation.access? v ms.operations)).map (v, ·)

namespace Reading

theorem restrictedStubs (v u : Visibility) (o : Options) {ops : List Operation}
    (h : ∀ op ∈ ops, op.Unbroken) : Reading v (separated (restrictedStubs o u ops))
      ((stubItems ops).map (u, ·)) (if ops.isEmpty then v else u) := by
  cases ops with
  | nil => exact nil v
  | cons op ops =>
    have hrestricted : Reading v [Source.restricted o u [] (op :: ops)]
      ((accessorItems o [] ++ stubItems (op :: ops)).map (u, ·)) u := restricted v u o nofun h
    rw [accessorItems_nil, List.nil_append] at hrestricted
    rw [Source.restrictedStubs, List.isEmpty_cons, if_neg Bool.false_ne_true,
      if_neg Bool.false_ne_true, separated_singleton]
    exact hrestricted

theorem interfaceBody (o : Options) {ms : Members} (h : ms.Unbroken) :
    ∃ w, Reading .publicAccess (interfaceBody o ms) (interfaceItems ms) w := by
  have hbucket (v : Visibility) : ∀ op ∈ bucket Operation.access? v ms.operations, op.Unbroken :=
    fun op hop => h.operations op (List.mem_of_mem_filter hop)
  rw [Source.interfaceBody, interfaceItems]
  simp only [List.flatMap_cons, List.flatMap_nil, List.append_nil]
  rw [← List.append_assoc]
  exact ⟨_, ((separated_stubs _ o (hbucket _)).separated_append
    (restrictedStubs _ _ o (hbucket _))).separated_append (restrictedStubs _ _ o (hbucket _))⟩

end Reading
end ClassScribe.Source
