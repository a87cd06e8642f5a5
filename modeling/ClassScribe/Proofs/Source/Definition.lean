import ClassScribe.Proofs.Source.Construction
import ClassScribe.Proofs.Source.Plain

/-! # The constant that a file defines

The file of a class opens modules and then the class, so it defines a constant, which can be read
from its lines whatever names the packages have: a dot inside a name opens a module more, and an
empty name a module without one. What other files call the class is this constant.
-/
namespace ClassScribe

namespace Source

/-- Writing other characters for one of a text is splitting the text there and joining it anew. -/
theorem flatMap_splitOn {α : Type} [BEq α] (x : α) (sep xs : List α) :
    (xs.flatMap fun y => if y == x then sep else [y]) = sep.intercalate (xs.splitOn x) := by
  induction xs with
  | nil => simp [List.splitOn_nil]
  | cons y ys ih =>
    obtain ⟨part, parts, hparts⟩ := List.exists_cons_of_ne_nil (List.splitOn_ne_nil x ys)
    rw [List.flatMap_cons, ih, List.splitOn_cons_eq_if_modifyHead, hparts]
    split
    · rw [List.intercalate_cons_cons, List.nil_append]
    · cases parts with
      | nil => simp
      | cons part' parts => simp [List.intercalate_cons_cons]

theorem scopedPath_eq (path : String) :
    scopedPath path = "::".intercalate (moduleNames (some path)) := by
  apply String.toList_inj.mp
  rw [scopedPath, String.toList_ofList, flatMap_splitOn, moduleNames, String.toList_intercalate]
  simp [Function.comp_def]

theorem moduleNames_ne_nil (path : String) : moduleNames (some path) ≠ [] := by
  rw [moduleNames]
  exact mt List.map_eq_nil_iff.mp (List.splitOn_ne_nil _ _)

/-- A constant is the names of the modules of its file and its own. -/
theorem constantName_eq (m : Model) (root i : ElementId) :
    constantName m root i =
      "::".intercalate (moduleNames (m.packagePath? i root) ++ [m.name i]) := by
  unfold constantName
  cases m.packagePath? i root with
  | none => exact String.intercalate_singleton.symm
  | some path =>
    rw [String.intercalate_append_of_ne_nil (moduleNames_ne_nil path) (List.cons_ne_nil _ _),
      ← scopedPath_eq, String.intercalate_singleton]

/-- What stands behind a word that a line begins with. -/
def behind? (word line : String) : Option String :=
  if word.toList <+: unindent line then
    some (String.ofList ((unindent line).drop word.toList.length))
  else none

/-- The modules that lines open, outermost first, and the header of the class inside them. -/
def definition? : List String → Option (List String × String)
  | [] => none
  | l :: ls =>
    match behind? "class " l, behind? "module " l with
    | some header, _ => some ([], header)
    | none, some name => (definition? ls).map fun d => (name :: d.1, d.2)
    | none, none => definition? ls

/-- A line that opens neither a module nor a class. -/
def Silent (l : String) : Prop := behind? "class " l = none ∧ behind? "module " l = none

variable {pad word s : String} {ls back : List String} {d : List String × String}

theorem behind?_word (hpad : IsPad pad) (hw : Solid word) (s : String) :
    behind? word (pad ++ (word ++ s)) = some s := by
  have hline : unindent (pad ++ (word ++ s)) = word.toList ++ s.toList := by
    rw [unindent_padded hpad (solid_append hw s), String.toList_append]
  rw [behind?, hline, if_pos (List.prefix_append _ _), List.drop_left, String.ofList_toList]

/-- Lines that begin with different characters have no word in common. -/
theorem behind?_other {c c' : Char} (hpad : IsPad pad) (hs : Solid s) (hc : s.toList.head? = some c)
    (hw : word.toList.head? = some c') (hne : c' ≠ c) : behind? word (pad ++ s) = none := by
  rw [behind?, unindent_padded hpad hs, if_neg]
  rintro ⟨rest, hrest⟩
  rw [← hrest] at hc
  cases hword : word.toList with
  | nil => simp [hword] at hw
  | cons x xs => simp_all

theorem silent_blank : Silent "" := ⟨by decide, by decide⟩

theorem silent_line {c : Char} (hpad : IsPad pad) (hs : Solid s) (hc : s.toList.head? = some c)
    (hclass : 'c' ≠ c) (hmodule : 'm' ≠ c) : Silent (pad ++ s) :=
  ⟨behind?_other hpad hs hc rfl hclass, behind?_other hpad hs hc rfl hmodule⟩

theorem definition?_silent {front : List String} (h : ∀ l ∈ front, Silent l) (ls : List String) :
    definition? (front ++ ls) = definition? ls := by
  induction front with
  | nil => rfl
  | cons l front ih =>
    obtain ⟨⟨hclass, hmodule⟩, hfront⟩ := List.forall_mem_cons.mp h
    rw [List.cons_append, definition?, hclass, hmodule]
    exact ih hfront

theorem definition?_append (h : definition? ls = some d) (back : List String) :
    definition? (ls ++ back) = some d := by
  induction ls generalizing d with
  | nil => cases h
  | cons l ls ih =>
    rw [definition?] at h
    rw [List.cons_append, definition?]
    split at h
    · exact h
    · obtain ⟨d', hd', rfl⟩ := Option.map_eq_some_iff.mp h
      rw [ih hd']
      rfl
    · exact ih h

theorem definition?_class (hpad : IsPad pad) (header : String) (ls : List String) :
    definition? ((pad ++ ("class " ++ header)) :: ls) = some ([], header) := by
  rw [definition?, behind?_word hpad (by simp [Solid])]

theorem definition?_module (hpad : IsPad pad) (name : String) (ls : List String) :
    definition? ((pad ++ ("module " ++ name)) :: ls) =
      (definition? ls).map fun d => (name :: d.1, d.2) := by
  have hclass : behind? "class " (pad ++ ("module " ++ name)) = none :=
    behind?_other hpad (solid_append (by simp [Solid]) _) (c := 'm') (by simp) rfl (by decide)
  rw [definition?, hclass, behind?_word hpad (by simp [Solid])]

variable {unit : String} {above inner : List Block} {header : String}

theorem silent_documentation (hu : IsPad unit) (depth : Nat) (o : Options) (text : String) :
    ∀ l ∈ layout unit depth (documentation o text), Silent l := by
  intro l hl
  obtain ⟨s, hs⟩ := shows_documentation hu depth o text l hl
  obtain ⟨pad, hpad, rfl⟩ := hs.padded
  exact silent_line hpad (solid_append (by simp [Solid]) s) (c := '#') (by simp) (by decide)
    (by decide)

theorem silent_require (hu : IsPad unit) (m : Model) (root i : ElementId) (depth : Nat)
    (ts : List ElementId) :
    ∀ l ∈ layout unit depth (ts.map fun t => .line (requireLine m root i t)), Silent l := by
  intro l hl
  rw [layout_lines] at hl
  obtain ⟨t, -, rfl⟩ := List.mem_map.mp hl
  obtain ⟨pad, hpad, hline⟩ := padded_line hu depth (requireLine m root i t)
  rw [hline, requireLine_eq, String.append_assoc]
  exact silent_line hpad (solid_append (by simp [Solid]) _) (c := 'r') (by simp) (by decide)
    (by decide)

theorem definition?_inModules (hu : IsPad unit)
    (ha : ∀ depth, ∀ l ∈ layout unit depth above, Silent l)
    (hi : ∀ depth, definition? (layout unit depth inner) = some ([], header)) (names : List String)
    (depth : Nat) :
    definition? (layout unit depth (inModules above inner names)) = some (names, header) := by
  -- A module is one name more in front of what its body defines.
  have hscope (depth : Nat) (name : String) {body : List Block} {d : List String × String}
      (h : definition? (layout unit (depth + 1) body) = some d) :
      definition? (layout unit depth [.scope ("module " ++ name) body]) =
        some (name :: d.1, d.2) := by
    obtain ⟨pad, hpad, hline⟩ := padded_line hu depth ("module " ++ name)
    rw [layout_scope, hline, List.cons_append, definition?_module hpad, definition?_append h,
      Option.map_some]
  induction names generalizing depth with
  | nil => exact hi depth
  | cons name names ih =>
    cases names with
    | nil =>
      rw [inModules, layout_append, definition?_silent (ha depth)]
      exact hscope depth name (hi (depth + 1))
    | cons name' names => exact hscope depth name (ih (depth + 1))

theorem definition?_separated (depth : Nat) {gs : List (List Block)} {g : List Block}
    (h : ∀ g' ∈ gs, ∀ l ∈ layout unit depth g', Silent l) :
    definition? (layout unit depth (separated (gs ++ [g]))) = definition? (layout unit depth g) := by
  induction gs with
  | nil => rw [List.nil_append, separated_singleton]
  | cons g' gs ih =>
    obtain ⟨hfirst, hrest⟩ := List.forall_mem_cons.mp h
    rw [List.cons_append, ← List.singleton_append, separated_append (by simp) (by simp),
      separated_singleton, layout_append, layout_gap, definition?_silent hfirst, ← ih hrest]
    exact definition?_silent (List.forall_mem_singleton.mpr silent_blank) _

/-- What the header of a class has behind its name. -/
def inherits (m : Model) (root i : ElementId) : String :=
  (m.superclasses i).head?.elim "" fun j => " < " ++ constantName m root j

variable {m : Model} {root : ElementId} {o : Options}

/-- The file of a class defines it in the modules of its package path. -/
theorem definition?_classFile (hu : IsPad unit) (e : Element) (ms : Members) :
    definition? (layout unit 0 (classFile m root o e ms)) =
      some (moduleNames (m.packagePath? e.id root), m.name e.id ++ inherits m root e.id) := by
  let f := ClassFacts.of m root e.id ms
  have hheader : classHeader m root f = "class " ++ (m.name e.id ++ inherits m root e.id) :=
    String.append_assoc ..
  have hclass (depth : Nat) : definition? (layout unit depth (documentation o e.documentation ++
      [.scope (classHeader m root f) (classBody m root o f)])) =
      some ([], m.name e.id ++ inherits m root e.id) := by
    obtain ⟨pad, hpad, hline⟩ := padded_line hu depth (classHeader m root f)
    rw [layout_append, definition?_silent (silent_documentation hu depth o _), layout_scope, hline,
      hheader, List.cons_append]
    exact definition?_class hpad _ _
  rw [classFile, requireGroups_eq, definition?_separated]
  · exact definition?_inModules hu (fun depth => silent_documentation hu depth o _) hclass _ 0
  · intro g hg
    obtain ⟨ts, -, rfl⟩ := List.mem_map.mp hg
    exact silent_require hu m root e.id 0 ts

variable {c k : Element} {ms ks : Members}

/-- The file of a class names the class it inherits from, and every class it makes objects of, by a
constant. For every class this is what its own file defines: the names of the modules it opens and
the name in its header. -/
theorem references_defined (hc : m.HasClass c ms) (hk : m.HasClass k ks) (root : ElementId)
    (o : Options) :
    ∃ ls ls', fileLines? m root o c.id = some ls ∧ fileLines? m root o k.id = some ls' ∧
      definition? ls =
        some (moduleNames (m.packagePath? c.id root), m.name c.id ++ inherits m root c.id) ∧
      (o.initializer = true →
        HaveLines ls (Item.initializer ((ms.attributesWith false).map (·.name))
          ((m.held c.id).map fun h => (h.stem, constantName m root h.element))).texts) ∧
      definition? ls' =
        some (moduleNames (m.packagePath? k.id root), m.name k.id ++ inherits m root k.id) ∧
      constantName m root k.id =
        "::".intercalate (moduleNames (m.packagePath? k.id root) ++ [m.name k.id]) := by
  have hdefines (e : Element) (ms : Members) :
      definition? (writtenLines o (classFile m root o e ms)) =
        some (moduleNames (m.packagePath? e.id root), m.name e.id ++ inherits m root e.id) := by
    rw [writtenLines_eq]
    exact definition?_classFile (isPad_indentUnit o) e ms
  exact ⟨_, _, fileLines?_class hc root o, fileLines?_class hk root o, hdefines c ms,
    haveLines_initializer, hdefines k ks, constantName_eq m root k.id⟩

/-- An invoice is a rate and holds one, which is in a package without a name in one with a dot in
its name. -/
def rates : Model where
  elements := #[
    { id := 0, key := "Shop", name := "Shop", documentation := "", stereotype := none,
      parent := none, kind := .package [1, 4] },
    { id := 1, key := "Billing.Tax", name := "Billing.Tax", documentation := "",
      stereotype := none, parent := some 0, kind := .package [2] },
    { id := 2, key := "", name := "", documentation := "", stereotype := none, parent := some 1,
      kind := .package [3] },
    { id := 3, key := "Rate", name := "Rate", documentation := "", stereotype := none,
      parent := some 2, kind := .classOf ⟨[], []⟩ },
    { id := 4, key := "Invoice", name := "Invoice", documentation := "", stereotype := none,
      parent := some 0, kind := .classOf ⟨[], []⟩ }]
  relationships := [.generalization 4 3, .association ⟨"", ⟨4, false⟩, ⟨3, true⟩⟩]

theorem rates_defined : ∃ ls ls',
    fileLines? rates Model.root {} 4 = some ls ∧ fileLines? rates Model.root {} 3 = some ls' ∧
    definition? ls = some ([], "Invoice < Billing::Tax::::Rate") ∧
    HaveLines ls ["def initialize", "@rate = Billing::Tax::::Rate.new", "end"] ∧
    definition? ls' = some (["Billing", "Tax", ""], "Rate") := by
  obtain ⟨ls, ls', hls, hls', hinvoice, hlines, hrate, -⟩ :=
    references_defined (m := rates) (c := rates.elements[4]) (k := rates.elements[3])
      ⟨rfl, rfl, rfl⟩ ⟨rfl, rfl, rfl⟩ Model.root {}
  have hheader : (moduleNames (rates.packagePath? 4 Model.root),
      rates.name 4 ++ inherits rates Model.root 4) = ([], "Invoice < Billing::Tax::::Rate") := by
    decide +kernel
  have htexts : (Item.initializer [] ((rates.held 4).map fun h =>
      (h.stem, constantName rates Model.root h.element))).texts =
      ["def initialize", "@rate = Billing::Tax::::Rate.new", "end"] := by
    decide +kernel
  have hmodules : (moduleNames (rates.packagePath? 3 Model.root),
      rates.name 3 ++ inherits rates Model.root 3) = (["Billing", "Tax", ""], "Rate") := by
    decide +kernel
  exact ⟨ls, ls', hls, hls', hheader ▸ hinvoice, htexts ▸ hlines rfl, hmodules ▸ hrate⟩

end Source
end ClassScribe
