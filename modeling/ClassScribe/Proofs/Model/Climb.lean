import ClassScribe.Proofs.Model.Subtree

/-! # Loops that follow parents

A loop that goes from an element to its parent reads every element it comes to. In a built model it
ends wherever it began, having come to the packages around the element, innermost first, and it
reads no element that is not there.
-/
namespace ClassScribe.Model

variable {m : Model} {d : Snapshot.Document} {i : ElementId} {e : Element}

theorem parent?_eq (hd : build d = .ok m) (he : m.element? i = some e) :
    m.parent? i = e.parent := by
  obtain ⟨es, hm, hb, -⟩ := build_block hd
  by_cases hi : i = root
  · subst hi
    have hroot : m.element? root = some d.rootEntry.element := by
      rw [element?_eq, hm]
      rfl
    obtain rfl : d.rootEntry.element = e := Option.some.inj (hroot.symm.trans he)
    rw [parent?, hroot]
    rfl
  · obtain ⟨hes, rfl⟩ := mem_of_element? hm hb hi he
    exact parent?_of_block hm hb hes

section Loops

variable {σ α : Type}

/-- A loop that goes up from element to element. At each it stops with a result or changes its
state, and then it reads the parent of the element, for which the element has to be there. -/
inductive Climbs (m : Model) (body : σ → ElementId → α ⊕ σ) (final : σ → α) :
    Option ElementId → σ → α → Prop
  | ended (s : σ) : Climbs m body final none s (final s)
  | stopped {i : ElementId} {s : σ} {x : α} : body s i = .inl x →
      Climbs m body final (some i) s x
  | climbed {i : ElementId} {s s' : σ} {e : Element} {x : α} : body s i = .inr s' →
      m.element? i = some e → Climbs m body final e.parent s' x → Climbs m body final (some i) s x

/-- What a loop makes of the elements that it comes to. -/
def loop (body : σ → ElementId → α ⊕ σ) (final : σ → α) : List ElementId → σ → α
  | [], s => final s
  | i :: is, s => (body s i).elim id (loop body final is)

variable {body : σ → ElementId → α ⊕ σ} {final : σ → α} {current : Option ElementId} {s : σ}
  {x y : α}

theorem Climbs.unique (h : m.Climbs body final current s x) (h' : m.Climbs body final current s y) :
    x = y := by
  induction h with
  | ended s =>
    cases h'
    rfl
  | stopped hs =>
    cases h' with
    | stopped hs' => exact Sum.inl.inj (hs.symm.trans hs')
    | climbed hs' => cases hs.symm.trans hs'
  | climbed hs he _ ih =>
    cases h' with
    | stopped hs' => cases hs.symm.trans hs'
    | climbed hs' he' hrest =>
      obtain rfl := Sum.inr.inj (hs.symm.trans hs')
      obtain rfl := Option.some.inj (he.symm.trans he')
      exact ih hrest

/-- From every element each loop comes to an end, by way of the packages around the element. -/
theorem climbs_lineage (hd : build d = .ok m) (body : σ → ElementId → α ⊕ σ) (final : σ → α)
    (hi : i < m.elements.size) (s : σ) :
    m.Climbs body final (some i) s (loop body final (i :: m.lineage i) s) := by
  induction i using Nat.strongRecOn generalizing s with
  | ind i ih =>
    have he : m.element? i = some m.elements[i] := Array.getElem?_eq_getElem hi
    rw [loop]
    cases hs : body s i with
    | inl x => exact .stopped hs
    | inr s' =>
      refine .climbed hs he ?_
      rw [← parent?_eq hd he]
      cases hp : m.parent? i with
      | none =>
        rw [lineage_of_root hp]
        exact .ended s'
      | some p =>
        rw [lineage_of_parent hp]
        have hlt : p < i := parent?_lt hp
        exact ih p hlt (Nat.lt_trans hlt hi) s'

theorem climbs_iff (hd : build d = .ok m) (hi : i < m.elements.size) :
    m.Climbs body final (some i) s x ↔ x = loop body final (i :: m.lineage i) s := by
  constructor
  · intro h
    exact h.unique (climbs_lineage hd body final hi s)
  · rintro rfl
    exact climbs_lineage hd body final hi s

/-- A loop that begins above an element comes to the packages around it alone. -/
theorem climbs_above_iff (hd : build d = .ok m) (he : m.element? i = some e) :
    m.Climbs body final e.parent s x ↔ x = loop body final (m.lineage i) s := by
  have hi : i < m.elements.size := (Array.getElem?_eq_some_iff.mp he).1
  rw [← parent?_eq hd he]
  cases hp : m.parent? i with
  | none =>
    rw [lineage_of_root hp]
    constructor
    · intro h
      cases h
      rfl
    · rintro rfl
      exact .ended s
  | some p =>
    rw [lineage_of_parent hp]
    exact climbs_iff hd (Nat.lt_trans (parent?_lt hp) hi)

end Loops

/-- Collect the packages below `top`. -/
def gather (top : ElementId) (chain : List ElementId) (i : ElementId) :
    List ElementId ⊕ List ElementId :=
  if i = top then .inl chain.reverse else .inr (chain ++ [i])

/-- Collect all names. -/
def gatherNames (m : Model) (names : List String) (i : ElementId) : String ⊕ List String :=
  .inr (names ++ [m.name i])

/-- Look out for `top`. -/
def seek (top : ElementId) (_ : Unit) (i : ElementId) : Bool ⊕ Unit :=
  if i = top then .inl true else .inr ()

/-- The names from the last to the first, joined by dots. -/
def dotted (names : List String) : String := ".".intercalate names.reverse

theorem loop_gather (top : ElementId) (is chain : List ElementId) :
    loop (gather top) (fun _ => []) is chain =
      if is.contains top then (chain ++ is.takeWhile (· != top)).reverse else [] := by
  induction is generalizing chain with
  | nil => rfl
  | cons i is ih =>
    rw [loop, gather]
    by_cases hi : i = top
    · simp [hi]
    · have hi' : ¬ top = i := fun h => hi h.symm
      simp [hi, hi', ih]

theorem loop_gatherNames (m : Model) (is : List ElementId) (names : List String) :
    loop m.gatherNames dotted is names = dotted (names ++ is.map m.name) := by
  induction is generalizing names with
  | nil =>
    rw [List.map_nil, List.append_nil]
    rfl
  | cons i is ih =>
    rw [List.map_cons, List.append_cons, ← ih]
    rfl

theorem loop_seek (top : ElementId) (is : List ElementId) :
    loop (seek top) (fun _ => false) is () = is.contains top := by
  induction is with
  | nil => rfl
  | cons i is ih =>
    rw [loop, seek]
    by_cases hi : i = top
    · simp [hi]
    · have hi' : ¬ top = i := fun h => hi h.symm
      simp [hi, hi', ih]

variable {top : ElementId}

theorem climbs_ancestors (hd : build d = .ok m) (he : m.element? i = some e) {x : List ElementId} :
    m.Climbs (gather top) (fun _ => []) e.parent [] x ↔ x = m.ancestors i top := by
  rw [climbs_above_iff hd he, loop_gather, List.nil_append, ancestors]

theorem climbs_qualifiedName (hd : build d = .ok m) (he : m.element? i = some e) {x : String} :
    m.Climbs m.gatherNames dotted e.parent [e.name] x ↔ x = m.qualifiedName i := by
  have hname : [e.name] ++ (m.lineage i).map m.name = (i :: m.lineage i).map m.name := by
    rw [List.map_cons, name, he]
    rfl
  rw [climbs_above_iff hd he, loop_gatherNames, hname, dotted, qualifiedName, List.map_reverse]

theorem climbs_isWithin (hd : build d = .ok m) (hi : i < m.elements.size) {x : Bool} :
    m.Climbs (seek top) (fun _ => false) (some i) () x ↔ x = m.isWithin i top := by
  rw [climbs_iff hd hi, loop_seek, isWithin]

end ClassScribe.Model
