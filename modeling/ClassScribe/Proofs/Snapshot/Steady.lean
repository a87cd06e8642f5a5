import Mathlib.Logic.Relation
import ClassScribe.Proofs.Json.Parts
import ClassScribe.Proofs.Json.Union
import ClassScribe.Proofs.Snapshot.Edit
import ClassScribe.Proofs.Snapshot.RoundTrip

/-! # Snapshots that no edit changes

Every reader of a snapshot is steady: it reads an edited value like the value itself. So a text that
is read as a snapshot is still read as it after any number of edits.
-/
namespace ClassScribe.Snapshot
open Json (Spelling Sketch Reader source of_bind)

section Fields

variable {V ε ρ α : Type} {form : Spelling → V} {F : Format V (Except ε)} {blank : ρ}
  {name : String} {p : Place}

/-- Values are read from nothing but what they are written as. -/
def Shows (read : V → Except ε α) (form : Spelling → V) (write : α → Json) : Prop :=
  ∀ v x, read (form v) = .ok x → v.sketch = (write x).sketched

/-- A format in which texts and flags are read from nothing else. -/
structure Plainly (F : Format V (Except ε)) (form : Spelling → V) : Prop where
  text : Shows F.text form .text
  flag : Shows F.flag form .flag

theorem plainly_source : Plainly source.toFormat Spelling.sketch := by
  refine ⟨fun v x h => ?_, fun v b h => ?_⟩
  · change Json.readString v.sketch = .ok x at h
    unfold Json.readString at h
    split at h
    · rename_i t hv
      rw [hv, ← Except.ok.inj h, Json.sketched]
    · exact absurd h Json.wrong_ne_ok
  · change Json.readFlag v.sketch = .ok b at h
    unfold Json.readFlag at h
    split at h
    · rename_i c hv
      rw [hv, ← Except.ok.inj h, Json.sketched]
    · exact absurd h Json.wrong_ne_ok

theorem plainly_inner (n : Nat) : Plainly Datum.inner (Spelling.buffered n) := by
  refine ⟨fun v x h => ?_, fun v b h => ?_⟩
  · rw [Json.asText_buffered.mp h, Json.sketched]
  · rw [Json.asFlag_buffered.mp h, Json.sketched]

/-- An absent text is written as null. -/
def writeOptional : Option String → Json
  | none => .null
  | some s => .text s

theorem shows_optional : Shows (source.optional source.text) Spelling.sketch writeOptional := by
  intro v x h
  change Json.readOptional Json.readString v.sketch = .ok x at h
  unfold Json.readOptional at h
  split at h
  · rename_i hv
    rw [hv, ← Except.ok.inj h, writeOptional, Json.sketched]
  · cases hread : Json.readString v.sketch with
    | error e =>
      rw [hread] at h
      cases h
    | ok t =>
      rw [hread] at h
      rw [← Except.ok.inj h, plainly_source.text v t hread, writeOptional]

/-- Values without parts are not edited. -/
theorem steady_of_scalar {read : Spelling → Except ε α}
    (h : ∀ v x, read v = .ok x → v.sketch.isScalar = true) : Steady p read := by
  intro v v' he x hx
  exact absurd (h v x hx) (Bool.eq_false_iff.mp he.not_scalar)

theorem apart_field (F : Format V (Except ε)) {β : Type} {name' : String}
    {presence presence' : Presence} {read : V → Except ε α} {read' : V → Except ε β}
    {put : α → ρ → ρ} {put' : β → ρ → ρ}
    (h : ∀ x y r, put x (put' y r) = put' y (put x r)) :
    (F.field name presence read put).Apart (F.field name' presence' read' put') := by
  intro v w q q' hq hq' r
  obtain ⟨x, -, hx⟩ := of_bind hq
  obtain ⟨y, -, hy⟩ := of_bind hq'
  rw [← Except.ok.inj hx, ← Except.ok.inj hy]
  exact h x y r

theorem follows_field (F : Format V (Except ε)) {presence : Presence} {read : V → Except ε α}
    {put : α → ρ → ρ} {default : Option Json} (hsteady : Steady p fun v => read (form v))
    (habsent : ∀ d, default = some d → presence ≠ .required ∧
      ∀ v x, v.sketch = d.sketched → read (form v) = .ok x → put x blank = blank) :
    Follows form blank (F.field name presence read put) ⟨name, default, p⟩ where
  name := rfl
  steady := fun v v' he q hq => by
    obtain ⟨x, hx, hq⟩ := of_bind hq
    have hx' : read (form v') = .ok x := hsteady v v' he x hx
    change (read (form v') >>= _) = _
    rw [hx']
    exact hq
  absent := fun d hd => by
    obtain ⟨hpresence, hput⟩ := habsent d hd
    refine ⟨hpresence, fun v q hv hq => ?_⟩
    obtain ⟨x, hx, hq⟩ := of_bind hq
    rw [← Except.ok.inj hq]
    exact hput v x hv hx

theorem follows_needed (hF : Plainly F form) {put : String → ρ → ρ} :
    Follows form blank (F.textField name .required put) (.needed name) := by
  refine follows_field F (steady_of_scalar fun v x hx => ?_) nofun
  rw [hF.text v x hx, Json.sketched]
  rfl

/-- A value without parts that is left out is what the blank record holds. -/
theorem follows_default (F : Format V (Except ε)) (presence : Presence)
    (hpresence : presence ≠ .required) {read : V → Except ε α} {write : α → Json} {put : α → ρ → ρ}
    {x : α} (hshows : Shows read form write) (hscalar : ∀ x, (write x).sketched.isScalar = true)
    (hinj : ∀ y, (write x).sketched = (write y).sketched → x = y) (hput : put x blank = blank) :
    Follows form blank (F.field name presence read put) (.defaulted name (write x)) := by
  refine follows_field F (steady_of_scalar fun v y hy => ?_)
    fun d hd => ⟨hpresence, fun v y hv hy => ?_⟩
  · rw [hshows v y hy]
    exact hscalar y
  · cases hd
    rw [← hinj y (hv.symm.trans (hshows v y hy))]
    exact hput

theorem follows_text (hF : Plainly F form) {put : String → ρ → ρ} {s : String}
    (hput : put s blank = blank) :
    Follows form blank (F.textField name .defaulted put) (.defaulted name (.text s)) := by
  refine follows_default F .defaulted nofun hF.text (fun x => ?_) (fun y hy => ?_) hput
  · rw [Json.sketched]
    rfl
  · rw [Json.sketched, Json.sketched] at hy
    exact Option.some.inj (Sketch.text.inj hy)

theorem follows_flag (hF : Plainly F form) {put : Bool → ρ → ρ} {b : Bool}
    (hput : put b blank = blank) :
    Follows form blank (F.flagField name put) (.defaulted name (.flag b)) := by
  refine follows_default F .defaulted nofun hF.flag (fun x => ?_) (fun y hy => ?_) hput
  · rw [Json.sketched]
    rfl
  · rw [Json.sketched, Json.sketched] at hy
    exact Sketch.flag.inj hy

theorem follows_optional {put : Option String → ρ → ρ} (hput : put none blank = blank) :
    Follows Spelling.sketch blank (source.optionalField name .optional put)
      (.defaulted name .null) := by
  refine follows_default source.toFormat .optional nofun shows_optional (fun x => ?_)
    (fun y hy => ?_) hput
  · cases x <;> (rw [writeOptional, Json.sketched]; rfl)
  · cases y with
    | none => rfl
    | some s =>
      rw [writeOptional, writeOptional, Json.sketched, Json.sketched] at hy
      cases hy

/-- An empty list is what the blank record holds. -/
theorem follows_items {read : Sketch → Reader (List α)} {put : List α → ρ → ρ}
    (hsteady : Steady (.list p) fun v => read v.sketch)
    (hnil : ∀ xs, read (.list [] true) = .ok xs → xs = []) (hput : put [] blank = blank) :
    Follows Spelling.sketch blank (source.field name .defaulted read put) (.items name p) := by
  refine follows_field source.toFormat hsteady fun d hd => ⟨nofun, fun v xs hv hxs => ?_⟩
  cases hd
  rw [hv, Json.sketched, Json.sketchedItems] at hxs
  rw [hnil xs hxs]
  exact hput

theorem follows_part (F : Format V (Except ε)) {read : V → Except ε α} {put : α → ρ → ρ}
    (hsteady : Steady p fun v => read (form v)) :
    Follows form blank (F.field name .required read put) ⟨name, none, p⟩ :=
  follows_field F hsteady nofun

end Fields

section Readers

variable {ρ α : Type} {p : Place} {n : Nat}

theorem readList_nil {read : Sketch → Reader α} {xs : List α}
    (h : source.list n read (.list [] true) = .ok xs) : xs = [] := by
  change Json.readList n read (.list [] true) = .ok xs at h
  rw [Json.readList] at h
  split at h
  · cases h
  · exact (Except.ok.inj h).symm

theorem mapM_replace {read : Sketch → Reader α} {front back : List Spelling} {v v' : Spelling}
    {xs : List α} (h : (Spelling.itemSketches (front ++ v :: back)).mapM read = .ok xs)
    (hread : ∀ x, read v.sketch = .ok x → read v'.sketch = .ok x) :
    (Spelling.itemSketches (front ++ v' :: back)).mapM read = .ok xs := by
  induction front generalizing xs with
  | nil =>
    rw [List.nil_append, Spelling.itemSketches, List.mapM_cons] at h ⊢
    obtain ⟨x, hx, h⟩ := of_bind h
    rw [hread x hx]
    exact h
  | cons w front ih =>
    rw [List.cons_append, Spelling.itemSketches, List.mapM_cons] at h ⊢
    obtain ⟨x, hx, h⟩ := of_bind h
    obtain ⟨rest, hrest, h⟩ := of_bind h
    rw [hx, ih hrest]
    exact h

theorem steady_list {read : Sketch → Reader α} (h : Steady p fun v => read v.sketch) :
    Steady (.list p) fun v => Json.readList n read v.sketch := by
  intro v v' he xs hxs
  cases he with
  | item hvalue =>
    simp only [Spelling.sketch, Json.readList] at hxs ⊢
    split at hxs
    · cases hxs
    · rename_i hn
      obtain ⟨values, hvalues, hxs⟩ := of_bind hxs
      rw [if_neg hn, mapM_replace hvalues fun x => h _ _ hvalue x]
      exact hxs
  | _ => cases hxs

theorem steady_record {s : Shape Sketch Reader ρ}
    (h : ∀ v, Agrees Spelling.sketch s (p.fields v)) :
    Steady p fun v => source.record n s v.sketch := by
  intro v v' he r hr
  obtain ⟨hn, hrecorded⟩ := Json.readRecord_iff.mp hr
  exact Json.readRecord_iff.mpr ⟨hn, recorded_edit (h v) he hrecorded⟩

/-- A value that was buffered for a record is still read as it when it is buffered edited. -/
theorem steady_buffered {s : Shape Datum Checked ρ} {m : Nat}
    (h : ∀ v, Agrees (Spelling.buffered (n - 1)) s (p.fields v)) :
    Steady p fun v => Datum.inner.record m s (v.buffered n) := by
  intro v v' he r hr
  obtain ⟨hbuffers, hrecorded⟩ := Json.asRecord_iff.mp hr
  exact Json.asRecord_iff.mpr ⟨he.buffers hbuffers, recorded_edit (h v) he hrecorded⟩

end Readers

theorem agrees_attribute (v : Spelling) :
    Agrees Spelling.sketch (attributeShape source.toFormat) (Place.attr.fields v) where
  fields := .cons (follows_needed plainly_source) <|
    .cons (follows_text plainly_source rfl) <| .cons (follows_flag plainly_source rfl) <|
    .cons (follows_flag plainly_source rfl) <| .cons (follows_text plainly_source rfl) <|
    .cons (follows_text plainly_source rfl) .nil
  apart := by
    simp only [attributeShape, List.pairwise_cons, List.forall_mem_cons, List.not_mem_nil,
      false_imp_iff, implies_true, List.Pairwise.nil, and_true]
    and_intros
    all_goals exact apart_field source.toFormat fun _ _ _ => rfl

theorem agrees_parameter (v : Spelling) :
    Agrees Spelling.sketch (parameterShape source.toFormat) (Place.parameter.fields v) where
  fields := .cons (follows_needed plainly_source) <| .cons (follows_text plainly_source rfl) .nil
  apart := List.pairwise_pair.mpr (apart_field source.toFormat fun _ _ _ => rfl)

theorem agrees_operation (n : Nat) (v : Spelling) :
    Agrees Spelling.sketch (operationShape source.toFormat n) (Place.operation.fields v) where
  fields := .cons (follows_needed plainly_source) <|
    .cons (follows_text plainly_source rfl) <| .cons (follows_text plainly_source rfl) <|
    .cons (follows_items (steady_list (steady_record agrees_parameter))
      (fun _ => readList_nil) rfl) .nil
  apart := by
    simp only [operationShape, List.pairwise_cons, List.forall_mem_cons, List.not_mem_nil,
      false_imp_iff, implies_true, List.Pairwise.nil, and_true]
    and_intros
    all_goals exact apart_field source.toFormat fun _ _ _ => rfl

theorem readElements_nil {n : Nat} {es : List Element}
    (h : readElements source.toFormat n (.list [] true) = .ok es) : es = [] := by
  cases n with
  | zero =>
    rw [readElements] at h
    exact readList_nil h
  | succ n =>
    rw [readElements] at h
    exact readList_nil h

theorem agrees_element {n : Nat}
    (h : Steady (.list .element) fun v => readElements source.toFormat n v.sketch) (v : Spelling) :
    Agrees Spelling.sketch (elementShape source.toFormat n (readElements source.toFormat n))
      (Place.element.fields v) where
  fields := .cons (follows_needed plainly_source) <| .cons (follows_optional rfl) <|
    .cons (follows_needed plainly_source) <| .cons (follows_text plainly_source rfl) <|
    .cons (follows_optional rfl) <| .cons (follows_items h (fun _ => readElements_nil) rfl) <|
    .cons (follows_items (steady_list (steady_record agrees_attribute))
      (fun _ => readList_nil) rfl) <|
    .cons (follows_items (steady_list (steady_record (agrees_operation _)))
      (fun _ => readList_nil) rfl) .nil
  apart := by
    simp only [elementShape, List.pairwise_cons, List.forall_mem_cons, List.not_mem_nil,
      false_imp_iff, implies_true, List.Pairwise.nil, and_true]
    and_intros
    all_goals exact apart_field source.toFormat fun _ _ _ => rfl

/-- Elements own elements, so this is by induction on the levels that may be entered. -/
theorem steady_elements : ∀ n : Nat,
    (Steady .element fun v => readElement source.toFormat n v.sketch) ∧
      Steady (.list .element) fun v => readElements source.toFormat n v.sketch
  | 0 => by
    refine ⟨fun v v' _ e he => ?_, fun v v' _ es hes => ?_⟩
    · rw [readElement] at he
      exact absurd rfl (Json.readRecord_ne_zero he)
    · rw [readElements] at hes
      exact absurd rfl (Json.readList_ok hes).1
  | n + 1 => by
    obtain ⟨helement, helements⟩ := steady_elements n
    rw [readElement, readElements]
    exact ⟨steady_record (agrees_element helements), steady_list helement⟩

section Relationship

variable {ρ : Type} {s : Shape Datum Checked ρ} {tag kind : String} {n : Nat} {r : ρ}
  {v v' : Spelling}

theorem follows_tag {blank : ρ} :
    Follows (Spelling.buffered n) blank (Json.tagField tag kind) (.needed tag) where
  name := rfl
  steady := steady_of_scalar fun v put hput => by
    rw [(Json.read_tagField_buffered.mp hput).1]
    rfl
  absent := nofun

/-- A variant that is read is the one that its value tells. -/
theorem kindOf?_of_recorded (hs : s.field? "kind" = none) (ha : s.fields.Pairwise Field.Apart)
    (h : Json.Recorded (Spelling.buffered n) (Json.tagged "kind" kind s) r v) :
    kindOf? v = some kind := by
  cases v with
  | scalar => cases h
  | list g items =>
    cases h with
    | absent hpresence => cases hpresence
    | item hread =>
      rw [kindOf?, List.head?_cons, Option.bind_some, textOf?,
        (Json.read_tagField_buffered.mp hread).1]
  | record g members =>
    obtain ⟨front, k, w, back, rfl, hkey, hw, hmembers, -⟩ := (Json.taken_tagged_iff hs ha).mp h
    have hfront : front.find? (·.1.text == some "kind") = none := by
      rw [List.find?_eq_none]
      intro m hm heq
      exact hmembers m (List.mem_append_left _ hm) (beq_iff_eq.mp heq)
    rw [kindOf?, List.find?_append, hfront, Option.none_or, List.find?_cons_of_pos (by simp [hkey]),
      Option.bind_some, textOf?, hw]

theorem readRelationship_iff {v : Sketch} {r : Relationship} :
    readRelationship source n v = .ok r ↔ ∃ kind d,
      Json.readUnion n relationshipUnion v = .ok (kind, d) ∧
        Relationship.ofDatum kind d = .ok r := by
  constructor
  · intro h
    obtain ⟨⟨kind, d⟩, hd, h⟩ := of_bind h
    refine ⟨kind, d, hd, ?_⟩
    cases hr : Relationship.ofDatum kind d with
    | error e =>
      simp only [hr] at h
      cases h
    | ok r' =>
      simp only [hr] at h
      exact congrArg Except.ok (Except.ok.inj h)
  · rintro ⟨kind, d, hd, hr⟩
    have hunion : source.union n relationshipUnion v = pure (kind, d) := hd
    rw [readRelationship, hunion, pure_bind]
    simp only [hr]
    rfl

/-- Both stages in which a variant is read take the same from an edited value. -/
theorem variant_edit (make : ρ → Relationship) {d : Datum} {x : Relationship}
    (hs : s.field? "kind" = none) (ha : s.fields.Pairwise Field.Apart)
    (hmake : ∀ d, Relationship.ofDatum kind d = make <$> Datum.inner.record 0 s d)
    (hagrees : ∀ m, relationshipUnion.variants.contains kind = true → kindOf? v = some kind →
      Agrees (Spelling.buffered m) (Json.tagged "kind" kind s) (Place.relationship.fields v))
    (he : Edit .relationship v v')
    (hd : Json.readUnion n relationshipUnion v.sketch = .ok (kind, d))
    (hx : Relationship.ofDatum kind d = .ok x) :
    readRelationship source n v'.sketch = .ok x := by
  rw [hmake] at hx
  cases hr : Datum.inner.record 0 s d with
  | error e =>
    rw [hr] at hx
    cases hx
  | ok r =>
    rw [hr] at hx
    obtain ⟨hcontains, hbuffers, hrecorded⟩ := (Json.readUnion_iff hs ha).mp ⟨d, hd, hr⟩
    have hkind := kindOf?_of_recorded hs ha hrecorded
    have hedited := recorded_edit (hagrees (n - 1) hcontains hkind) he hrecorded
    obtain ⟨d', hd', hr'⟩ :=
      (Json.readUnion_iff hs ha).mpr ⟨hcontains, he.buffers hbuffers, hedited⟩
    refine readRelationship_iff.mpr ⟨kind, d', hd', ?_⟩
    change Datum.inner.record 0 s d' = .ok r at hr'
    rw [hmake, hr']
    exact hx

theorem agrees_ending (v : Spelling) :
    Agrees (Spelling.buffered n) (endShape Datum.inner) (Place.ending.fields v) where
  fields := .cons (follows_needed (plainly_inner n)) <|
    .cons (follows_flag (plainly_inner n) (by rfl)) .nil
  apart := List.pairwise_pair.mpr (apart_field Datum.inner fun _ _ _ => rfl)

theorem apart_directed (variant : String) :
    (directedShape Datum.inner variant).fields.Pairwise Field.Apart :=
  List.pairwise_pair.mpr (apart_field Datum.inner fun _ _ _ => rfl)

theorem apart_undirected : (undirectedShape Datum.inner).fields.Pairwise Field.Apart := by
  simp only [undirectedShape, List.pairwise_cons, List.forall_mem_cons, List.not_mem_nil,
    false_imp_iff, implies_true, List.Pairwise.nil, and_true]
  and_intros
  all_goals exact apart_field Datum.inner fun _ _ _ => rfl

theorem agrees_directed {variant : String} (hkind : kind ≠ "association")
    (hv : kindOf? v = some kind) : Agrees (Spelling.buffered n)
      (Json.tagged "kind" kind (directedShape Datum.inner variant))
      (Place.relationship.fields v) where
  fields := by
    rw [Place.fields, if_neg fun heq => hkind (Option.some.inj (hv.symm.trans heq))]
    exact .cons follows_tag <| .cons (follows_needed (plainly_inner n)) <|
      .cons (follows_needed (plainly_inner n)) .nil
  apart := List.pairwise_cons.mpr ⟨fun f _ => Json.apart_tagField f, apart_directed variant⟩

theorem agrees_undirected (hv : kindOf? v = some "association") : Agrees (Spelling.buffered n)
      (Json.tagged "kind" "association" (undirectedShape Datum.inner))
      (Place.relationship.fields v) where
  fields := by
    rw [Place.fields, if_pos hv]
    exact .cons follows_tag <| .cons (follows_text (plainly_inner n) rfl) <|
      .cons (follows_part Datum.inner (steady_buffered agrees_ending)) <|
      .cons (follows_part Datum.inner (steady_buffered agrees_ending)) .nil
  apart := List.pairwise_cons.mpr ⟨fun f _ => Json.apart_tagField f, apart_undirected⟩

theorem steady_relationship :
    Steady .relationship fun v => readRelationship source n v.sketch := by
  intro v v' he r hr
  obtain ⟨kind, d, hd, h⟩ := readRelationship_iff.mp hr
  by_cases hgeneralization : kind = "generalization"
  · subst hgeneralization
    refine variant_edit (fun d => .generalization d.source d.target) (by decide)
      (apart_directed "Generalization") (fun d => ?_)
      (fun _ _ hv => agrees_directed (by decide) hv) he hd h
    rw [Relationship.ofDatum, if_pos rfl]
    rfl
  by_cases hrealization : kind = "interfaceRealization"
  · subst hrealization
    refine variant_edit (fun d => .realization d.source d.target) (by decide)
      (apart_directed "InterfaceRealization") (fun d => ?_)
      (fun _ _ hv => agrees_directed (by decide) hv) he hd h
    rw [Relationship.ofDatum, if_neg (by decide), if_pos rfl]
    rfl
  -- any other kind is read as an association, and there is no other that a union takes
  · refine variant_edit (fun a => .association a.name a.end1 a.end2) (by decide) apart_undirected
      (fun d => ?_) (fun _ hkind hv => ?_) he hd h
    · rw [Relationship.ofDatum, if_neg hgeneralization, if_neg hrealization]
      rfl
    · have hassociation : kind = "association" := by
        simpa [relationshipUnion, hgeneralization, hrealization] using hkind
      subst hassociation
      exact agrees_undirected hv

end Relationship

theorem agrees_document (n : Nat) (v : Spelling) :
    Agrees Spelling.sketch (documentShape source n) (Place.document.fields v) where
  fields := .cons (follows_optional rfl) <| .cons (follows_needed plainly_source) <|
    .cons (follows_text plainly_source rfl) <|
    .cons (follows_items (steady_elements n).2 (fun _ => readElements_nil) rfl) <|
    .cons (follows_items (steady_list steady_relationship) (fun _ => readList_nil) rfl) .nil
  apart := by
    simp only [documentShape, List.pairwise_cons, List.forall_mem_cons, List.not_mem_nil,
      false_imp_iff, implies_true, List.Pairwise.nil, and_true]
    and_intros
    all_goals exact apart_field source.toFormat fun _ _ _ => rfl

theorem steady_document (n : Nat) : Steady .document fun v => readDocument source n v.sketch :=
  steady_record (agrees_document (n - 1))

theorem readText?_text {α : Type} {read : Sketch → Reader α} (v : Spelling) :
    Json.readText? read v.text = read v.sketch := by
  rw [Json.readText?, Spelling.sketch_text]
  exact bind_pure (read v.sketch)

theorem exists_spelling_of_readText? {α : Type} {read : Sketch → Reader α} {t : String} {x : α}
    (h : Json.readText? read t = .ok x) : ∃ v : Spelling, v.text = t := by
  rw [Json.readText?] at h
  cases hsketch : Json.sketch t with
  | mk w ends =>
    rw [hsketch] at h
    obtain ⟨y, -, h⟩ := of_bind h
    cases ends with
    | false => cases h
    | true =>
      obtain ⟨v, hv, -⟩ := Spelling.exists_spelling hsketch
      exact ⟨v, hv⟩

theorem ofJson_ok_iff {t : String} {d : Document} : Document.ofJson t = .ok d ↔
    Json.readText? (readDocument source Json.maxDepth) t = .ok d ∧
      Text.isBlankText d.name = false := by
  rw [Document.ofJson]
  constructor
  · intro h
    split at h
    · rename_i e hread
      obtain ⟨rfl, hname⟩ := checkName_ok h
      exact ⟨hread, hname⟩
    · cases h
  · rintro ⟨hread, hname⟩
    rw [hread]
    simp only [Document.checkName, hname]
    rfl

theorem ofJson_edit {v v' : Spelling} (he : Edit .document v v') {d : Document}
    (h : Document.ofJson v.text = .ok d) : Document.ofJson v'.text = .ok d := by
  obtain ⟨hread, hname⟩ := ofJson_ok_iff.mp h
  rw [readText?_text] at hread
  refine ofJson_ok_iff.mpr ⟨?_, hname⟩
  rw [readText?_text]
  exact steady_document _ v v' he d hread

/-- A text that is read as a snapshot can be taken apart, and however it was spelled, it is read as
the same snapshot after any number of edits. -/
theorem ofJson_edited {t : String} {d : Document} (h : Document.ofJson t = .ok d) :
    (∃ v : Spelling, v.text = t) ∧
    ∀ v v' : Spelling, v.text = t → Relation.ReflTransGen (Edit .document) v v' →
      Document.ofJson v'.text = .ok d := by
  refine ⟨exists_spelling_of_readText? (ofJson_ok_iff.mp h).1, fun v v' hv hedits => ?_⟩
  induction hedits with
  | refl => exact hv ▸ h
  | tail _ he ih => exact ofJson_edit he ih

def plainKey (s : String) : Json.Key := ⟨.none, .of s, .none⟩

def plainMember (key s : String) : Json.Key × Spelling :=
  (plainKey key, .scalar .none (Json.Quoted.of s).scalar)

/-- A document with one relationship, and members in front of it and behind it. -/
def related (front members back : List (Json.Key × Spelling)) : Spelling :=
  .record .none
    (front ++ (plainKey "relationships", .list .none [.record .none members]) :: back)

def kindMember : Json.Key × Spelling := plainMember "kind" "generalization"

def endMembers : List (Json.Key × Spelling) :=
  [plainMember "source" "Cart", plainMember "target" "Basket"]

/-- The kind of the relationship comes last, and the documentation is a default. -/
def inheritance : Spelling :=
  related [plainMember "documentation" "", plainMember "name" "Shop"]
    (endMembers ++ [kindMember]) []

/-- The kind comes first, the documentation is left out, and there is a key that no reader knows. -/
def inheritanceEdited : Spelling :=
  related [plainMember "name" "Shop"] ([kindMember] ++ endMembers) [plainMember "colour" "red"]

def inheritanceText : String :=
  "\x7b\"name\":\"Shop\",\"relationships\":" ++
    "[\x7b\"kind\":\"generalization\",\"source\":\"Cart\",\"target\":\"Basket\"\x7d]\x7d"

theorem inheritance_edited : ∃ d, Document.ofJson inheritance.text = .ok d ∧
    d.toJson.compact = inheritanceText ∧ Document.ofJson inheritanceEdited.text = .ok d := by
  have hremove : Edit .document inheritance
      (related [plainMember "name" "Shop"] (endMembers ++ [kindMember]) []) :=
    @Edit.remove .document .none [] _ _ _ _ _ _ rfl rfl rfl rfl
  have hpermute : Edit .document
      (related [plainMember "name" "Shop"] (endMembers ++ [kindMember]) [])
      (related [plainMember "name" "Shop"] ([kindMember] ++ endMembers) []) :=
    @Edit.member .document .none [plainMember "name" "Shop"] [] _ _ _
      (@Edit.item _ .none [] [] _ _ (.permute List.perm_append_comm))
  have hinsert : Edit .document
      (related [plainMember "name" "Shop"] ([kindMember] ++ endMembers) []) inheritanceEdited :=
    @Edit.insert .document .none [plainMember "name" "Shop", _] [] _ _ _ _ rfl rfl rfl
  have hread : (Document.ofJson inheritance.text).toOption.map (·.toJson.compact) =
      some inheritanceText := by
    decide +kernel
  obtain ⟨d, hd, hwritten⟩ := ok_of_map hread
  refine ⟨d, hd, hwritten, (ofJson_edited hd).2 _ _ rfl ?_⟩
  exact .head hremove (.head hpermute (.single hinsert))

end ClassScribe.Snapshot
