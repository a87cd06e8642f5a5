import ClassScribe.Proofs.Json.Members

/-! # Edits of snapshots

Two texts can stand for one snapshot. The members of an object may come in any order, an object may
have members that no reader knows, and what is left out has a default. An edit makes one such change
somewhere in a text. A record whose fields are those that are known is read from an edited text as it
was read before.
-/
namespace ClassScribe.Snapshot
open Json (Spelling Key Spacing Sketch Reader Taken Listed Recorded)

/-- What a value stands for in a snapshot. -/
inductive Place where
  /-- A text or a flag, or a value that is passed over. -/
  | other
  | list (p : Place)
  | document
  | element
  | attr
  | operation
  | parameter
  | relationship
  | ending

/-- A field of an object, with the value that can be left out. -/
structure Known where
  key : String
  default : Option Json
  place : Place

namespace Known

def needed (key : String) : Known := ⟨key, none, .other⟩

def defaulted (key : String) (d : Json) : Known := ⟨key, some d, .other⟩

def items (key : String) (p : Place) : Known := ⟨key, some (.list []), .list p⟩

end Known

/-- The text that a value is, if it is one. -/
def textOf? (v : Spelling) : Option String :=
  match v.sketch with
  | .text s => s
  | _ => none

/-- The kind an object tells, by its members or by its first item. -/
def kindOf? : Spelling → Option String
  | .scalar _ _ => none
  | .list _ items => items.head?.bind textOf?
  | .record _ members => (members.find? (·.1.text == some "kind")).bind fun m => textOf? m.2

namespace Place
open Known

/-- The fields of an object in their order. Those of a relationship depend on its kind. -/
def fields (v : Spelling) : Place → List Known
  | other => []
  | list _ => []
  | document => [defaulted "id" .null, needed "name", defaulted "documentation" (.text ""),
      items "ownedElements" element, items "relationships" relationship]
  | element => [needed "kind", defaulted "id" .null, needed "name",
      defaulted "documentation" (.text ""), defaulted "stereotype" .null,
      items "ownedElements" element, items "attributes" attr, items "operations" operation]
  | attr => [needed "name", defaulted "visibility" (.text "public"),
      defaulted "isStatic" (.flag false), defaulted "isReadOnly" (.flag false),
      defaulted "defaultValue" (.text ""), defaulted "documentation" (.text "")]
  | operation => [needed "name", defaulted "visibility" (.text "public"),
      defaulted "documentation" (.text ""), items "parameters" parameter]
  | parameter => [needed "name", defaulted "direction" (.text "in")]
  | relationship =>
    if kindOf? v = some "association" then
      [needed "kind", defaulted "name" (.text ""), ⟨"end1", none, ending⟩, ⟨"end2", none, ending⟩]
    else [needed "kind", needed "source", needed "target"]
  | ending => [needed "reference", defaulted "navigable" (.flag true)]

variable (p : Place) (v : Spelling)

def field? (name : String) : Option Known := (p.fields v).find? (·.key == name)

/-- The place of the member with a key. -/
def member (key : Option String) : Place := ((key.bind (p.field? v)).map (·.place)).getD .other

/-- The place of an item; a record may be written as a list of its fields. -/
def item (i : Nat) : Place :=
  match p with
  | .list q => q
  | p => ((p.fields v)[i]?.map (·.place)).getD .other

variable {p v}

theorem keys_nodup : ((p.fields v).map (·.key)).Nodup := by
  cases p with
  | relationship =>
    rw [fields]
    split <;> simp [needed, defaulted]
  | _ => simp [fields, needed, defaulted, items]

theorem member_of_field? {name : String} {k : Known} (h : p.field? v name = some k) :
    p.member v (some name) = k.place := by
  rw [member, Option.bind_some, h]
  rfl

theorem item_of_fields {i : Nat} {k : Known} (h : (p.fields v)[i]? = some k) :
    p.item v i = k.place := by
  cases p with
  | list q => cases h
  | _ => simp [item, h]

end Place

/-- One change of a value at a place: the members of an object in another order, a member with an
unknown key and a text, the default of a field left out, or a change further inside. -/
inductive Edit : Place → Spelling → Spelling → Prop
  | permute {p g members members'} : List.Perm members members' →
      Edit p (.record g members) (.record g members')
  | insert {p g front back k v name s} : Key.text k = some name →
      p.field? (.record g (front ++ back)) name = none → Spelling.sketch v = .text (some s) →
      Edit p (.record g (front ++ back)) (.record g (front ++ (k, v) :: back))
  | remove {p g front back k v name f d} : Key.text k = some name →
      p.field? (.record g (front ++ (k, v) :: back)) name = some f → f.default = some d →
      Spelling.sketch v = d.sketched →
      Edit p (.record g (front ++ (k, v) :: back)) (.record g (front ++ back))
  | member {p g front back k v v'} :
      Edit (p.member (.record g (front ++ (k, v) :: back)) k.text) v v' →
      Edit p (.record g (front ++ (k, v) :: back)) (.record g (front ++ (k, v') :: back))
  | item {p g front back v v'} :
      Edit (p.item (.list g (front ++ v :: back)) front.length) v v' →
      Edit p (.list g (front ++ v :: back)) (.list g (front ++ v' :: back))

/-- Only what has parts is edited. -/
theorem Edit.not_scalar {p : Place} {v v' : Spelling} (h : Edit p v v') :
    v.sketch.isScalar = false := by
  cases h <;> (rw [Spelling.sketch]; rfl)

section Buffers

variable {g : Spacing} {front back : List (Key × Spelling)} {k : Key} {v v' : Spelling} {n : Nat}

theorem buffers_insert : (Spelling.record g (front ++ (k, v) :: back)).Buffers n ↔
    (k.text.isSome ∧ v.Buffers (n - 1)) ∧ (Spelling.record g (front ++ back)).Buffers n := by
  simp only [Spelling.buffers_record, List.forall_mem_append, List.forall_mem_cons]
  tauto

/-- What can be buffered still can after an edit. -/
theorem Edit.buffers {p : Place} (h : Edit p v v') (hv : v.Buffers n) : v'.Buffers n := by
  induction h generalizing n with
  | permute hperm =>
    obtain ⟨hn, hmembers⟩ := Spelling.buffers_record.mp hv
    exact Spelling.buffers_record.mpr ⟨hn, fun m hm => hmembers m (hperm.symm.subset hm)⟩
  | insert hkey _ hsketch =>
    exact buffers_insert.mpr ⟨⟨Option.isSome_of_eq_some hkey, Json.buffers_of_text hsketch⟩, hv⟩
  | remove => exact (buffers_insert.mp hv).2
  | member _ ih =>
    obtain ⟨⟨hkey, hvalue⟩, hrest⟩ := buffers_insert.mp hv
    exact buffers_insert.mpr ⟨⟨hkey, ih hvalue⟩, hrest⟩
  | item _ ih =>
    obtain ⟨hn, hitems⟩ := Spelling.buffers_list.mp hv
    obtain ⟨hfront, hback⟩ := List.forall_mem_append.mp hitems
    obtain ⟨hvalue, hback⟩ := List.forall_mem_cons.mp hback
    refine Spelling.buffers_list.mpr ⟨hn, List.forall_mem_append.mpr ⟨hfront, ?_⟩⟩
    exact List.forall_mem_cons.mpr ⟨ih hvalue, hback⟩

end Buffers

/-- What is read at a place is read from an edited value too. -/
def Steady {ε α : Type} (p : Place) (read : Spelling → Except ε α) : Prop :=
  ∀ v v', Edit p v v' → ∀ x, read v = .ok x → read v' = .ok x

section Agrees

variable {V ε ρ : Type} {form : Spelling → V}

/-- A field is what is known of it: edits do not disturb its reader, and its default, where it has
one, is what the blank record holds. -/
structure Follows (form : Spelling → V) (blank : ρ) (f : Field V (Except ε) ρ) (k : Known) :
    Prop where
  name : f.name = k.key
  steady : Steady k.place fun v => f.read (form v)
  absent : ∀ d, k.default = some d → f.presence ≠ .required ∧
    ∀ v put, v.sketch = d.sketched → f.read (form v) = .ok put → put blank = blank

/-- The fields of a shape are those that are known, in their order, and each puts its value into a
place of its own. -/
structure Agrees (form : Spelling → V) (s : Shape V (Except ε) ρ) (known : List Known) : Prop where
  fields : List.Forall₂ (Follows form s.blank) s.fields known
  apart : s.fields.Pairwise Field.Apart

variable {s : Shape V (Except ε) ρ} {p : Place} {v v' : Spelling} {name : String}

/-- A name is found among the fields as it is among those that are known. -/
theorem find?_cases {blank : ρ} {fields : List (Field V (Except ε) ρ)} {known : List Known}
    (h : List.Forall₂ (Follows form blank) fields known) (name : String) :
    (fields.find? (·.name == name) = none ∧ known.find? (·.key == name) = none) ∨
      ∃ f k, fields.find? (·.name == name) = some f ∧ known.find? (·.key == name) = some k ∧
        Follows form blank f k := by
  induction h with
  | nil => exact .inl ⟨rfl, rfl⟩
  | @cons f k fields known hf _ ih =>
    rw [List.find?_cons, List.find?_cons, hf.name]
    cases k.key == name with
    | false => exact ih
    | true => exact .inr ⟨f, k, rfl, rfl, hf⟩

namespace Agrees

variable {f : Field V (Except ε) ρ} {k : Known}

theorem field?_eq_none (h : Agrees form s (p.fields v)) (hk : p.field? v name = none) :
    s.field? name = none := by
  rcases find?_cases h.fields name with ⟨hf, -⟩ | ⟨f, k, -, hk', -⟩
  · exact hf
  · cases hk.symm.trans hk'

theorem exists_field (h : Agrees form s (p.fields v)) (hk : p.field? v name = some k) :
    ∃ f, s.field? name = some f ∧ Follows form s.blank f k := by
  rcases find?_cases h.fields name with ⟨-, hk'⟩ | ⟨f, k', hf, hk', hfollows⟩
  · cases hk.symm.trans hk'
  · obtain rfl := Option.some.inj (hk.symm.trans hk')
    exact ⟨f, hf, hfollows⟩

theorem follows_member (h : Agrees form s (p.fields v)) (hf : s.field? name = some f) :
    ∃ k, p.member v (some name) = k.place ∧ Follows form s.blank f k := by
  rcases find?_cases h.fields name with ⟨hf', -⟩ | ⟨f', k, hf', hk, hfollows⟩
  · cases hf.symm.trans hf'
  · obtain rfl := Option.some.inj (hf.symm.trans hf')
    exact ⟨k, Place.member_of_field? hk, hfollows⟩

theorem follows_item (h : Agrees form s (p.fields v)) {i : Nat} (hf : s.fields[i]? = some f) :
    ∃ k, p.item v i = k.place ∧ Follows form s.blank f k := by
  obtain ⟨hi, rfl⟩ := List.getElem?_eq_some_iff.mp hf
  have hk : i < (p.fields v).length := h.fields.length_eq ▸ hi
  exact ⟨_, Place.item_of_fields (List.getElem?_eq_getElem hk), h.fields.get hi hk⟩

/-- No other field has the name of a field with a default. -/
theorem optional (h : Agrees form s (p.fields v)) (hf : s.field? name = some f)
    (hpresence : f.presence ≠ .required) :
    ∀ g ∈ s.fields, g.presence = .required → g.name ≠ f.name := by
  have hnames : s.fields.map (·.name) = (p.fields v).map (·.key) := by
    rw [← List.forall₂_eq_eq_eq, List.forall₂_map_left_iff, List.forall₂_map_right_iff]
    exact h.fields.imp fun f k hf => hf.name
  have hnodup : (s.fields.map (·.name)).Nodup := hnames ▸ Place.keys_nodup
  intro g hg hr heq
  obtain rfl := List.inj_on_of_nodup_map hnodup hg (Shape.mem_of_field? hf) heq
  exact hpresence hr

end Agrees

/-- A record whose fields are the known ones is read the same after an edit. -/
theorem recorded_edit (h : Agrees form s (p.fields v)) (he : Edit p v v') {r : ρ}
    (hr : Recorded form s r v) : Recorded form s r v' := by
  cases he with
  | permute hperm => exact Taken.perm h.apart hperm hr
  | insert hkey hk _ =>
    exact Taken.perm h.apart List.perm_middle.symm (.skip hkey (h.field?_eq_none hk) hr)
  | remove hkey hk hd hv =>
    -- in front of the others, the default is put into the blank record, which holds it already
    obtain ⟨f, hf, hfollows⟩ := h.exists_field hk
    obtain ⟨hpresence, hblank⟩ := hfollows.absent _ hd
    obtain rfl := Shape.name_of_field? hf
    have hfront := Taken.perm h.apart List.perm_middle hr
    exact hfront.leave hkey hf (h.optional hf hpresence) fun put hput => hblank _ put hv hput
  | member hvalue =>
    have hfront := Taken.perm h.apart List.perm_middle hr
    refine Taken.perm h.apart List.perm_middle.symm (hfront.replace fun name f hkey hf put => ?_)
    obtain ⟨k, hplace, hfollows⟩ := h.follows_member hf
    rw [hkey, hplace] at hvalue
    exact hfollows.steady _ _ hvalue put
  | item hvalue =>
    refine Json.Listed.replace hr fun f hf put => ?_
    obtain ⟨k, hplace, hfollows⟩ := h.follows_item hf
    rw [hplace] at hvalue
    exact hfollows.steady _ _ hvalue put

end Agrees

end ClassScribe.Snapshot
