import Mathlib.Data.List.Pairwise
import ClassScribe.Proofs.Json.Record
import ClassScribe.Proofs.Json.Spelling

/-! # Members in any order

Reading a record goes from member to member, in the order of the text. As long as no two fields put
their values into the same place, what is read is the same in every order, and so is what is passed
over. It does not matter whether the members are read at once or buffered first.
-/
namespace ClassScribe

variable {V ε ρ : Type}

/-- Values of two fields can be put into a record in either order. -/
def Field.Apart (f g : Field V (Except ε) ρ) : Prop :=
  ∀ v w put put', f.read v = .ok put → g.read w = .ok put' → ∀ r, put (put' r) = put' (put r)

theorem Field.Apart.symm {f g : Field V (Except ε) ρ} (h : f.Apart g) : g.Apart f :=
  fun v w put put' hf hg r => (h w v put' put hg hf r).symm

instance : Std.Symm (Field.Apart : Field V (Except ε) ρ → Field V (Except ε) ρ → Prop) :=
  ⟨fun _ _ h => h.symm⟩

section Shape

variable {M : Type → Type} {s : Shape V M ρ} {name : String} {f : Field V M ρ}

theorem Shape.mem_of_field? (h : s.field? name = some f) : f ∈ s.fields :=
  List.mem_of_find?_eq_some h

theorem Shape.name_of_field? (h : s.field? name = some f) : f.name = name := by
  have hname := List.find?_some (p := fun f : Field V M ρ => f.name == name) h
  exact beq_iff_eq.mp hname

theorem Shape.missing?_eq_none_iff {given : List String} : s.missing? given = none ↔
    ∀ f ∈ s.fields, f.presence = .required → f.name ∈ given := by
  rw [Shape.missing?, Option.map_eq_none_iff, List.find?_eq_none]
  apply forall₂_congr
  intro f _
  by_cases hr : f.presence = .required <;> simp [hr]

end Shape

theorem Shape.apart_of_field? {s : Shape V (Except ε) ρ} (hs : s.fields.Pairwise Field.Apart)
    {f g : Field V (Except ε) ρ} {name name' : String} (hf : s.field? name = some f)
    (hg : s.field? name' = some g) (hne : name ≠ name') : f.Apart g := by
  have hfields : f ≠ g := by
    rintro rfl
    exact hne ((Shape.name_of_field? hf).symm.trans (Shape.name_of_field? hg))
  exact hs.forall (Shape.mem_of_field? hf) (Shape.mem_of_field? hg) hfields

namespace Json

/-- Members take a record from one state to another, where `given` fields were read already. A key
that is no field is passed over. -/
inductive Taken (form : Spelling → V) (s : Shape V (Except ε) ρ) :
    List String → ρ → List (Key × Spelling) → ρ → Prop
  | done {given r} : s.missing? given = none → Taken form s given r [] r
  | skip {given r key name v members r'} : Key.text key = some name → s.field? name = none →
      Taken form s given r members r' → Taken form s given r ((key, v) :: members) r'
  | take {given r key name v members f put r'} : Key.text key = some name →
      s.field? name = some f → name ∉ given → f.read (form v) = .ok put →
      Taken form s (name :: given) (put r) members r' →
      Taken form s given r ((key, v) :: members) r'

namespace Taken

variable {form : Spelling → V} {s : Shape V (Except ε) ρ} {given given' : List String} {r r' : ρ}
  {members members' : List (Key × Spelling)}

/-- Fewer fields may count as given, as long as those that are required still do. -/
theorem narrow (h : Taken form s given r members r') (hsub : given' ⊆ given)
    (hreq : ∀ f ∈ s.fields, f.presence = .required → f.name ∈ given → f.name ∈ given') :
    Taken form s given' r members r' := by
  induction h generalizing given' with
  | done hmissing =>
    refine .done (Shape.missing?_eq_none_iff.mpr fun f hf hr => ?_)
    exact hreq f hf hr (Shape.missing?_eq_none_iff.mp hmissing f hf hr)
  | skip hkey hfield _ ih => exact .skip hkey hfield (ih hsub hreq)
  | take hkey hfield hnew hread _ ih =>
    refine .take hkey hfield (fun hg => hnew (hsub hg)) hread (ih ?_ fun f hf hr hg => ?_)
    · exact List.cons_subset_cons _ hsub
    · rcases List.mem_cons.mp hg with hname | hg
      · exact List.mem_cons.mpr (.inl hname)
      · exact List.mem_cons_of_mem _ (hreq f hf hr hg)

theorem swap {name name' : String}
    (h : Taken form s (name :: name' :: given) r members r') :
    Taken form s (name' :: name :: given) r members r' := by
  have hperm := List.Perm.swap name name' given
  exact h.narrow hperm.subset fun f _ _ hg => hperm.symm.subset hg

/-- What is read does not depend on the order of the members. -/
theorem perm (hs : s.fields.Pairwise Field.Apart) (hp : members.Perm members')
    (h : Taken form s given r members r') : Taken form s given r members' r' := by
  induction hp generalizing given r with
  | nil => exact h
  | cons m _ ih =>
    cases h with
    | skip hkey hfield h => exact .skip hkey hfield (ih h)
    | take hkey hfield hnew hread h => exact .take hkey hfield hnew hread (ih h)
  | swap m m' members =>
    cases h with
    | skip hkey hfield h =>
      cases h with
      | skip hkey' hfield' h => exact .skip hkey' hfield' (.skip hkey hfield h)
      | take hkey' hfield' hnew' hread' h =>
        exact .take hkey' hfield' hnew' hread' (.skip hkey hfield h)
    | take hkey hfield hnew hread h =>
      cases h with
      | skip hkey' hfield' h => exact .skip hkey' hfield' (.take hkey hfield hnew hread h)
      | take hkey' hfield' hnew' hread' h =>
        -- both are fields, and their values go to places of their own
        obtain ⟨hne, hnew'⟩ := not_or.mp (List.mem_cons.not.mp hnew')
        rw [Shape.apart_of_field? hs hfield' hfield hne _ _ _ _ hread' hread] at h
        refine .take hkey' hfield' hnew' hread' (.take hkey hfield ?_ hread h.swap)
        exact List.not_mem_cons_of_ne_of_not_mem (Ne.symm hne) hnew
  | trans _ _ ih ih' => exact ih' (ih h)

/-- A field in front can be left out if its value changes nothing and it is not required. -/
theorem leave (h : Taken form s [] r (m :: members) r') {f : Field V (Except ε) ρ}
    (hkey : m.1.text = some f.name) (hfield : s.field? f.name = some f)
    (hpresence : ∀ g ∈ s.fields, g.presence = .required → g.name ≠ f.name)
    (hput : ∀ put, f.read (form m.2) = .ok put → put r = r) : Taken form s [] r members r' := by
  cases h with
  | skip hkey' hfield' _ =>
    obtain rfl := Option.some.inj (hkey.symm.trans hkey')
    rw [hfield] at hfield'
    cases hfield'
  | take hkey' hfield' _ hread h =>
    obtain rfl := Option.some.inj (hkey.symm.trans hkey')
    obtain rfl := Option.some.inj (hfield.symm.trans hfield')
    rw [hput _ hread] at h
    exact h.narrow (List.nil_subset _) fun g hg hr hgiven =>
      absurd (List.mem_singleton.mp hgiven) (hpresence g hg hr)

/-- The value of a member in front can be replaced by one that is read as it. -/
theorem replace {key : Key} {v v' : Spelling} (h : Taken form s given r ((key, v) :: members) r')
    (hread : ∀ name f, key.text = some name → s.field? name = some f → ∀ put,
      f.read (form v) = .ok put → f.read (form v') = .ok put) :
    Taken form s given r ((key, v') :: members) r' := by
  cases h with
  | skip hkey hfield h => exact .skip hkey hfield h
  | take hkey hfield hnew hput h =>
    exact .take hkey hfield hnew (hread _ _ hkey hfield _ hput) h

end Taken

/-- Items in the order of the fields; those that are left out at the end have a default. -/
inductive Listed (form : Spelling → V) :
    List (Field V (Except ε) ρ) → ρ → List Spelling → ρ → Prop
  | done {r} : Listed form [] r [] r
  | absent {f fields r r'} : f.presence = .defaulted → Listed form fields r [] r' →
      Listed form (f :: fields) r [] r'
  | item {f fields r v items put r'} : f.read (form v) = .ok put →
      Listed form fields (put r) items r' → Listed form (f :: fields) r (v :: items) r'

/-- An item can be replaced by one that is read as it. -/
theorem Listed.replace {form : Spelling → V} {front back : List Spelling} {v v' : Spelling}
    {fields : List (Field V (Except ε) ρ)} {r r' : ρ}
    (h : Listed form fields r (front ++ v :: back) r')
    (hread : ∀ f, fields[front.length]? = some f → ∀ put, f.read (form v) = .ok put →
      f.read (form v') = .ok put) : Listed form fields r (front ++ v' :: back) r' := by
  induction front generalizing fields r with
  | nil =>
    cases h with
    | item hput h => exact .item (hread _ rfl _ hput) h
  | cons w front ih =>
    cases h with
    | item hput h => exact .item hput (ih h fun f hf => hread f (by simpa using hf))

mutual

theorem Spelling.complete_sketch : ∀ s : Spelling, s.sketch.complete = true
  | .scalar g s => by
    rw [sketch]
    have hsingle := s.single
    generalize s.shown = v at hsingle
    cases v <;> first | rfl | cases hsingle
  | .list g items => by
    rw [sketch, Sketch.complete, complete_itemSketches items]
    rfl
  | .record g members => by
    rw [sketch, Sketch.complete, complete_memberSketches members]
    rfl

theorem Spelling.complete_itemSketches : ∀ items : List Spelling,
    completeItems (itemSketches items) = true
  | [] => by rw [itemSketches, completeItems]
  | v :: rest => by
    rw [itemSketches, completeItems, complete_sketch v, complete_itemSketches rest]
    rfl

theorem Spelling.complete_memberSketches : ∀ members : List (Key × Spelling),
    completeMembers (memberSketches members) = true
  | [] => by rw [memberSketches, completeMembers]
  | (k, v) :: rest => by
    rw [memberSketches, completeMembers, complete_sketch v, complete_memberSketches rest]
    rfl

end

open Spelling (memberSketches itemSketches)

theorem recordMembers_iff {s : Shape Sketch Reader ρ} {given : List String} {r r' : ρ}
    {members : List (Key × Spelling)} :
    recordMembers s true given r (memberSketches members) = .ok r' ↔
      Taken Spelling.sketch s given r members r' := by
  constructor
  · intro h
    induction members generalizing given r with
    | nil =>
      rw [memberSketches, recordMembers, if_pos rfl] at h
      split at h
      · cases h
      · rename_i hmissing
        obtain rfl := Except.ok.inj h
        exact .done hmissing
    | cons m members ih =>
      obtain ⟨k, v⟩ := m
      rw [memberSketches] at h
      cases hkey : k.text with
      | none =>
        rw [hkey] at h
        cases h
      | some name =>
        rw [hkey, recordMembers, v.complete_sketch] at h
        split at h
        · rename_i hfield
          exact .skip hkey hfield (ih h)
        · rename_i f hfield
          split at h
          · cases h
          · rename_i hnew
            obtain ⟨put, hread, h⟩ := of_bind h
            exact .take hkey hfield (by simpa using hnew) hread (ih h)
  · intro h
    induction h with
    | done hmissing => simp [memberSketches, recordMembers, hmissing]
    | @skip given r key name v members r' hkey hfield _ ih =>
      rw [memberSketches, hkey, recordMembers, hfield]
      simp only [v.complete_sketch, if_true]
      exact ih
    | @take given r key name v members f put r' hkey hfield hnew hread _ ih =>
      have hgiven : given.contains name = false := by simpa using hnew
      rw [memberSketches, hkey, recordMembers, hfield]
      simp only [hgiven, hread]
      exact ih

theorem recordItems_iff {fields : List (Field Sketch Reader ρ)} {title : String} {total done : Nat}
    {r r' : ρ} {items : List Spelling} :
    recordItems title total done true r fields (itemSketches items) = .ok r' ↔
      Listed Spelling.sketch fields r items r' := by
  constructor
  · intro h
    induction fields generalizing done r items with
    | nil =>
      cases items with
      | nil =>
        rw [itemSketches, recordItems, if_pos rfl] at h
        obtain rfl := Except.ok.inj h
        exact .done
      | cons v items => cases h
    | cons f fields ih =>
      cases items with
      | nil =>
        rw [itemSketches, recordItems] at h
        split at h
        · cases h
        · split at h
          · rename_i hf
            exact .absent hf (ih h)
          · cases h
      | cons v items =>
        rw [itemSketches] at h
        obtain ⟨put, hread, h⟩ := of_bind h
        exact .item hread (ih h)
  · intro h
    induction h generalizing done with
    | done => rfl
    | absent hf _ ih =>
      rw [itemSketches, recordItems, if_neg (by decide), if_pos hf]
      exact ih
    | item hread _ ih =>
      rw [itemSketches, recordItems, hread]
      exact ih

/-- What is buffered of a value, where `depth` levels may be entered. -/
def Spelling.buffered (depth : Nat) (v : Spelling) : Datum := (buffer? depth v.sketch).getD .null

/-- A value that can be buffered. -/
def Spelling.Buffers (depth : Nat) (v : Spelling) : Prop := (buffer? depth v.sketch).isSome

namespace Spelling

variable {depth : Nat} {v : Spelling} {g : Spacing}

theorem buffer?_of_buffers (h : v.Buffers depth) :
    buffer? depth v.sketch = some (v.buffered depth) := by
  obtain ⟨d, hd⟩ := Option.isSome_iff_exists.mp h
  rw [buffered, hd]
  rfl

theorem buffered_of_buffer? {d : Datum} (h : buffer? depth v.sketch = some d) :
    v.buffered depth = d := by
  rw [buffered, h]
  rfl

def bufferedMember (depth : Nat) (m : Key × Spelling) : Datum × Datum :=
  (.text (m.1.text.getD ""), m.2.buffered depth)

theorem bufferItems?_eq_some {items : List Spelling} {ds : List Datum} :
    bufferItems? depth (itemSketches items) = some ds ↔
      (∀ v ∈ items, v.Buffers depth) ∧ ds = items.map (·.buffered depth) := by
  induction items generalizing ds with
  | nil => simp [itemSketches, bufferItems?, eq_comm]
  | cons v items ih =>
    rw [itemSketches, bufferItems?, List.forall_mem_cons, List.map_cons]
    constructor
    · intro h
      obtain ⟨d, hd, h⟩ := Option.bind_eq_some_iff.mp h
      obtain ⟨rest, hrest, h⟩ := Option.bind_eq_some_iff.mp h
      obtain ⟨hitems, rfl⟩ := ih.mp hrest
      refine ⟨⟨Option.isSome_of_eq_some hd, hitems⟩, ?_⟩
      rw [buffered_of_buffer? hd]
      exact (Option.some.inj h).symm
    · rintro ⟨⟨hv, hitems⟩, rfl⟩
      rw [buffer?_of_buffers hv, ih.mpr ⟨hitems, rfl⟩]
      rfl

theorem bufferMembers?_eq_some {members : List (Key × Spelling)} {ds : List (Datum × Datum)} :
    bufferMembers? depth (memberSketches members) = some ds ↔
      (∀ m ∈ members, m.1.text.isSome ∧ m.2.Buffers depth) ∧
        ds = members.map (bufferedMember depth) := by
  induction members generalizing ds with
  | nil =>
    rw [memberSketches, bufferMembers?, List.map_nil, Option.some_inj, eq_comm]
    simp
  | cons m members ih =>
    obtain ⟨k, v⟩ := m
    rw [memberSketches, bufferMembers?, List.forall_mem_cons, List.map_cons]
    constructor
    · intro h
      obtain ⟨name, hname, h⟩ := Option.bind_eq_some_iff.mp h
      obtain ⟨d, hd, h⟩ := Option.bind_eq_some_iff.mp h
      obtain ⟨rest, hrest, h⟩ := Option.bind_eq_some_iff.mp h
      obtain ⟨hmembers, rfl⟩ := ih.mp hrest
      refine ⟨⟨⟨Option.isSome_of_eq_some hname, Option.isSome_of_eq_some hd⟩, hmembers⟩, ?_⟩
      rw [bufferedMember, hname, buffered_of_buffer? hd]
      exact (Option.some.inj h).symm
    · rintro ⟨⟨⟨hname, hv⟩, hmembers⟩, rfl⟩
      obtain ⟨name, hname⟩ := Option.isSome_iff_exists.mp hname
      rw [buffer?_of_buffers hv, ih.mpr ⟨hmembers, rfl⟩, bufferedMember, hname]
      rfl

theorem buffer?_list {items : List Spelling} {d : Datum} :
    buffer? depth (list g items).sketch = some d ↔ depth ≠ 0 ∧
      (∀ v ∈ items, v.Buffers (depth - 1)) ∧ d = .list (items.map (·.buffered (depth - 1))) := by
  rw [sketch, buffer?]
  by_cases hd : depth = 0
  · simp [hd]
  · rw [if_neg (by simp [hd]), Option.map_eq_some_iff]
    constructor
    · rintro ⟨ds, hds, rfl⟩
      obtain ⟨hitems, rfl⟩ := bufferItems?_eq_some.mp hds
      exact ⟨hd, hitems, rfl⟩
    · rintro ⟨-, hitems, rfl⟩
      exact ⟨_, bufferItems?_eq_some.mpr ⟨hitems, rfl⟩, rfl⟩

theorem buffer?_record {members : List (Key × Spelling)} {d : Datum} :
    buffer? depth (record g members).sketch = some d ↔ depth ≠ 0 ∧
      (∀ m ∈ members, m.1.text.isSome ∧ m.2.Buffers (depth - 1)) ∧
        d = .record (members.map (bufferedMember (depth - 1))) := by
  rw [sketch, buffer?]
  by_cases hd : depth = 0
  · simp [hd]
  · rw [if_neg (by simp [hd]), Option.map_eq_some_iff]
    constructor
    · rintro ⟨ds, hds, rfl⟩
      obtain ⟨hmembers, rfl⟩ := bufferMembers?_eq_some.mp hds
      exact ⟨hd, hmembers, rfl⟩
    · rintro ⟨-, hmembers, rfl⟩
      exact ⟨_, bufferMembers?_eq_some.mpr ⟨hmembers, rfl⟩, rfl⟩

theorem buffers_list {items : List Spelling} :
    (list g items).Buffers depth ↔ depth ≠ 0 ∧ ∀ v ∈ items, v.Buffers (depth - 1) := by
  simp [Buffers, Option.isSome_iff_exists, buffer?_list]

theorem buffers_record {members : List (Key × Spelling)} : (record g members).Buffers depth ↔
    depth ≠ 0 ∧ ∀ m ∈ members, m.1.text.isSome ∧ m.2.Buffers (depth - 1) := by
  simp [Buffers, Option.isSome_iff_exists, buffer?_record]

end Spelling

section Buffered

variable {n : Nat} {v : Spelling}

theorem buffer?_eq_text {v : Sketch} {t : String} :
    buffer? n v = some (.text t) ↔ v = .text (some t) := by
  cases v with
  | text t' => cases t' <;> simp [buffer?]
  | _ => simp [buffer?]

theorem buffer?_eq_flag {v : Sketch} {b : Bool} :
    buffer? n v = some (.flag b) ↔ v = .flag b := by
  cases v <;> simp [buffer?]

theorem asText_buffered {t : String} :
    Datum.asText (v.buffered n) = .ok t ↔ v.sketch = .text (some t) := by
  rw [← buffer?_eq_text (n := n), Spelling.buffered]
  cases buffer? n v.sketch with
  | none => exact iff_of_false nofun nofun
  | some d => cases d <;> simp [Datum.asText]

theorem asFlag_buffered {b : Bool} :
    Datum.asFlag (v.buffered n) = .ok b ↔ v.sketch = .flag b := by
  rw [← buffer?_eq_flag (n := n), Spelling.buffered]
  cases buffer? n v.sketch with
  | none => exact iff_of_false nofun nofun
  | some d => cases d <;> simp [Datum.asFlag]

theorem buffers_of_text {t : String} (h : v.sketch = .text (some t)) : v.Buffers n := by
  rw [Spelling.Buffers, h]
  rfl

end Buffered

/-- What can be buffered can be read, like what is read at once. -/
theorem readMembers_iff {s : Shape Datum Checked ρ} {depth : Nat} {given : List String} {r r' : ρ}
    {members : List (Key × Spelling)} (hkeys : ∀ m ∈ members, m.1.text.isSome) :
    Datum.readMembers s given r (members.map (Spelling.bufferedMember depth)) = .ok r' ↔
      Taken (Spelling.buffered depth) s given r members r' := by
  constructor
  · intro h
    induction members generalizing given r with
    | nil =>
      rw [List.map_nil, Datum.readMembers] at h
      split at h
      · cases h
      · rename_i hmissing
        obtain rfl := Except.ok.inj h
        exact .done hmissing
    | cons m members ih =>
      obtain ⟨k, v⟩ := m
      obtain ⟨hkey, hrest⟩ := List.forall_mem_cons.mp hkeys
      obtain ⟨name, hname⟩ := Option.isSome_iff_exists.mp hkey
      rw [List.map_cons, Spelling.bufferedMember, hname, Option.getD_some, Datum.readMembers,
        Datum.keyField?] at h
      cases hfield : s.field? name with
      | none =>
        rw [hfield] at h
        exact .skip hname hfield (ih hrest h)
      | some f =>
        rw [hfield] at h
        obtain rfl := Shape.name_of_field? hfield
        change (if given.contains f.name then _ else _) = _ at h
        split at h
        · cases h
        · rename_i hnew
          obtain ⟨put, hread, h⟩ := of_bind h
          exact .take hname hfield (by simpa using hnew) hread (ih hrest h)
  · intro h
    induction h with
    | done hmissing => rw [List.map_nil, Datum.readMembers, hmissing]
    | @skip given r key name v members r' hkey hfield _ ih =>
      rw [List.map_cons, Spelling.bufferedMember, hkey, Option.getD_some, Datum.readMembers,
        Datum.keyField?, hfield]
      exact ih (List.forall_mem_cons.mp hkeys).2
    | @take given r key name v members f put r' hkey hfield hnew hread _ ih =>
      obtain rfl := Shape.name_of_field? hfield
      have hgiven : given.contains f.name = false := by simpa using hnew
      rw [List.map_cons, Spelling.bufferedMember, hkey, Option.getD_some, Datum.readMembers,
        Datum.keyField?, hfield]
      change (if given.contains f.name then _ else _) = _
      rw [hgiven, if_neg Bool.false_ne_true, hread]
      exact ih (List.forall_mem_cons.mp hkeys).2

theorem readItems_iff {fields : List (Field Datum Checked ρ)} {title : String} {total done : Nat}
    {tooLong : Nat → Nat → ShapeError} {depth : Nat} {r r' : ρ} {items : List Spelling} :
    Datum.readItems title total done tooLong r fields (items.map (Spelling.buffered depth)) =
      .ok r' ↔
      Listed (Spelling.buffered depth) fields r items r' := by
  constructor
  · intro h
    induction fields generalizing done r items with
    | nil =>
      cases items with
      | nil =>
        obtain rfl := Except.ok.inj h
        exact .done
      | cons v items => cases h
    | cons f fields ih =>
      cases items with
      | nil =>
        rw [List.map_nil, Datum.readItems] at h
        split at h
        · rename_i hf
          exact .absent hf (ih h)
        · cases h
      | cons v items =>
        rw [List.map_cons] at h
        obtain ⟨put, hread, h⟩ := of_bind h
        exact .item hread (ih h)
  · intro h
    induction h generalizing done with
    | done => rfl
    | absent hf _ ih =>
      rw [List.map_nil, Datum.readItems, if_pos hf]
      exact ih
    | item hread _ ih =>
      rw [List.map_cons, Datum.readItems, hread]
      exact ih

/-- What a record is read to, as members or as items. -/
def Recorded (form : Spelling → V) (s : Shape V (Except ε) ρ) (r : ρ) : Spelling → Prop
  | .scalar _ _ => False
  | .list _ items => Listed form s.fields s.blank items r
  | .record _ members => Taken form s [] s.blank members r

theorem wrong_ne_ok {α : Type} {wanted : Wanted} {v : Sketch} {x : α} :
    (wrong wanted v : Reader α) ≠ .ok x := by
  cases v with
  | number n => cases n <;> nofun
  | text t => cases t <;> nofun
  | _ => nofun

theorem readRecord_of_scalar {s : Shape Sketch Reader ρ} {n : Nat} {v : Sketch}
    (h : v.isScalar = true) : readRecord n s v = wrong (.titled s.title) v := by
  cases v <;> first | rfl | cases h

theorem readRecord_iff {s : Shape Sketch Reader ρ} {n : Nat} {r : ρ} {v : Spelling} :
    readRecord n s v.sketch = .ok r ↔ n ≠ 0 ∧ Recorded Spelling.sketch s r v := by
  cases v with
  | scalar g v =>
    rw [Spelling.sketch, readRecord_of_scalar v.single]
    exact iff_of_false wrong_ne_ok And.right
  | list g items =>
    rw [Spelling.sketch, readRecord, Recorded, ← recordItems_iff]
    by_cases hn : n = 0
    · simp [hn, malformed]
    · rw [if_neg hn]
      exact (and_iff_right hn).symm
  | record g members =>
    rw [Spelling.sketch, readRecord, Recorded, ← recordMembers_iff]
    by_cases hn : n = 0
    · simp [hn, malformed]
    · rw [if_neg hn]
      exact (and_iff_right hn).symm

theorem asRecord_of_scalar {s : Shape Datum Checked ρ} {tooLong : Nat → Nat → ShapeError} {n : Nat}
    {v : Sketch} {d : Datum} (h : v.isScalar = true) (hd : buffer? n v = some d) {r : ρ} :
    Datum.asRecord tooLong s d ≠ .ok r := by
  cases v with
  | number m =>
    cases m <;> cases hd
    nofun
  | text t =>
    cases t <;> cases hd
    nofun
  | list => cases h
  | record => cases h
  | _ => cases hd <;> nofun

theorem asRecord_iff {s : Shape Datum Checked ρ} {tooLong : Nat → Nat → ShapeError} {n : Nat}
    {r : ρ} {v : Spelling} : Datum.asRecord tooLong s (v.buffered n) = .ok r ↔
      v.Buffers n ∧ Recorded (Spelling.buffered (n - 1)) s r v := by
  by_cases hv : v.Buffers n
  · rw [and_iff_right hv]
    have hbuffer := Spelling.buffer?_of_buffers hv
    cases v with
    | scalar g v =>
      rw [Spelling.sketch] at hbuffer
      exact iff_of_false (asRecord_of_scalar v.single hbuffer) id
    | list g items =>
      obtain ⟨-, -, hd⟩ := Spelling.buffer?_list.mp hbuffer
      rw [hd, Datum.asRecord, Recorded, readItems_iff]
    | record g members =>
      obtain ⟨-, hmembers, hd⟩ := Spelling.buffer?_record.mp hbuffer
      rw [hd, Datum.asRecord, Recorded, readMembers_iff fun m hm => (hmembers m hm).1]
  · have hnull : v.buffered n = .null := by
      rw [Spelling.buffered, Option.not_isSome_iff_eq_none.mp hv]
      rfl
    refine iff_of_false (fun h => ?_) fun h => hv h.1
    rw [hnull] at h
    cases h

end Json
end ClassScribe
