import Mathlib.Data.List.Nodup
import ClassScribe.Json.Tree
import ClassScribe.Record.Buffered

/-! # Members that fill a record

A record is read back from members in field order if every member is what its field is read from and
no required field is left out. How a value is met is a matter of its notation, so values are given
by a form that takes them there.
-/
namespace ClassScribe

variable {V ρ : Type} {M : Type → Type} [Monad M]

/-- Members in the order of the fields take a record from one state to another. A field without a
member is not required. -/
inductive Fills (form : Json → V) : List (Field V M ρ) → List (String × Json) → ρ → ρ → Prop
  | done {r} : Fills form [] [] r r
  | given {f fields v put members r r'} : f.read (form v) = pure put →
      Fills form fields members (put r) r' →
      Fills form (f :: fields) ((f.name, v) :: members) r r'
  | absent {f fields members r r'} : f.presence ≠ .required → Fills form fields members r r' →
      Fills form (f :: fields) members r r'

/-- The fields ahead while a record is read: those given are others, and no field that is required
was passed over. -/
structure Ahead (s : Shape V M ρ) (given : List String) (fields : List (Field V M ρ)) : Prop where
  split : ∃ before, s.fields = before ++ fields ∧
    ∀ f ∈ before, f.presence = .required → f.name ∈ given
  fresh : ∀ f ∈ fields, f.name ∉ given

namespace Ahead

omit [Monad M]

variable {s : Shape V M ρ} {given : List String} {f : Field V M ρ} {fields : List (Field V M ρ)}

theorem start (s : Shape V M ρ) : Ahead s [] s.fields :=
  ⟨⟨[], rfl, by simp⟩, by simp⟩

theorem missing? (h : Ahead s given []) : s.missing? given = none := by
  obtain ⟨before, hfields, hgiven⟩ := h.split
  rw [List.append_nil] at hfields
  rw [Shape.missing?, Option.map_eq_none_iff, List.find?_eq_none, hfields]
  intro f hf
  by_cases hr : f.presence = .required
  · simp [hr, hgiven f hf hr]
  · simp [hr]

theorem field? (hs : (s.fields.map (·.name)).Nodup) (h : Ahead s given (f :: fields)) :
    s.field? f.name = some f := by
  obtain ⟨before, hfields, -⟩ := h.split
  rw [hfields, List.map_append, List.nodup_append] at hs
  rw [Shape.field?, hfields, List.find?_append]
  have hbefore : before.find? (·.name == f.name) = none := by
    rw [List.find?_eq_none]
    intro g hg heq
    exact hs.2.2 _ (List.mem_map_of_mem hg) f.name (by simp) (beq_iff_eq.mp heq)
  rw [hbefore]
  simp

theorem given_cons (hs : (s.fields.map (·.name)).Nodup) (h : Ahead s given (f :: fields)) :
    Ahead s (f.name :: given) fields := by
  obtain ⟨before, hfields, hgiven⟩ := h.split
  refine ⟨⟨before ++ [f], by simp [hfields], fun g hg hr => ?_⟩, fun g hg => ?_⟩
  · rcases List.mem_append.mp hg with hg | hg
    · exact List.mem_cons_of_mem _ (hgiven g hg hr)
    · simp [List.mem_singleton.mp hg]
  · rw [hfields, List.map_append, List.map_cons] at hs
    have hne := (List.nodup_cons.mp hs.of_append_right).1
    have hname : g.name ≠ f.name := by
      intro heq
      exact hne (heq ▸ List.mem_map_of_mem hg)
    simp [hname, h.fresh g (List.mem_cons_of_mem _ hg)]

theorem absent (hf : f.presence ≠ .required) (h : Ahead s given (f :: fields)) :
    Ahead s given fields := by
  obtain ⟨before, hfields, hgiven⟩ := h.split
  refine ⟨⟨before ++ [f], by simp [hfields], fun g hg hr => ?_⟩,
    fun g hg => h.fresh g (List.mem_cons_of_mem _ hg)⟩
  rcases List.mem_append.mp hg with hg | hg
  · exact hgiven g hg hr
  · exact absurd (List.mem_singleton.mp hg ▸ hr) hf

end Ahead

/-- A format in which texts and flags are met as they are. -/
structure Format.Meets (F : Format V M) (form : Json → V) : Prop where
  text : ∀ s, F.text (form (.text s)) = pure s
  flag : ∀ b, F.flag (form (.flag b)) = pure b

section Meets

variable [LawfulMonad M] {F : Format V M} {form : Json → V} {fields : List (Field V M ρ)}
  {members : List (String × Json)} {r r' : ρ} {name : String}

theorem fills_text (hF : F.Meets form) {presence : Presence} {put : String → ρ → ρ} {s : String}
    (h : Fills form fields members (put s r) r') :
    Fills form (F.textField name presence put :: fields) ((name, .text s) :: members) r r' := by
  have hread : (F.textField name presence put).read (form (.text s)) = pure (put s) := by
    simp [Format.textField, hF.text]
  exact .given hread h

theorem fills_flag (hF : F.Meets form) {put : Bool → ρ → ρ} {b : Bool}
    (h : Fills form fields members (put b r) r') :
    Fills form (F.flagField name put :: fields) ((name, .flag b) :: members) r r' := by
  have hread : (F.flagField name put).read (form (.flag b)) = pure (put b) := by
    simp [Format.flagField, hF.flag]
  exact .given hread h

theorem fills_field {α : Type} {presence : Presence} {read : V → M α} {put : α → ρ → ρ} {v : Json}
    {x : α} (hread : read (form v) = pure x) (h : Fills form fields members (put x r) r') :
    Fills form (F.field name presence read put :: fields) ((name, v) :: members) r r' := by
  have hfield : (F.field name presence read put).read (form v) = pure (put x) := by
    simp [Format.field, hread]
  exact .given hfield h

end Meets

namespace Datum

mutual

/-- A value as it is buffered. -/
def ofJson : Json → Datum
  | .null => .null
  | .flag b => .flag b
  | .number n => .number (.natural n)
  | .text s => .text s
  | .list items => .list (ofItems items)
  | .record members => .record (ofMembers members)

def ofItems : List Json → List Datum
  | [] => []
  | v :: rest => ofJson v :: ofItems rest

def ofMembers : List (String × Json) → List (Datum × Datum)
  | [] => []
  | (k, v) :: rest => (.text k, ofJson v) :: ofMembers rest

end

theorem meets : inner.Meets ofJson :=
  ⟨fun s => by rw [ofJson]; rfl, fun b => by rw [ofJson]; rfl⟩

theorem readMembers_of_fills {s : Shape Datum Checked ρ} (hs : (s.fields.map (·.name)).Nodup)
    {fields : List (Field Datum Checked ρ)} {members : List (String × Json)} {r r' : ρ}
    (h : Fills ofJson fields members r r') {given : List String} (ha : Ahead s given fields) :
    readMembers s given r (ofMembers members) = .ok r' := by
  induction h generalizing given with
  | done =>
    rw [ofMembers, readMembers, ha.missing?]
  | @given f fields v put members r r' hread _ ih =>
    have hnew : given.contains f.name = false := by simpa using ha.fresh f List.mem_cons_self
    have hkey : keyField? s (.text f.name) = pure (some f) := by
      rw [keyField?, ha.field? hs]
      rfl
    rw [ofMembers, readMembers, hkey, pure_bind]
    simp only [hnew, hread, pure_bind]
    exact ih (ha.given_cons hs)
  | absent hf _ ih => exact ih (ha.absent hf)

theorem record_of_fills {s : Shape Datum Checked ρ} (hs : (s.fields.map (·.name)).Nodup)
    {members : List (String × Json)} {r : ρ} (h : Fills ofJson s.fields members s.blank r) (n : Nat) :
    inner.record n s (ofJson (.record members)) = .ok r := by
  rw [ofJson]
  exact readMembers_of_fills hs h (.start s)

end Datum
end ClassScribe
