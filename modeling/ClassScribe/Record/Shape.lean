import ClassScribe.Record.Error

/-! # Record shapes

A shape lists the fields of a record in their order, with the record that has every default in
place. A format says how the values of one notation are met: texts, flags, lists, records and
unions told apart by a member. Shapes are written once and read through any format.
-/
namespace ClassScribe

inductive Presence where
  | required
  /-- May be absent, except from a record written as a list. -/
  | optional
  | defaulted
  deriving DecidableEq, Repr

structure Field (V : Type) (M : Type → Type) (ρ : Type) where
  name : String
  presence : Presence
  /-- Read the value; the result puts it into a record. -/
  read : V → M (ρ → ρ)

structure Shape (V : Type) (M : Type → Type) (ρ : Type) where
  title : String
  blank : ρ
  fields : List (Field V M ρ)

variable {V : Type} {M : Type → Type} {ρ : Type}

def Shape.field? (s : Shape V M ρ) (name : String) : Option (Field V M ρ) :=
  s.fields.find? (·.name == name)

def Shape.missing? (s : Shape V M ρ) (given : List String) : Option String :=
  (s.fields.find? fun f => f.presence == .required && !given.contains f.name).map (·.name)

structure Format (V : Type) (M : Type → Type) where
  text : V → M String
  /-- None where the notation marks an absent value. -/
  optional : {α : Type} → (V → M α) → V → M (Option α)
  flag : V → M Bool
  count : V → M Nat
  /-- The number is how many more levels of lists and records may be entered. -/
  list : {α : Type} → Nat → (V → M α) → V → M (List α)
  record : {ρ : Type} → Nat → Shape V M ρ → V → M ρ

/-- A union told apart by a member: its title, that member, and the variants. -/
structure Union where
  title : String
  tag : String
  variants : List String

/-- A format of whole documents. In a union the deciding member may come at any place, so the
other members are buffered before they are read. -/
structure Source (V : Type) (M : Type → Type) extends Format V M where
  union : Nat → Union → V → M (String × Datum)
  refuse : {α : Type} → ShapeError → M α

variable [Monad M]

def Format.textField (F : Format V M) (name : String) (presence : Presence)
    (put : String → ρ → ρ) : Field V M ρ :=
  ⟨name, presence, fun v => do return put (← F.text v)⟩

def Format.optionalField (F : Format V M) (name : String)
    (presence : Presence) (put : Option String → ρ → ρ) : Field V M ρ :=
  ⟨name, presence, fun v => do return put (← F.optional F.text v)⟩

def Format.flagField (F : Format V M) (name : String) (put : Bool → ρ → ρ) : Field V M ρ :=
  ⟨name, .defaulted, fun v => do return put (← F.flag v)⟩

def Format.countField (F : Format V M) (name : String) (put : Nat → ρ → ρ) : Field V M ρ :=
  ⟨name, .defaulted, fun v => do return put (← F.count v)⟩

def Format.field {α : Type} (_ : Format V M) (name : String) (presence : Presence)
    (read : V → M α) (put : α → ρ → ρ) : Field V M ρ :=
  ⟨name, presence, fun v => do return put (← read v)⟩

end ClassScribe
