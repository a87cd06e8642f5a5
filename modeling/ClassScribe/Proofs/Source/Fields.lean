import Mathlib.Data.List.Nodup
import ClassScribe.Proofs.Source.Definition

/-! # The fields that an initializer sets

An initializer sets a field for every attribute of an instance, named for the attribute, and one for
every reference held, named for the stem of what it refers to. Lines that name the same field set
the same field, so what an earlier one has set is lost.
-/
namespace ClassScribe

namespace Source

/-- After lines that set the given fields, one after the other, the number of the line that a field
has its value from. -/
def setBy? (fields : List String) (field : String) : Option Nat :=
  fields.zipIdx.foldl (fun n x => if x.1 = field then some x.2 else n) none

variable {fields : List String} {field : String} {n : Nat}

theorem setBy?_concat (fields : List String) (last field : String) :
    setBy? (fields ++ [last]) field =
      if last = field then some fields.length else setBy? fields field := by
  simp [setBy?, List.zipIdx_append]

/-- A field has its value from the last line that sets it. -/
theorem setBy?_eq_some : setBy? fields field = some n ↔
    fields[n]? = some field ∧ ∀ k, n < k → fields[k]? ≠ some field := by
  induction fields using List.reverseRecOn generalizing n with
  | nil => simp [setBy?]
  | append_singleton fields last ih =>
    rw [setBy?_concat]
    by_cases hlast : last = field
    · have hend : (fields ++ [last])[fields.length]? = some field := by
        rw [List.getElem?_concat_length, hlast]
      rw [if_pos hlast]
      constructor
      · intro hn
        obtain rfl := Option.some.inj hn
        refine ⟨hend, fun k hk => ?_⟩
        rw [List.getElem?_eq_none (by rw [List.length_append, List.length_singleton]; omega)]
        exact nofun
      · rintro ⟨hn, hafter⟩
        obtain ⟨hlt, -⟩ := List.getElem?_eq_some_iff.mp hn
        rw [List.length_append, List.length_singleton] at hlt
        have hle : ¬ n < fields.length := fun hlt => hafter _ hlt hend
        exact congrArg some (by omega)
    · have hsame (k : Nat) :
          (fields ++ [last])[k]? = some field ↔ fields[k]? = some field := by
        rcases Nat.lt_trichotomy k fields.length with hk | rfl | hk
        · rw [List.getElem?_append_left hk]
        · simp [hlast]
        · rw [List.getElem?_eq_none (by simp; omega), List.getElem?_eq_none (by omega)]
      rw [if_neg hlast, ih]
      simp only [ne_eq, hsame]

/-- What every line has set is still there exactly if no two lines set the same field. -/
theorem setBy?_iff_nodup :
    (∀ n field, fields[n]? = some field → setBy? fields field = some n) ↔ fields.Nodup := by
  rw [List.nodup_iff_getElem?_ne_getElem?]
  constructor
  · intro h i j hij hj heq
    have hlast := h i fields[j] (heq.trans (List.getElem?_eq_getElem hj))
    exact (setBy?_eq_some.mp hlast).2 j hij (List.getElem?_eq_getElem hj)
  · intro h n field hn
    refine setBy?_eq_some.mpr ⟨hn, fun k hk hfield => ?_⟩
    exact h n k hk (List.getElem?_eq_some_iff.mp hfield).1 (hn.trans hfield.symm)

end Source

namespace Model

variable (m : Model) (root : ElementId)

/-- The fields that the initializer of a class sets, line by line. -/
def fields (i : ElementId) : List String := m.parameters i ++ (m.held i).map (·.stem)

/-- What the initializer of a class sets them to. -/
def fieldValues (i : ElementId) : List String :=
  m.parameters i ++ (m.held i).map fun h => Source.constantName m root h.element ++ ".new"

variable {m root} {i : ElementId}

/-- The lines of an initializer set one field each. -/
theorem assignments_eq : Source.assignments (m.parameters i) (m.constructions root i) =
    List.zipWith (fun field value => "@" ++ field ++ " = " ++ value) (m.fields i)
      (m.fieldValues root i) := by
  rw [fields, fieldValues, List.zipWith_append rfl, List.zipWith_self, List.zipWith_map,
    List.zipWith_self, Source.assignments, constructions, List.map_map]
  simp [Function.comp_def, String.append_assoc]

/-- No field is set twice exactly if no attribute, no stem and no attribute and stem name the same
one. -/
theorem nodup_fields : (m.fields i).Nodup ↔
    (m.parameters i).Nodup ∧ ((m.held i).map (·.stem)).Nodup ∧
      ∀ h ∈ m.held i, h.stem ∉ m.parameters i := by
  rw [fields, List.nodup_append]
  refine and_congr_right fun _ => and_congr_right fun _ => ⟨fun h x hx hmem => ?_, fun h => ?_⟩
  · exact h _ hmem _ (List.mem_map_of_mem hx) rfl
  · rintro n hn s hs rfl
    obtain ⟨x, hx, rfl⟩ := List.mem_map.mp hs
    exact h x hx hn

/-- The file of a class has the lines that set its fields, and a field has its value from the last
line for it. Everything an initializer is given and everything it makes stays in a field exactly if
the attributes have different names, what is held has different stems, and no stem is the name of an
attribute. -/
theorem fields_kept {d : Snapshot.Document} (hd : build d = .ok m) {o : Options}
    (ho : o.initializer = true) (hi : m.isConcrete i = true) (root : ElementId) :
    (∃ ls, Source.fileLines? m root o i = some ls ∧
      Source.HaveLines ls (Source.signature "initialize" (m.parameters i) ::
        List.zipWith (fun field value => "@" ++ field ++ " = " ++ value) (m.fields i)
          (m.fieldValues root i) ++ ["end"])) ∧
    (∀ n field, Source.setBy? (m.fields i) field = some n ↔
      (m.fields i)[n]? = some field ∧ ∀ k, n < k → (m.fields i)[k]? ≠ some field) ∧
    ((∀ n field, (m.fields i)[n]? = some field → Source.setBy? (m.fields i) field = some n) ↔
      (m.fields i).Nodup) ∧
    ((m.fields i).Nodup ↔ (m.parameters i).Nodup ∧ ((m.held i).map (·.stem)).Nodup ∧
      ∀ h ∈ m.held i, h.stem ∉ m.parameters i) := by
  obtain ⟨ls, hls, hlines⟩ := lines_initializer hd ho hi root
  rw [Source.texts_initializer, assignments_eq] at hlines
  exact ⟨⟨ls, hls, hlines⟩, fun _ _ => Source.setBy?_eq_some, Source.setBy?_iff_nodup, nodup_fields⟩

theorem chained_kept : ∃ ls, Source.fileLines? chainedModel Model.root {} 1 = some ls ∧
    Source.HaveLines ls
      ["def initialize(owner)", "@owner = owner", "@item = Stock::Item.new", "end"] ∧
    Source.setBy? ["owner", "item"] "owner" = some 0 ∧
    Source.setBy? ["owner", "item"] "item" = some 1 := by
  have hd : build chained = .ok chainedModel := rfl
  obtain ⟨⟨ls, hls, hlines⟩, -, hkept, hnodup⟩ :=
    fields_kept hd (o := {}) (i := 1) rfl (by decide) Model.root
  have hfields : chainedModel.fields 1 = ["owner", "item"] := by decide +kernel
  have htexts : Source.signature "initialize" (chainedModel.parameters 1) ::
      List.zipWith (fun field value => "@" ++ field ++ " = " ++ value) (chainedModel.fields 1)
        (chainedModel.fieldValues Model.root 1) ++ ["end"] =
      ["def initialize(owner)", "@owner = owner", "@item = Stock::Item.new", "end"] := by
    decide +kernel
  have hall := hkept.mpr (hnodup.mpr (by decide +kernel))
  rw [hfields] at hall
  exact ⟨ls, hls, htexts ▸ hlines, hall 0 "owner" rfl, hall 1 "item" rfl⟩

/-- An order has a person for an attribute and refers to a class of the same name. -/
def personal : Snapshot.Document where
  name := "Shop"
  ownedElements := [
    { kind := "class", name := "Order", attributes := [{ name := "person" }] },
    { kind := "class", name := "Person" }]
  relationships := [.association "" ⟨"Order", false⟩ ⟨"Person", true⟩]

def personalModel : Model where
  elements := (personal.entries.map (·.element)).toArray
  relationships := [.association ⟨"", ⟨1, false⟩, ⟨2, true⟩⟩]

/-- The names of the attributes are distinct, but the argument is lost: the field it is put in is
set to a new object. -/
theorem argument_lost : build personal = .ok personalModel ∧ personalModel.isConcrete 1 = true ∧
    (personalModel.parameters 1).Nodup ∧
    (∃ ls, Source.fileLines? personalModel Model.root {} 1 = some ls ∧
      Source.HaveLines ls
        ["def initialize(person)", "@person = person", "@person = Person.new", "end"]) ∧
    ¬ (personalModel.fields 1).Nodup ∧
    Source.setBy? (personalModel.fields 1) "person" = some 1 := by
  have hd : build personal = .ok personalModel := rfl
  obtain ⟨ls, hls, hlines⟩ :=
    lines_initializer hd (o := {}) (i := 1) rfl (by decide) Model.root
  have htexts : (Source.Item.initializer (personalModel.parameters 1)
      (personalModel.constructions Model.root 1)).texts =
      ["def initialize(person)", "@person = person", "@person = Person.new", "end"] := by
    decide +kernel
  exact ⟨hd, by decide, by decide, ⟨ls, hls, htexts ▸ hlines⟩, by decide +kernel,
    by decide +kernel⟩

end Model
end ClassScribe
