import ClassScribe.Host.Script

/-! # The calls of a run

A run is seen here through its calls and their answers alone. The calls of a script are those that
its host answered one after the other, so all that holds of a run is read off them.
-/
namespace ClassScribe.Host

variable {C : Type} {A : C → Type} {σ α : Type}

def Event.isCall : Event A → Bool
  | .noted _ => false
  | .called _ _ => true

def Run.calls (r : Run A σ α) : List (Event A) := r.events.filter (·.isCall)

/-- The events a host brings about on its way from one state to another. -/
def Answers (h : Host A σ) : σ → List (Event A) → σ → Prop
  | s, [], t => t = s
  | s, .noted _ :: es, t => Answers h s es t
  | s, .called c a :: es, t => (h.answer s c).1 = a ∧ Answers h (h.answer s c).2 es t

theorem Answers.append {h : Host A σ} {es fs : List (Event A)} {s t : σ}
    (ha : Answers h s (es ++ fs) t) : ∃ u, Answers h s es u ∧ Answers h u fs t := by
  induction es generalizing s with
  | nil => exact ⟨s, rfl, ha⟩
  | cons e es ih =>
    cases e with
    | noted n => exact ih ha
    | called c a =>
      obtain ⟨hc, ha⟩ := ha
      obtain ⟨u, hu, ht⟩ := ih ha
      exact ⟨u, ⟨hc, hu⟩, ht⟩

namespace Script

variable (h : Host A σ) (s : σ) (n : Note) (c : C) (x : Script A α) (next : A c → Script A α)

@[simp] theorem calls_done (a : α) : ((done a : Script A α).run h s).calls = [] := rfl
@[simp] theorem result_done (a : α) : ((done a : Script A α).run h s).result = a := rfl
@[simp] theorem calls_note : ((note n x).run h s).calls = (x.run h s).calls := rfl
@[simp] theorem result_note : ((note n x).run h s).result = (x.run h s).result := rfl

@[simp] theorem calls_call : ((call c next).run h s).calls =
    .called c (h.answer s c).1 :: ((next (h.answer s c).1).run h (h.answer s c).2).calls := rfl

@[simp] theorem result_call : ((call c next).run h s).result =
    ((next (h.answer s c).1).run h (h.answer s c).2).result := rfl

@[simp] theorem calls_notes (ns : List Note) : ((notes ns x).run h s).calls = (x.run h s).calls := by
  induction ns with
  | nil => rfl
  | cons n ns ih => exact ih

@[simp] theorem result_notes (ns : List Note) :
    ((notes ns x).run h s).result = (x.run h s).result := by
  induction ns with
  | nil => rfl
  | cons n ns ih => exact ih

/-- The calls of a run take its host from the first state to the last. -/
theorem run_answers : Answers h s (x.run h s).calls (x.run h s).state := by
  induction x generalizing s with
  | done a => rfl
  | note n x ih => exact ih s
  | call c next ih => exact ⟨rfl, ih _ _⟩

end Script

variable {h : Host A σ} {s t u : σ} {c : C} {a : A c} {n : Note} {x y z : Script A α}
  {next : A c → Script A α}

/-- From a state, a script ends as another does from a state that the first has come to. -/
def GoesOn (h : Host A σ) (x : Script A α) (s : σ) (y : Script A α) (t : σ) : Prop :=
  (x.run h s).result = (y.run h t).result ∧ (x.run h s).state = (y.run h t).state

theorem GoesOn.refl (h : Host A σ) (x : Script A α) (s : σ) : GoesOn h x s x s := ⟨rfl, rfl⟩

theorem GoesOn.trans (hxy : GoesOn h x s y t) (hyz : GoesOn h y t z u) : GoesOn h x s z u :=
  ⟨hxy.1.trans hyz.1, hxy.2.trans hyz.2⟩

theorem GoesOn.note : GoesOn h (.note n x) s x s := ⟨rfl, rfl⟩

theorem GoesOn.notes (ns : List Note) : GoesOn h (.notes ns x) s x s := by
  induction ns with
  | nil => exact .refl h x s
  | cons n ns ih => exact GoesOn.note.trans ih

theorem GoesOn.call (hc : h.answer s c = (a, t)) : GoesOn h (.call c next) s (next a) t := by
  rw [GoesOn, Script.run, hc]
  exact ⟨rfl, rfl⟩

end ClassScribe.Host
