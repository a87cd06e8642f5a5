import ClassScribe.Note

/-! # Scripts

A script makes calls, and goes on according to their answers, until it is done. Between calls it
can leave notes. Running a script against something that answers gives the events in order.
-/
namespace ClassScribe

/-- Whatever answers calls. Its answers may depend on all that was called before. -/
structure Host {C : Type} (A : C → Type) (σ : Type) where
  answer : σ → (c : C) → A c × σ

namespace Host

inductive Script {C : Type} (A : C → Type) (α : Type) where
  | done (a : α)
  | note (n : Note) (rest : Script A α)
  | call (c : C) (next : A c → Script A α)

inductive Event {C : Type} (A : C → Type) where
  | noted (n : Note)
  | called (c : C) (answer : A c)

structure Run {C : Type} (A : C → Type) (σ α : Type) where
  events : List (Event A)
  result : α
  state : σ

variable {C D : Type} {A : C → Type} {B : D → Type} {σ α β : Type}

namespace Script

def bind : Script A α → (α → Script A β) → Script A β
  | done a, f => f a
  | note n rest, f => note n (rest.bind f)
  | call c next, f => call c fun a => (next a).bind f

instance : Monad (Script A) where
  pure := done
  bind := bind

def ask (c : C) : Script A (A c) := call c done

def notes (ns : List Note) (rest : Script A α) : Script A α := ns.foldr note rest

/-- Replace every call by a script that finds its answer. -/
def expand (f : (c : C) → Script B (A c)) : Script A α → Script B α
  | done a => done a
  | note n rest => note n (rest.expand f)
  | call c next => (f c).bind fun a => (next a).expand f

def run (h : Host A σ) : Script A α → σ → Run A σ α
  | done a, s => ⟨[], a, s⟩
  | note n rest, s =>
    let r := rest.run h s
    { r with events := .noted n :: r.events }
  | call c next, s =>
    let (a, s) := h.answer s c
    let r := (next a).run h s
    { r with events := .called c a :: r.events }

end Script

/-- The notes among the events, with those that a host leaves on a call. -/
def Run.notes (remarks : (c : C) → A c → List Note) (r : Run A σ α) : List Note :=
  r.events.flatMap fun e => match e with
    | .noted n => [n]
    | .called c a => remarks c a

end Host
end ClassScribe
