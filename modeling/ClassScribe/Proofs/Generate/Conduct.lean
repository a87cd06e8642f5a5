import ClassScribe.Generate
import ClassScribe.Proofs.Host.Calls

/-! # The conduct of generation

Whatever the host answers, the calls of a run fall into those for one task after the other, until
all tasks are done or one of them ends the run. A directory is only deleted after it was found and
its overwriting was confirmed, and nothing is called after a refusal.
-/
namespace ClassScribe
open Host

namespace Report

def created (r : Report) (p : Path) : Report := { r with directories := r.directories ++ [p] }
def wrote (r : Report) (p : Path) : Report := { r with files := r.files ++ [p] }

end Report

namespace Generate

abbrev Calls := List (Event Call.Answer)

def found (p : Path) (present : Bool) : Event Call.Answer := .called (.directoryExists p) present
def asked (p : Path) (reply : Confirmation) : Event Call.Answer := .called (.confirm (question p)) reply
def cleared (p : Path) (x : Except Failure Unit) : Event Call.Answer := .called (.deleteDirectory p) x
def made (p : Path) (x : Except Failure Unit) : Event Call.Answer := .called (.createDirectory p) x
def wrote (p : Path) (content : String) (x : Except Failure Unit) : Event Call.Answer :=
  .called (.writeText p content true) x

/-- The calls for a task that is done, between the reports before and after it. -/
inductive Passes : Task → Report → Calls → Report → Prop
  | skipped (name label r) : Passes (.skip name label) r [] r
  | created (p r) : Passes (.directory p) r [found p false, made p (.ok ())] (r.created p)
  | recreated (p r) : Passes (.directory p) r
      [found p true, asked p .accepted, cleared p (.ok ()), made p (.ok ())] (r.created p)
  | wrote (i p content r) : Passes (.file i p content) r [wrote p content (.ok ())] (r.wrote p)

/-- The calls for a task at which generation ends, and how it ends. -/
inductive Halts : Task → Report → Calls → Outcome → Prop
  | declined (p r) : Halts (.directory p) r [found p true, asked p .declined]
      (.cancelled { r with declined := some p })
  | notCleared (p r f) : Halts (.directory p) r
      [found p true, asked p .accepted, cleared p (.error f)] (.failed (.clearDirectory p f))
  | notCreated (p r f) : Halts (.directory p) r [found p false, made p (.error f)]
      (.failed (.createDirectory p f))
  | notRecreated (p r f) : Halts (.directory p) r
      [found p true, asked p .accepted, cleared p (.ok ()), made p (.error f)]
      (.failed (.createDirectory p f))
  | notWritten (i p content r f) : Halts (.file i p content) r [wrote p content (.error f)]
      (.failed (.writeText p f))

/-- The calls for tasks one after the other, and how generation ends with them. -/
inductive Conduct : List Task → Report → Calls → Outcome → Prop
  | finished (r) : Conduct [] r [] (.completed r)
  | passed {t ts r r' xs ys out} :
      Passes t r xs r' → Conduct ts r' ys out → Conduct (t :: ts) r (xs ++ ys) out
  | halted {t ts r xs out} : Halts t r xs out → Conduct (t :: ts) r xs out

theorem perform_conduct {σ : Type} (h : Host Call.Answer σ) (m : Model) (ts : List Task)
    (r : Report) (s : σ) :
    Conduct ts r ((perform m r ts).run h s).calls ((perform m r ts).run h s).result := by
  induction ts generalizing r s with
  | nil => exact .finished r
  | cons t ts ih =>
    cases t with
    | skip name label => exact .passed (.skipped name label r) (ih r s)
    | file i p content =>
      simp only [perform, Script.calls_notes, Script.result_notes, Script.calls_call,
        Script.result_call]
      rcases h.answer s (.writeText p content true) with ⟨_ | _, s⟩
      · exact .halted (.notWritten i p content r _)
      · exact .passed (.wrote i p content r) (ih _ s)
    | directory p =>
      simp only [perform, Script.calls_call, Script.result_call]
      rcases h.answer s (.directoryExists p) with ⟨_ | _, s⟩
      · simp only [Bool.false_eq_true, ↓reduceIte, makeDirectory, Script.calls_call,
          Script.result_call]
        rcases h.answer s (.createDirectory p) with ⟨_ | _, s⟩
        · exact .halted (.notCreated p r _)
        · exact .passed (.created p r) (ih _ s)
      · simp only [↓reduceIte, clearDirectory, Script.calls_call, Script.result_call]
        rcases h.answer s (.confirm (question p)) with ⟨_ | _, s⟩
        · simp only [Script.calls_note, Script.result_note, Script.calls_call, Script.result_call]
          rcases h.answer s (.deleteDirectory p) with ⟨_ | _, s⟩
          · exact .halted (.notCleared p r _)
          · simp only [makeDirectory, Script.calls_call, Script.result_call]
            rcases h.answer s (.createDirectory p) with ⟨_ | _, s⟩
            · exact .halted (.notRecreated p r _)
            · exact .passed (.recreated p r) (ih _ s)
        · exact .halted (.declined p r)

theorem generate_conduct {σ : Type} (h : Host Call.Answer σ) (m : Model) (root : ElementId)
    (o : Options) (base : Path) (s : σ) :
    Conduct (tasks m root o base) {} ((generate m root o base).run h s).calls
      ((generate m root o base).run h s).result :=
  perform_conduct h m (tasks m root o base) {} s

end Generate
end ClassScribe
