import ClassScribe.Proofs.Generate.Carry
import ClassScribe.Proofs.Generate.Walk

/-! # Runs on a memory host that complete

A task is ready when nothing stands against a new entry at its path. A run completes if each task
is ready on the memory that those before it left; with prompts accepted that is all it takes.
-/
namespace ClassScribe
open Host

namespace Generate

variable {m : Model} {p base : Path} {s s' : Memory} {t : Task} {ts : List Task} {r r' : Report}
  {cs : Calls} {out : Outcome} {content : String} {i : ElementId}

/-- Nothing stands against any of the tasks when its turn comes. -/
def AllReady : Memory → List Task → Prop
  | _, [] => True
  | s, t :: ts => (∀ p, t.path? = some p → s.Ready p) ∧ AllReady (carry s t) ts

theorem Passes.ready (h : Passes t r cs r') (ha : Answers Memory.host s cs s')
    (hp : t.path? = some p) : s.Ready p := by
  cases h with
  | skipped => cases hp
  | wrote i q content =>
    obtain rfl := Option.some.inj hp
    obtain ⟨u, hu, -⟩ := settle_ok ha.1
    exact (Memory.writeText_iff.mp hu).1
  | created q =>
    obtain rfl := Option.some.inj hp
    obtain ⟨-, hc, -⟩ := ha
    obtain ⟨u, hu, -⟩ := settle_ok hc
    exact (Memory.createDirectory_iff.mp hu).1
  | recreated q =>
    obtain rfl := Option.some.inj hp
    obtain ⟨-, -, hx, hc, -⟩ := ha
    rw [show (Memory.host.answer _ (.deleteDirectory q)).2 = _ from carry_cleared hx] at hc
    obtain ⟨u, hu, -⟩ := settle_ok hc
    obtain ⟨hw, hpar⟩ := (Memory.createDirectory_iff.mp hu).1
    rw [Memory.checkParent_cleared] at hpar
    exact ⟨hw, hpar⟩

theorem Conduct.ready (h : Conduct ts r cs out) (ho : out = .completed r')
    (ha : Answers Memory.host s cs s') : AllReady s ts := by
  induction h generalizing s with
  | finished r => exact trivial
  | passed hp _ ih =>
    obtain ⟨u, hu, ha⟩ := ha.append
    have hrest := ih ho ha
    rw [hp.carry hu] at hrest
    exact ⟨fun p => hp.ready hu, hrest⟩
  | halted hh => cases hh <;> cases ho

theorem answer_writeText (h : s.Ready p) : Memory.host.answer s (.writeText p content true) =
    (.ok (), carry s (.file i p content)) := by
  have hw : s.writeText p content true = .ok (carry s (.file i p content)) :=
    Memory.writeText_iff.mpr ⟨h, .inl rfl, rfl⟩
  simp [Memory.host, Memory.answer, hw, Memory.settle]

theorem answer_createDirectory (h : s.Ready p) (hd : s.isDirectory p = false) :
    Memory.host.answer s (.createDirectory p) =
      (.ok (), { s with directories := s.directories ++ [p.steps] }) := by
  have hc := Memory.createDirectory_iff.mpr ⟨h, hd, rfl⟩
  simp [Memory.host, Memory.answer, hc, Memory.settle]

theorem answer_deleteDirectory (h : s.Ready p) (hd : s.isDirectory p = true) :
    Memory.host.answer s (.deleteDirectory p) = (.ok (), s.cleared p) := by
  have hc := Memory.deleteDirectory_iff.mpr ⟨h.writable, hd, rfl⟩
  simp [Memory.host, Memory.answer, hc, Memory.settle]

theorem ready_cleared (h : s.Ready p) : (s.cleared p).Ready p :=
  ⟨h.writable, Memory.checkParent_cleared.trans h.parent⟩

theorem isDirectory_cleared (s : Memory) (p : Path) : (s.cleared p).isDirectory p = false := by
  simp [Memory.isDirectory, Memory.cleared]

/-- Where every prompt is accepted, a task that is ready is done. -/
theorem perform_ready (m : Model) (ts : List Task) (r : Report) (hs : s.reply = .accepted)
    (h : ∀ p, t.path? = some p → s.Ready p) :
    ∃ r', ((perform m r (t :: ts)).run Memory.host s).result =
      ((perform m r' ts).run Memory.host (carry s t)).result := by
  cases t with
  | skip name label => exact ⟨r, rfl⟩
  | file i p content =>
    refine ⟨r.wrote p, ?_⟩
    simp only [perform, Script.result_notes, Script.result_call, answer_writeText (i := i) (h p rfl)]
    rfl
  | directory p =>
    have hp := h p rfl
    refine ⟨r.created p, ?_⟩
    by_cases hd : s.isDirectory p = true
    · let u := { s with prompts := s.prompts ++ [question p] }
      have hfound : Memory.host.answer s (.directoryExists p) = (true, s) := by
        simp [Memory.host, Memory.answer, hd]
      have hasked : Memory.host.answer s (.confirm (question p)) = (.accepted, u) := by
        simp [Memory.host, Memory.answer, hs, u]
      have hu : u.Ready p := ⟨hp.writable, hp.parent⟩
      simp only [perform, clearDirectory, makeDirectory, Script.result_call, Script.result_note,
        hfound, hasked, if_true, answer_deleteDirectory hu hd,
        answer_createDirectory (ready_cleared hu) (isDirectory_cleared u p), carry, hd]
      rfl
    · have hd : s.isDirectory p = false := by simpa using hd
      have hfound : Memory.host.answer s (.directoryExists p) = (false, s) := by
        simp [Memory.host, Memory.answer, hd]
      simp only [perform, makeDirectory, Script.result_call, hfound, Bool.false_eq_true, if_false,
        answer_createDirectory hp hd, carry, hd]
      rfl

theorem completed_of_ready (m : Model) (r : Report) (hs : s.reply = .accepted)
    (h : AllReady s ts) : ∃ r', ((perform m r ts).run Memory.host s).result = .completed r' := by
  induction ts generalizing s r with
  | nil => exact ⟨r, rfl⟩
  | cons t ts ih =>
    obtain ⟨r', hr⟩ := perform_ready m ts r hs h.1
    obtain ⟨r'', hr'⟩ := ih r' ((carry_fixed s t).1.trans hs) h.2
    exact ⟨r'', hr.trans hr'⟩

theorem foldl_fixed (ts : List Task) (s : Memory) :
    (ts.foldl carry s).reply = s.reply ∧ (ts.foldl carry s).failing = s.failing := by
  induction ts generalizing s with
  | nil => exact ⟨rfl, rfl⟩
  | cons t ts ih =>
    obtain ⟨hreply, hfailing⟩ := carry_fixed s t
    exact ⟨(ih _).1.trans hreply, (ih _).2.trans hfailing⟩

theorem allReady_append {xs ys : List Task} :
    AllReady s (xs ++ ys) ↔ AllReady s xs ∧ AllReady (xs.foldl carry s) ys := by
  induction xs generalizing s with
  | nil => exact ⟨fun h => ⟨trivial, h⟩, fun h => h.2⟩
  | cons t xs ih => rw [List.cons_append, AllReady, AllReady, ih, List.foldl_cons, and_assoc]

/-- A task that is ready leaves no entry without a parent. -/
theorem rooted_carry (h : Memory.Rooted base s) (ht : ∀ p, t.path? = some p → s.Ready p) :
    Memory.Rooted base (carry s t) := by
  cases t with
  | skip name label => exact h
  | file i p content =>
    have hanswer := h.answer (.writeText p content true)
    have hwrite : s.answer (.writeText p content true) = _ := answer_writeText (i := i) (ht p rfl)
    rwa [hwrite] at hanswer
  | directory p =>
    have hp := ht p rfl
    by_cases hd : s.isDirectory p = true
    · let u := { s with prompts := s.prompts ++ [question p] }
      have hu : u.Ready p := ⟨hp.writable, hp.parent⟩
      have hclear : u.answer (.deleteDirectory p) = _ := answer_deleteDirectory hu hd
      have hmake : (u.cleared p).answer (.createDirectory p) = _ :=
        answer_createDirectory (ready_cleared hu) (isDirectory_cleared u p)
      have hcleared : Memory.Rooted base (u.cleared p) := by
        have hanswer := (show Memory.Rooted base u from ⟨h.directories, h.files⟩).answer
          (.deleteDirectory p)
        rwa [hclear] at hanswer
      have hanswer := hcleared.answer (.createDirectory p)
      rw [hmake] at hanswer
      rw [carry, if_pos hd]
      exact hanswer
    · have hanswer := h.answer (.createDirectory p)
      have hmake : s.answer (.createDirectory p) = _ :=
        answer_createDirectory hp (by simpa using hd)
      rw [hmake] at hanswer
      rw [carry, if_neg hd]
      exact hanswer

end Generate
end ClassScribe
