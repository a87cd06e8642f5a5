import ClassScribe.Proofs.Generate.Conduct

/-! # Consent and the end of a run

What any host can count on, stated on the calls of a run alone: nothing is deleted without consent,
nothing is asked of the host after its first refusal, and the outcome tells what the host was asked
and how it answered last.
-/
namespace ClassScribe.Generate
open Host

def refusal? : Event Call.Answer → Option GenerateError
  | .called (.createDirectory p) (.error f) => some (.createDirectory p f)
  | .called (.deleteDirectory p) (.error f) => some (.clearDirectory p f)
  | .called (.writeText p _ _) (.error f) => some (.writeText p f)
  | _ => none

def isDecline : Event Call.Answer → Bool
  | .called (.confirm _) .declined => true
  | _ => false

def isStop (c : Event Call.Answer) : Bool := (refusal? c).isSome || isDecline c

@[simp] theorem isStop_found (p : Path) (b : Bool) : isStop (found p b) = false := rfl
@[simp] theorem isStop_accepted (p : Path) : isStop (asked p .accepted) = false := rfl
@[simp] theorem isStop_cleared (p : Path) : isStop (cleared p (.ok ())) = false := rfl
@[simp] theorem isStop_made (p : Path) : isStop (made p (.ok ())) = false := rfl
@[simp] theorem isStop_wrote (p : Path) (content : String) :
    isStop (wrote p content (.ok ())) = false := rfl

def created? : Event Call.Answer → Option Path
  | .called (.createDirectory p) (.ok ()) => some p
  | _ => none

def written? : Event Call.Answer → Option Path
  | .called (.writeText p _ _) (.ok ()) => some p
  | _ => none

/-- The calls of a run and its outcome, as a host sees them. -/
structure Considerate (cs : Calls) (out : Outcome) : Prop where
  consent : ∀ before d x after, cs = before ++ .called (.deleteDirectory d) x :: after →
    ∃ earlier, before = earlier ++
      [.called (.directoryExists d) true, .called (.confirm (question d)) .accepted]
  halt : ∀ before c after, cs = before ++ c :: after → isStop c = true → after = []
  failed_iff : (∃ e, out = .failed e) ↔ ∃ c ∈ cs, (refusal? c).isSome = true
  failed_last : ∀ e, out = .failed e → ∃ before c, cs = before ++ [c] ∧ refusal? c = some e
  cancelled_iff : (∃ r, out = .cancelled r) ↔
    ∃ before q, cs = before ++ [.called (.confirm q) .declined]
  cancelled_last : ∀ r, out = .cancelled r → ∃ before d, r.declined = some d ∧
    cs = before ++ [.called (.directoryExists d) true, .called (.confirm (question d)) .declined]
  completed_iff : (∃ r, out = .completed r) ↔ ∀ c ∈ cs, isStop c = false
  completed_declined : ∀ r, out = .completed r → r.declined = none
  reported : ∀ r, out = .completed r ∨ out = .cancelled r →
    r.directories = cs.filterMap created? ∧ r.files = cs.filterMap written?

/-- How the calls for tasks end: with the tasks, with a refusal, or with an overwrite declined. -/
inductive Ending (r : Report) (cs : Calls) : Outcome → Prop
  | completed (r') : r'.declined = r.declined → (∀ c ∈ cs, isStop c = false) →
      Ending r cs (.completed r')
  | failed (before c e) : cs = before ++ [c] → refusal? c = some e →
      (∀ b ∈ before, isStop b = false) → Ending r cs (.failed e)
  | cancelled (before d r') : cs = before ++ [found d true, asked d .declined] →
      r'.declined = some d → (∀ b ∈ before, isStop b = false) → Ending r cs (.cancelled r')

theorem Passes.quiet {t : Task} {r r' : Report} {xs : Calls} (h : Passes t r xs r') :
    r'.declined = r.declined ∧ ∀ c ∈ xs, isStop c = false := by
  cases h <;> exact ⟨rfl, by simp⟩

theorem Ending.after {r r' : Report} {xs cs : Calls} {out : Outcome}
    (hd : r'.declined = r.declined) (hx : ∀ c ∈ xs, isStop c = false) (h : Ending r' cs out) :
    Ending r (xs ++ cs) out := by
  have quiet {ys : Calls} (hy : ∀ c ∈ ys, isStop c = false) :
      ∀ c ∈ xs ++ ys, isStop c = false := by
    intro c hc
    exact (List.mem_append.mp hc).elim (hx c) (hy c)
  cases h with
  | completed _ hr hc => exact .completed _ (hr.trans hd) (quiet hc)
  | failed before c e he hc hb =>
    exact .failed (xs ++ before) c e (by rw [he, List.append_assoc]) hc (quiet hb)
  | cancelled before d _ he hr hb =>
    exact .cancelled (xs ++ before) d _ (by rw [he, List.append_assoc]) hr (quiet hb)

theorem Halts.ending {t : Task} {r : Report} {xs : Calls} {out : Outcome} (h : Halts t r xs out) :
    Ending r xs out := by
  cases h with
  | declined p r => exact .cancelled [] p _ rfl rfl (by simp)
  | notCleared p r f =>
    exact .failed [found p true, asked p .accepted] _ _ rfl rfl (by simp)
  | notCreated p r f => exact .failed [found p false] _ _ rfl rfl (by simp)
  | notRecreated p r f =>
    exact .failed [found p true, asked p .accepted, cleared p (.ok ())] _ _ rfl rfl (by simp)
  | notWritten i p content r f => exact .failed [] _ _ rfl rfl (by simp)

theorem Conduct.ending {ts : List Task} {r : Report} {cs : Calls} {out : Outcome}
    (h : Conduct ts r cs out) : Ending r cs out := by
  induction h with
  | finished r => exact .completed r rfl (by simp)
  | passed hp _ ih => exact ih.after hp.quiet.1 hp.quiet.2
  | halted hh => exact hh.ending

theorem Ending.halt {r : Report} {cs : Calls} {out : Outcome} (h : Ending r cs out)
    {before after : Calls} {c : Event Call.Answer} (he : cs = before ++ c :: after)
    (hc : isStop c = true) : after = [] := by
  have last {init : Calls} {z : Event Call.Answer} (hi : ∀ b ∈ init, isStop b = false)
      (hz : before ++ c :: after = init ++ [z]) : after = [] := by
    rcases List.eq_nil_or_concat after with rfl | ⟨front, y, rfl⟩
    · rfl
    · have hz : (before ++ c :: front) ++ [y] = init ++ [z] := by simpa using hz
      have hm : c ∈ init := (List.append_inj_left' hz rfl) ▸ by simp
      simp [hi c hm] at hc
  cases h with
  | completed _ _ hq => simp [hq c (by simp [he])] at hc
  | failed init z _ hz _ hi => exact last hi (he.symm.trans hz)
  | cancelled init d _ hz _ hi =>
    have hz : cs = (init ++ [found d true]) ++ [asked d .declined] := by simpa using hz
    refine last ?_ (he.symm.trans hz)
    intro b hb
    rcases List.mem_append.mp hb with hb | hb
    · exact hi b hb
    · simp [List.mem_singleton.mp hb]

theorem isStop_of_refusal {c : Event Call.Answer} {e : GenerateError} (h : refusal? c = some e) :
    isStop c = true := by
  simp [isStop, h]

theorem refusal_of_quiet {c : Event Call.Answer} (h : isStop c = false) : refusal? c = none := by
  simp only [isStop, Bool.or_eq_false_iff] at h
  exact Option.isSome_eq_false_iff.mp h.1 |> Option.isNone_iff_eq_none.mp

theorem Ending.failed_iff {r : Report} {cs : Calls} {out : Outcome} (h : Ending r cs out) :
    (∃ e, out = .failed e) ↔ ∃ c ∈ cs, (refusal? c).isSome = true := by
  constructor
  · rintro ⟨e, rfl⟩
    cases h with
    | failed before c _ he hc _ => exact ⟨c, by simp [he], by simp [hc]⟩
  · rintro ⟨c, hc, hs⟩
    have quiet (hq : isStop c = false) : False := by simp [refusal_of_quiet hq] at hs
    cases h with
    | completed _ _ hq => exact (quiet (hq c hc)).elim
    | failed before z e he hz hq => exact ⟨e, rfl⟩
    | cancelled before d _ he _ hq =>
      simp only [he, List.mem_append, List.mem_cons, List.not_mem_nil, or_false] at hc
      rcases hc with hc | rfl | rfl
      · exact (quiet (hq c hc)).elim
      · simp [found, refusal?] at hs
      · simp [asked, refusal?] at hs

theorem Ending.cancelled_iff {r : Report} {cs : Calls} {out : Outcome} (h : Ending r cs out) :
    (∃ r', out = .cancelled r') ↔ ∃ before q, cs = before ++ [.called (.confirm q) .declined] := by
  constructor
  · rintro ⟨r', rfl⟩
    cases h with
    | cancelled before d _ he _ _ =>
      exact ⟨before ++ [found d true], question d, by simp [he, asked]⟩
  · rintro ⟨before, q, he⟩
    cases h with
    | completed _ _ hq =>
      have hs := hq (.called (.confirm q) .declined) (by simp [he])
      simp [isStop, isDecline] at hs
    | failed init c e hi hc _ =>
      obtain ⟨-, hl⟩ := List.append_inj' (hi.symm.trans he) rfl
      obtain rfl : c = .called (.confirm q) .declined := by simpa using hl
      simp [refusal?] at hc
    | cancelled init d r' _ _ _ => exact ⟨r', rfl⟩

theorem Ending.completed_iff {r : Report} {cs : Calls} {out : Outcome} (h : Ending r cs out) :
    (∃ r', out = .completed r') ↔ ∀ c ∈ cs, isStop c = false := by
  constructor
  · rintro ⟨r', rfl⟩
    cases h with
    | completed _ _ hq => exact hq
  · intro hq
    cases h with
    | completed r' _ _ => exact ⟨r', rfl⟩
    | failed before c e he hc _ =>
      have := hq c (by simp [he])
      simp [isStop_of_refusal hc] at this
    | cancelled before d _ he _ _ =>
      have := hq (asked d .declined) (by simp [he])
      simp [asked, isStop, isDecline] at this

/-- Every deletion follows directly on finding the directory and on consent to overwrite it. -/
def Consented (cs : Calls) : Prop :=
  ∀ before d x after, cs = before ++ .called (.deleteDirectory d) x :: after →
    ∃ earlier, before = earlier ++
      [.called (.directoryExists d) true, .called (.confirm (question d)) .accepted]

theorem Consented.append {xs ys : Calls} (hx : Consented xs) (hy : Consented ys) :
    Consented (xs ++ ys) := by
  intro before d x after he
  rcases List.append_eq_append_iff.mp he with ⟨front, rfl, hf⟩ | ⟨back, rfl, hb⟩
  · obtain ⟨earlier, rfl⟩ := hy front d x after hf
    exact ⟨xs ++ earlier, by rw [List.append_assoc]⟩
  · cases back with
    | nil =>
      obtain ⟨earlier, h⟩ := hy [] d x after hb.symm
      simp at h
    | cons c back =>
      obtain ⟨rfl, -⟩ := List.cons_eq_cons.mp hb
      exact hx before d x back rfl

theorem consented_of_kept {cs : Calls}
    (h : ∀ d x, Event.called (.deleteDirectory d) x ∉ cs) : Consented cs := by
  intro before d x after he
  exact absurd (by simp [he]) (h d x)

theorem consented_cleared (p : Path) (x : Except Failure Unit) :
    Consented [found p true, asked p .accepted, cleared p x] := by
  intro before d y after he
  match before with
  | [] => simp [found] at he
  | [_] => simp [asked] at he
  | [_, _] =>
    simp only [cleared, List.cons_append, List.nil_append, List.cons.injEq, Event.called.injEq,
      Call.deleteDirectory.injEq] at he
    obtain ⟨rfl, rfl, ⟨rfl, -⟩, -⟩ := he
    exact ⟨[], rfl⟩
  | _ :: _ :: _ :: _ => simp at he

theorem Passes.consented {t : Task} {r r' : Report} {xs : Calls} (h : Passes t r xs r') :
    Consented xs := by
  cases h with
  | recreated p r =>
    have hm : Consented [made p (.ok ())] := consented_of_kept (by simp [made])
    exact (consented_cleared p (.ok ())).append hm
  | skipped | created | wrote =>
    exact consented_of_kept (by simp [found, made, Generate.wrote])

theorem Halts.consented {t : Task} {r : Report} {xs : Calls} {out : Outcome}
    (h : Halts t r xs out) : Consented xs := by
  cases h with
  | notCleared p r f => exact consented_cleared p (.error f)
  | notRecreated p r f =>
    have hm : Consented [made p (.error f)] := consented_of_kept (by simp [made])
    exact (consented_cleared p (.ok ())).append hm
  | declined | notCreated | notWritten =>
    exact consented_of_kept (by simp [found, asked, made, Generate.wrote])

theorem Conduct.consented {ts : List Task} {r : Report} {cs : Calls} {out : Outcome}
    (h : Conduct ts r cs out) : Consented cs := by
  induction h with
  | finished r => exact consented_of_kept (by simp)
  | passed hp _ ih => exact hp.consented.append ih
  | halted hh => exact hh.consented

/-- A report tells what was created and written since another one. -/
def Tells (r : Report) (cs : Calls) (r' : Report) : Prop :=
  r'.directories = r.directories ++ cs.filterMap created? ∧
    r'.files = r.files ++ cs.filterMap written?

theorem Tells.trans {r r' r'' : Report} {xs ys : Calls} (h : Tells r xs r')
    (h' : Tells r' ys r'') : Tells r (xs ++ ys) r'' := by
  obtain ⟨hd, hf⟩ := h
  obtain ⟨hd', hf'⟩ := h'
  exact ⟨by simp [hd', hd], by simp [hf', hf]⟩

theorem Passes.tells {t : Task} {r r' : Report} {xs : Calls} (h : Passes t r xs r') :
    Tells r xs r' := by
  cases h with
  | skipped => exact ⟨by simp, by simp⟩
  | created p r => exact ⟨rfl, (List.append_nil r.files).symm⟩
  | recreated p r => exact ⟨rfl, (List.append_nil r.files).symm⟩
  | wrote i p content r => exact ⟨(List.append_nil r.directories).symm, rfl⟩

theorem Conduct.tells {ts : List Task} {r r' : Report} {cs : Calls} {out : Outcome}
    (h : Conduct ts r cs out) (ho : out = .completed r' ∨ out = .cancelled r') : Tells r cs r' := by
  induction h with
  | finished r =>
    obtain rfl : r = r' := by simpa using ho
    exact ⟨by simp, by simp⟩
  | passed hp _ ih => exact hp.tells.trans (ih ho)
  | @halted t ts r xs out hh =>
    cases hh with
    | declined p =>
      obtain rfl : { r with declined := some p } = r' := by simpa using ho
      exact ⟨(List.append_nil r.directories).symm, (List.append_nil r.files).symm⟩
    | notCleared | notCreated | notRecreated | notWritten => simp at ho

/-- Generation is considerate of every host, whatever its answers depend on. -/
theorem generate_considerate (m : Model) (root : ElementId) (o : Options) (base : Path) {σ : Type}
    (h : Host Call.Answer σ) (s : σ) :
    Considerate ((generate m root o base).run h s).calls ((generate m root o base).run h s).result := by
  have hc := generate_conduct h m root o base s
  have he := hc.ending
  exact {
    consent := hc.consented
    halt := fun _ _ _ hs hx => he.halt hs hx
    failed_iff := he.failed_iff
    failed_last := by
      intro e ho
      rw [ho] at he
      cases he with
      | failed before c _ hb hc _ => exact ⟨before, c, hb, hc⟩
    cancelled_iff := he.cancelled_iff
    cancelled_last := by
      intro r ho
      rw [ho] at he
      cases he with
      | cancelled before d _ hb hd _ => exact ⟨before, d, hd, hb⟩
    completed_iff := he.completed_iff
    completed_declined := by
      intro r ho
      rw [ho] at he
      cases he with
      | completed _ hd _ => exact hd
    reported := by
      intro r ho
      obtain ⟨hd, hf⟩ := hc.tells ho
      exact ⟨by simpa using hd, by simpa using hf⟩ }

end ClassScribe.Generate
