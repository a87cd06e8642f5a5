import ClassScribe.Proofs.Generate.Conduct
import ClassScribe.Proofs.Host.Memory

/-! # Generation on a memory host

A run that completes carries out its tasks one after the other, so the memory it ends with is
determined by the one it began with and the tasks.
-/
namespace ClassScribe
open Host

def Task.file? : Task → Option Path
  | .file _ p _ => some p
  | _ => none

def Task.directory? : Task → Option Path
  | .directory p => some p
  | _ => none

/-- Whether a task writes the file at a place. -/
def Task.writes (t : Task) (p : Path) : Bool := t.file?.any (·.same p)

@[simp] theorem Task.writes_file (i : ElementId) (q p : Path) (content : String) :
    (Task.file i q content).writes p = q.same p := rfl

def Outcome.completed? : Outcome → Option Report
  | .completed r => some r
  | _ => none

theorem Outcome.completed?_eq_some {out : Outcome} {r : Report} :
    out.completed? = some r ↔ out = .completed r := by
  cases out <;> simp [completed?]

theorem Outcome.completed_of_files {out : Outcome} {texts : List String}
    (h : out.completed?.map (·.files.map (·.text)) = some texts) :
    ∃ r, out = .completed r ∧ r.files.map (·.text) = texts := by
  obtain ⟨r, hr, hf⟩ := Option.map_eq_some_iff.mp h
  exact ⟨r, Outcome.completed?_eq_some.mp hr, hf⟩

namespace Generate

/-- A memory after a task was carried out on it. -/
def carry (s : Memory) : Task → Memory
  | .skip _ _ => s
  | .file _ p content =>
    { s with files := Memory.putFile p content s.files, writes := s.writes ++ [p] }
  | .directory p =>
    let s := if s.isDirectory p then { s.cleared p with prompts := s.prompts ++ [question p] } else s
    { s with directories := s.directories ++ [p.steps] }

variable {s s' : Memory} {t : Task} {ts : List Task} {r r' : Report} {cs : Calls} {out : Outcome}
  {p d : Path} {content : String}

theorem settle_ok {x : Except Failure Memory} (h : (s.settle x).1 = .ok ()) :
    ∃ u, x = .ok u ∧ (s.settle x).2 = u := by
  cases x with
  | error f => cases h
  | ok u => exact ⟨u, rfl, rfl⟩

theorem carry_created (h : (s.answer (.createDirectory p)).1 = .ok ()) :
    (s.answer (.createDirectory p)).2 = { s with directories := s.directories ++ [p.steps] } := by
  obtain ⟨u, hu, hs⟩ := settle_ok h
  exact hs.trans (Memory.createDirectory_ok hu).2.2

theorem carry_cleared (h : (s.answer (.deleteDirectory p)).1 = .ok ()) :
    (s.answer (.deleteDirectory p)).2 = s.cleared p := by
  obtain ⟨u, hu, hs⟩ := settle_ok h
  exact hs.trans (Memory.deleteDirectory_ok hu).2

theorem carry_written {i : ElementId} (h : (s.answer (.writeText p content true)).1 = .ok ()) :
    (s.answer (.writeText p content true)).2 = carry s (.file i p content) := by
  obtain ⟨u, hu, hs⟩ := settle_ok h
  exact hs.trans (Memory.writeText_ok hu).2

/-- A task that is done leaves the memory as the task alone says. -/
theorem Passes.carry (h : Passes t r cs r') (ha : Answers Memory.host s cs s') :
    s' = carry s t := by
  cases h with
  | skipped => exact ha
  | wrote i p content =>
    obtain ⟨hw, rfl⟩ := ha
    exact carry_written hw
  | created p =>
    obtain ⟨hd, hc, rfl⟩ := ha
    have hd : s.isDirectory p = false := hd
    rw [Generate.carry, if_neg (by simp [hd])]
    exact carry_created hc
  | recreated p =>
    obtain ⟨hd, -, hx, hc, rfl⟩ := ha
    have hd : s.isDirectory p = true := hd
    rw [Generate.carry, if_pos hd]
    rw [show (Memory.host.answer _ (.deleteDirectory p)).2 = _ from carry_cleared hx] at hc ⊢
    exact carry_created hc

/-- On any host, the report of a run that completes lists what its tasks made. -/
theorem Conduct.reports (h : Conduct ts r cs out) (ho : out = .completed r') :
    r' = ⟨r.directories ++ ts.filterMap Task.directory?, r.files ++ ts.filterMap Task.file?,
      r.declined⟩ := by
  induction h with
  | finished r =>
    obtain rfl := Outcome.completed.inj ho
    simp
  | passed hp _ ih =>
    rw [ih ho]
    cases hp <;> simp [List.filterMap_cons, Task.directory?, Task.file?, Report.created,
      Report.wrote]
  | halted hh => cases hh <;> cases ho

/-- A run that completes does all its tasks. -/
theorem Conduct.carry (h : Conduct ts r cs out) (ho : out = .completed r')
    (ha : Answers Memory.host s cs s') : s' = ts.foldl Generate.carry s := by
  induction h generalizing s with
  | finished r => exact ha
  | passed hp _ ih =>
    obtain ⟨u, hu, ha⟩ := ha.append
    have hs := ih ho ha
    rwa [hp.carry hu] at hs
  | halted hh => cases hh <;> cases ho

section Generate

variable {m : Model} {root : ElementId} {o : Options} {base : Path}

/-- The report of a completed run is told by the tasks alone, whatever the host. -/
theorem generate_reports {σ : Type} {h : Host Call.Answer σ} {s : σ}
    (hr : ((generate m root o base).run h s).result = .completed r) :
    r = ⟨(tasks m root o base).filterMap Task.directory?,
      (tasks m root o base).filterMap Task.file?, none⟩ :=
  (generate_conduct h m root o base s).reports hr

theorem generate_carry (h : ((generate m root o base).run Memory.host s).result = .completed r) :
    ((generate m root o base).run Memory.host s).state = (tasks m root o base).foldl carry s :=
  (generate_conduct Memory.host m root o base s).carry h
    (Script.run_answers Memory.host s (generate m root o base))

end Generate

/-- Tasks change neither the answer to prompts nor the paths that fail. -/
theorem carry_fixed (s : Memory) (t : Task) :
    (carry s t).reply = s.reply ∧ (carry s t).failing = s.failing := by
  cases t with
  | skip name label => exact ⟨rfl, rfl⟩
  | file i p content => exact ⟨rfl, rfl⟩
  | directory p =>
    rw [carry]
    split <;> exact ⟨rfl, rfl⟩

theorem file?_carry_file (s : Memory) (i : ElementId) (p q : Path) (content : String) :
    (carry s (.file i p content)).file? q = if p.same q then some content else s.file? q :=
  Memory.lookup_putFile p q content s.files

theorem isDirectory_carry_file (s : Memory) (i : ElementId) (p q : Path) (content : String) :
    (carry s (.file i p content)).isDirectory q = s.isDirectory q := rfl

theorem file?_carry_directory (s : Memory) (p q : Path) :
    (carry s (.directory p)).file? q =
      if s.isDirectory p && q.isWithin p then none else s.file? q := by
  by_cases hp : s.isDirectory p = true
  · rw [hp, Bool.true_and, Memory.file?_eq s, ← Memory.lookup_filter p q s.files]
    simp only [carry, hp, if_true]
    rfl
  · rw [Bool.not_eq_true] at hp
    simp only [carry, hp, Bool.false_and, Bool.false_eq_true, if_false]
    rfl

theorem isDirectory_carry_directory : (carry s (.directory p)).isDirectory d = true ↔
    p.same d = true ∨
      s.isDirectory d = true ∧ (s.isDirectory p = true → d.isWithin p = false) := by
  have hmem (ds : List (List Path.Step)) :
      d.steps ∈ ds ++ [p.steps] ↔ p.same d = true ∨ d.steps ∈ ds := by
    rw [List.mem_append, List.mem_singleton, Path.same_iff, eq_comm, or_comm]
  rw [Memory.isDirectory_iff, Memory.isDirectory_iff]
  by_cases hp : s.isDirectory p = true
  · simp only [carry, hp, if_true, hmem, Memory.cleared, List.mem_filter, forall_const]
    rw [Bool.not_eq_true', Path.isWithin]
  · simp only [carry, hp, if_false, hmem, false_imp_iff, and_true, Bool.false_eq_true]

/-- A task that does not write a file leaves it, or removes it with a directory around it. -/
theorem file?_carry (hw : t.writes p = false) : (carry s t).file? p = s.file? p ∨
    ∃ q, t = .directory q ∧ s.isDirectory q = true ∧ p.isWithin q = true ∧
      (carry s t).file? p = none := by
  cases t with
  | skip name label => exact .inl rfl
  | file i q content =>
    have hq : q.same p = false := by simpa [Task.writes, Task.file?] using hw
    rw [file?_carry_file, hq]
    exact .inl rfl
  | directory q =>
    rw [file?_carry_directory]
    by_cases h : (s.isDirectory q && p.isWithin q) = true
    · have hb := Bool.and_eq_true_iff.mp h
      exact .inr ⟨q, rfl, hb.1, hb.2, if_pos h⟩
    · exact .inl (if_neg h)

theorem isDirectory_carry (hd : s.isDirectory d = true) : (carry s t).isDirectory d = true ∨
    ∃ q, t = .directory q ∧ s.isDirectory q = true ∧ d.isWithin q = true := by
  cases t with
  | skip name label => exact .inl hd
  | file i q content => exact .inl hd
  | directory q =>
    by_cases hq : s.isDirectory q = true ∧ d.isWithin q = true
    · exact .inr ⟨q, rfl, hq⟩
    · refine .inl (isDirectory_carry_directory.mpr (.inr ⟨hd, fun h => ?_⟩))
      simpa [h] using hq

theorem isDirectory_of_carry (h : (carry s t).isDirectory d = true) :
    s.isDirectory d = true ∨ ∃ q, t = .directory q ∧ q.same d = true := by
  cases t with
  | skip name label => exact .inl h
  | file i q content => exact .inl h
  | directory q =>
    rcases isDirectory_carry_directory.mp h with h | h
    · exact .inr ⟨q, rfl, h⟩
    · exact .inl h.1

/-- What becomes of a place depends on what is at it and on whether the task finds a directory. -/
theorem isDirectory_carry_congr (hd : s.isDirectory d = s'.isDirectory d)
    (ht : ∀ q, t = .directory q → s.isDirectory q = s'.isDirectory q) :
    (carry s t).isDirectory d = (carry s' t).isDirectory d := by
  cases t with
  | skip name label => exact hd
  | file i q content => exact hd
  | directory q =>
    apply Bool.eq_iff_iff.mpr
    rw [isDirectory_carry_directory, isDirectory_carry_directory, hd, ht q rfl]

theorem file?_carry_congr (hp : s.file? p = s'.file? p)
    (ht : ∀ q, t = .directory q → s.isDirectory q = s'.isDirectory q) :
    (carry s t).file? p = (carry s' t).file? p := by
  cases t with
  | skip name label => exact hp
  | file i q content => rw [file?_carry_file, file?_carry_file, hp]
  | directory q => rw [file?_carry_directory, file?_carry_directory, ht q rfl, hp]

theorem file?_foldl_none (h : s.file? p = none) (hw : ∀ t ∈ ts, t.writes p = false) :
    (ts.foldl carry s).file? p = none := by
  induction ts generalizing s with
  | nil => exact h
  | cons t ts ih =>
    refine ih ?_ fun u hu => hw u (List.mem_cons_of_mem _ hu)
    rcases file?_carry (s := s) (hw t List.mem_cons_self) with ht | ⟨q, -, -, -, ht⟩
    · exact ht.trans h
    · exact ht

/-- What is written last is still there at the end, if no directory around it was made again. -/
theorem file?_foldl_kept (h : s.file? p = some content) (hw : ∀ t ∈ ts, t.writes p = false)
    (hd : ∀ q, .directory q ∈ ts → p.isWithin q = true → s.isDirectory q = false)
    (hts : ts.Pairwise fun t u => ∀ q q', t = .directory q → u = .directory q' →
      p.isWithin q' = true → q.same q' = false) :
    (ts.foldl carry s).file? p = some content := by
  induction ts generalizing s with
  | nil => exact h
  | cons t ts ih =>
    obtain ⟨first, rest⟩ := List.pairwise_cons.mp hts
    refine ih ?_ (fun u hu => hw u (List.mem_cons_of_mem _ hu)) ?_ rest
    · rcases file?_carry (s := s) (hw t List.mem_cons_self) with ht | ⟨q, rfl, hq, hpq, -⟩
      · exact ht.trans h
      · rw [hd q List.mem_cons_self hpq] at hq
        cases hq
    · intro q hq hpq
      by_contra hdir
      rw [Bool.not_eq_false] at hdir
      rcases isDirectory_of_carry hdir with hs | ⟨q', rfl, hsame⟩
      · rw [hd q (List.mem_cons_of_mem _ hq) hpq] at hs
        cases hs
      · rw [first _ hq q' q rfl rfl hpq] at hsame
        cases hsame

theorem isDirectory_foldl (h : s.isDirectory d = true)
    (hd : ∀ q, .directory q ∈ ts → d.isWithin q = false) :
    (ts.foldl carry s).isDirectory d = true := by
  induction ts generalizing s with
  | nil => exact h
  | cons t ts ih =>
    refine ih ?_ fun q hq => hd q (List.mem_cons_of_mem _ hq)
    rcases isDirectory_carry (t := t) h with ht | ⟨q, rfl, -, hq⟩
    · exact ht
    · rw [hd q List.mem_cons_self] at hq
      cases hq

theorem isDirectory_of_foldl (h : (ts.foldl carry s).isDirectory d = true) :
    s.isDirectory d = true ∨ ∃ q, .directory q ∈ ts ∧ q.same d = true := by
  induction ts generalizing s with
  | nil => exact .inl h
  | cons t ts ih =>
    rcases ih h with hc | ⟨q, hq, hs⟩
    · rcases isDirectory_of_carry hc with hs | ⟨q, rfl, hs⟩
      · exact .inl hs
      · exact .inr ⟨q, List.mem_cons_self, hs⟩
    · exact .inr ⟨q, List.mem_cons_of_mem _ hq, hs⟩

/-- As long as a file is there, so is a directory that was around it. -/
theorem guarded_foldl (h : s.file? p = none ∨ s.isDirectory d = true) (hp : p.isWithin d = true)
    (hw : ∀ t ∈ ts, t.writes p = false) :
    (ts.foldl carry s).file? p = none ∨ (ts.foldl carry s).isDirectory d = true := by
  induction ts generalizing s with
  | nil => exact h
  | cons t ts ih =>
    refine ih ?_ fun u hu => hw u (List.mem_cons_of_mem _ hu)
    have ht := file?_carry (s := s) (hw t List.mem_cons_self)
    rcases h with h | h
    · rcases ht with ht | ⟨q, -, -, -, ht⟩
      · exact .inl (ht.trans h)
      · exact .inl ht
    · rcases isDirectory_carry (t := t) h with hd | ⟨q, rfl, hq, hdq⟩
      · exact .inr hd
      · left
        have hpq : p.isWithin q = true :=
          Path.isWithin_iff.mpr ((Path.isWithin_iff.mp hdq).trans (Path.isWithin_iff.mp hp))
        rw [file?_carry_directory, hq, hpq]
        rfl

/-- A file is there at the end because a task wrote it and none did later, or because it was there
before and no task wrote it. -/
theorem origin_of_foldl (h : (ts.foldl carry s).file? p = some content) :
    (∃ before i q after, ts = before ++ .file i q content :: after ∧ q.same p = true ∧
      ∀ t ∈ after, t.writes p = false) ∨
    s.file? p = some content ∧ ∀ t ∈ ts, t.writes p = false := by
  induction ts generalizing s with
  | nil => exact .inr ⟨h, by simp⟩
  | cons t ts ih =>
    rcases ih h with ⟨before, i, q, after, rfl, hq, ha⟩ | ⟨hs, hw⟩
    · exact .inl ⟨t :: before, i, q, after, rfl, hq, ha⟩
    · by_cases ht : t.writes p = true
      · cases t with
        | skip name label => cases ht
        | directory q => cases ht
        | file i q c =>
          have hq : q.same p = true := ht
          rw [file?_carry_file, if_pos hq] at hs
          obtain rfl := Option.some.inj hs
          exact .inl ⟨[], i, q, ts, rfl, hq, hw⟩
      · rw [Bool.not_eq_true] at ht
        right
        refine ⟨?_, List.forall_mem_cons.mpr ⟨ht, hw⟩⟩
        rcases file?_carry (s := s) ht with hc | ⟨q, -, -, -, hc⟩
        · exact hc ▸ hs
        · rw [hc] at hs
          cases hs

end Generate
end ClassScribe
