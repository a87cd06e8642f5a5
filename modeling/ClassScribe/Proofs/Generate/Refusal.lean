import ClassScribe.Proofs.Generate.Reported
import ClassScribe.Proofs.Generate.Renewal

/-! # What a run leaves when nothing may be overwritten

On a memory that declines every prompt a run deletes nothing. It writes strictly below the directory
of its package, and goes on to write only if there was no such directory, so that no file was there
to be overwritten.
-/
namespace ClassScribe
open Host

namespace Generate

variable {m : Model} {root : ElementId} {o : Options} {base p : Path} {s s' : Memory} {t : Task}
  {ts : List Task} {r r' : Report} {cs : Calls} {out : Outcome}

/-- From one memory to another no directory is lost, and no file changes that none of the tasks
writes. -/
structure Spares (ts : List Task) (s s' : Memory) : Prop where
  directories : ∀ d, s.isDirectory d = true → s'.isDirectory d = true
  files : ∀ p, (∀ t ∈ ts, t.writes p = false) → s'.file? p = s.file? p

theorem Spares.refl (ts : List Task) (s : Memory) : Spares ts s s := ⟨fun _ => id, fun _ _ => rfl⟩

theorem Spares.cons {u : Memory} (h : Spares [t] s u) (h' : Spares ts u s') :
    Spares (t :: ts) s s' where
  directories d hd := h'.directories d (h.directories d hd)
  files p hw := by
    obtain ⟨ht, hts⟩ := List.forall_mem_cons.mp hw
    rw [h'.files p hts, h.files p (by simpa using ht)]

theorem settle_error {x : Except Failure Memory} {f : Failure} (h : (s.settle x).1 = .error f) :
    (s.settle x).2 = s := by
  cases x with
  | error f => rfl
  | ok u => cases h

theorem spares_carry (ht : ∀ d, t = .directory d → s.isDirectory d = false) :
    Spares [t] s (carry s t) := by
  constructor
  · intro d hd
    rcases isDirectory_carry (t := t) hd with h | ⟨q, rfl, hq, -⟩
    · exact h
    · rw [ht q rfl] at hq
      cases hq
  · intro p hw
    rcases file?_carry (s := s) (hw t List.mem_cons_self) with h | ⟨q, rfl, hq, -⟩
    · exact h
    · rw [ht q rfl] at hq
      cases hq

theorem Passes.spares (h : Passes t r cs r') (ha : Answers Memory.host s cs s')
    (hs : s.reply = .declined) : Spares [t] s s' := by
  rw [h.carry ha]
  apply spares_carry
  rintro d rfl
  cases h with
  | created => exact ha.1
  | recreated =>
    have hyes : s.reply = .accepted := ha.2.1
    rw [hs] at hyes
    cases hyes

theorem Halts.spares (h : Halts t r cs out) (ha : Answers Memory.host s cs s')
    (hs : s.reply = .declined) : Spares [t] s s' := by
  have accepted_ne {d : Path} {cs : Calls} (ha : Answers Memory.host s
      (found d true :: asked d .accepted :: cs) s') : Spares [t] s s' := by
    have hyes : s.reply = .accepted := ha.2.1
    rw [hs] at hyes
    cases hyes
  cases h with
  | declined p =>
    obtain ⟨-, -, rfl⟩ := ha
    exact ⟨fun _ => id, fun _ _ => rfl⟩
  | notCleared => exact accepted_ne ha
  | notRecreated => exact accepted_ne ha
  | notCreated p r f =>
    obtain ⟨-, hf, rfl⟩ := ha
    rw [show (Memory.host.answer (Memory.host.answer s (.directoryExists p)).2
      (.createDirectory p)).2 = s from settle_error hf]
    exact .refl _ s
  | notWritten i p content r f =>
    obtain ⟨hf, rfl⟩ := ha
    rw [show (Memory.host.answer s (.writeText p content true)).2 = s from settle_error hf]
    exact .refl _ s

theorem Conduct.spares (h : Conduct ts r cs out) (ha : Answers Memory.host s cs s')
    (hs : s.reply = .declined) : Spares ts s s' := by
  induction h generalizing s with
  | finished r =>
    obtain rfl : s' = s := ha
    exact .refl _ s'
  | passed hp _ ih =>
    obtain ⟨u, hu, ha⟩ := ha.append
    have hreply : u.reply = .declined := by rw [hp.carry hu, (carry_fixed s _).1, hs]
    exact (hp.spares hu hs).cons (ih ha hreply)
  | halted hh => exact (hh.spares ha hs).cons (.refl _ s')

/-- With the directory of the package there, a run asks one question and is cancelled. -/
theorem cancelled_at_once {rest : List Task} {d : Path}
    (h : tasks m root o base = .directory d :: rest) (hs : s.reply = .declined)
    (hd : s.isDirectory d = true) :
    ((generate m root o base).run Memory.host s).result = .cancelled { declined := some d } ∧
      ((generate m root o base).run Memory.host s).state =
        { s with prompts := s.prompts ++ [question d] } := by
  simp [generate, h, perform, clearDirectory, Script.run, Memory.host, Memory.answer, hd, hs]

/-- Where nothing may be overwritten, a run from a package leaves all directories and the contents
of all files, whatever its outcome, unless the directory `D` of the package is the empty path and was
no directory: then it can write a file that is there. If `D` was a directory, the run is cancelled and
only asks. -/
theorem generate_spares {sd : Snapshot.Document} (hd : Model.build sd = .ok m)
    (hn : ∀ e ∈ m.elements, Path.isAbsolute e.name = false) (hr : m.IsPackage root)
    (hs : Memory.Reachable base s) (hreply : s.reply = .declined) {D : Path}
    (hD : D = base.join (m.name root)) :
    (∀ d, s.isDirectory d = true →
      ((generate m root o base).run Memory.host s).state.isDirectory d = true) ∧
    (∀ p content, s.file? p = some content →
      ((generate m root o base).run Memory.host s).state.file? p = some content ∨
        D.text = "" ∧ s.isDirectory D = false ∧ ∃ t ∈ tasks m root o base, t.writes p = true) ∧
    (s.isDirectory D = true →
      ((generate m root o base).run Memory.host s).result = .cancelled { declined := some D } ∧
        ((generate m root o base).run Memory.host s).state =
          { s with prompts := s.prompts ++ [question D] }) := by
  have ht := Model.build_isTree hd
  have hrel (i : ElementId) (name : String) (hi : entryName? m i = some name) :=
    relative_entry hn hi
  have hroot : directoryPath m root base root = D := by
    rw [directoryPath, placeOf_root, hD]
  have hbase : base.steps <+: D.steps :=
    hroot ▸ base_above (hrel root _ (entryName?_of_package hr))
  obtain ⟨rest, htasks⟩ := tasks_of_package ht hr o base
  rw [hroot] at htasks
  have hspares := (generate_conduct Memory.host m root o base s).spares
    (Script.run_answers Memory.host s (generate m root o base)) hreply
  refine ⟨hspares.directories, ?_, cancelled_at_once htasks hreply⟩
  intro p content hp
  by_cases hdir : s.isDirectory D = true
  · left
    rw [(cancelled_at_once htasks hreply hdir).2]
    exact hp
  · by_cases hw : ∃ t ∈ tasks m root o base, t.writes p = true
    · -- a file strictly below `D` would have `D` for a directory above it
      refine .inr ⟨?_, by simpa using hdir, hw⟩
      obtain ⟨t, htm, hwt⟩ := hw
      obtain ⟨hpw, hps⟩ := file_below_root ht hrel hr htm hwt
      rw [hroot] at hpw hps
      by_contra hne
      obtain ⟨f, hf, hfp⟩ := Memory.mem_of_file? hp
      refine hdir (Memory.isDirectory_iff.mpr ?_)
      refine hs.rooted.directory_above_file (mt Path.steps_eq_nil_iff.mp hne) hbase hf ?_ ?_
      · rw [hfp]
        exact Path.isWithin_iff.mp hpw
      · rw [hfp]
        exact ne_of_beq_false hps
    · left
      rw [hspares.files p (by simpa using hw), hp]

/-- A file beside the place of a package. -/
def neighbour : Memory := (Memory.new ⟨"out"⟩ .declined).withFile ⟨"out/keep.rb"⟩ "old"

/-- The output of an earlier run, where nothing may be overwritten. -/
def occupied : Memory := (Memory.new ⟨"out"⟩ .declined).withFile ⟨"out/Shop/order.rb"⟩ "old"

def twinsRunOn (s : Memory) : Run Call.Answer Memory Outcome :=
  (generate twinsModel Model.root {} ⟨"out"⟩).run Memory.host s

/-- The first of two packages with one name is made, and the second is not to overwrite it. Neither
is made where the package around them is there already. -/
theorem twins_spared :
    ((∃ d, (twinsRunOn neighbour).result =
        .cancelled ⟨[⟨"out/Shop"⟩, d], [⟨"out/Shop/A/x.rb"⟩], some d⟩) ∧
      (∀ d, neighbour.isDirectory d = true →
        (twinsRunOn neighbour).state.isDirectory d = true) ∧
      (twinsRunOn neighbour).state.file? ⟨"out/keep.rb"⟩ = some "old") ∧
    (twinsRunOn occupied).result = .cancelled { declined := some ⟨"out/Shop"⟩ } ∧
    (twinsRunOn occupied).state = { occupied with prompts := [question ⟨"out/Shop"⟩] } := by
  have hd : Model.build twins = .ok twinsModel := rfl
  have hn : ∀ e ∈ twinsModel.elements, Path.isAbsolute e.name = false := by decide +kernel
  have hr : twinsModel.IsPackage Model.root := ⟨_, _, rfl, rfl⟩
  have hD : (⟨"out/Shop"⟩ : Path) = Path.join ⟨"out"⟩ (twinsModel.name Model.root) := rfl
  constructor
  · have hs : Memory.Reachable ⟨"out"⟩ neighbour := .withFile _ _ (.new _)
    have hkeep : neighbour.file? ⟨"out/keep.rb"⟩ = some "old" := by decide +kernel
    obtain ⟨hdirs, hfiles, -⟩ := generate_spares (o := {}) hd hn hr hs rfl hD
    refine ⟨⟨⟨"out/Shop/A"⟩, rfl⟩, hdirs, (hfiles _ _ hkeep).resolve_right ?_⟩
    rintro ⟨he, -⟩
    simp at he
  · have hs : Memory.Reachable ⟨"out"⟩ occupied := .withFile _ _ (.new _)
    have hdir : occupied.isDirectory ⟨"out/Shop"⟩ = true := by decide +kernel
    exact (generate_spares (o := {}) hd hn hr hs rfl hD).2.2 hdir

/-- A package without a name inside another. -/
def nameless : Snapshot.Document where
  name := "Shop"
  ownedElements := [
    { kind := "package", name := "", ownedElements := [{ kind := "class", name := "Order" }] }]

def namelessModel : Model := ⟨(nameless.entries.map (·.element)).toArray, []⟩

/-- A file beside the empty path, which was a directory and is none any more. -/
def unrootedFile : Memory :=
  (((Memory.new ⟨""⟩ .declined).answer (.deleteDirectory ⟨""⟩)).2.answer
    (.writeText ⟨"order.rb"⟩ "old" false)).2

/-- Not every file is left: where nothing stands above a file, it can be written again. -/
theorem generate_overwrites : ¬ ∀ (sd : Snapshot.Document) (m : Model) (root : ElementId)
    (o : Options) (base : Path) (s : Memory), Model.build sd = .ok m →
    (∀ e ∈ m.elements, Path.isAbsolute e.name = false) → m.IsPackage root →
    Memory.Reachable base s → s.reply = .declined → ∀ p content, s.file? p = some content →
      ((generate m root o base).run Memory.host s).state.file? p = some content := by
  intro hall
  have hkept := hall nameless namelessModel 1 {} ⟨""⟩ unrootedFile rfl (by decide +kernel)
    ⟨_, _, rfl, rfl⟩ (.answered _ (.answered _ (.new _))) rfl ⟨"order.rb"⟩ "old" (by decide +kernel)
  have hlost : ((generate namelessModel 1 {} ⟨""⟩).run Memory.host unrootedFile).state.file?
      ⟨"order.rb"⟩ ≠ some "old" := by decide +kernel
  exact hlost hkept

end Generate
end ClassScribe
