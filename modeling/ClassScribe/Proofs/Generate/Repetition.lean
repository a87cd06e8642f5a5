import ClassScribe.Proofs.Generate.Ready
import ClassScribe.Proofs.Generate.Renewal
import ClassScribe.Proofs.Generate.Reported

/-! # Generating again

What a run can do depends on the directories of its memory and on the paths that fail. After its
first task a second run finds the directories that the first one found, so it does the same again
and ends with the same directories and files.
-/
namespace ClassScribe
open Host

namespace Generate

variable {m : Model} {root i : ElementId} {o : Options} {base p d : Path} {s s' u : Memory}
  {t : Task} {ts : List Task} {r r' : Report} {cs : Calls} {out : Outcome} {content : String}

/-- The same places are directories, and the same paths fail. -/
structure Agree (s s' : Memory) : Prop where
  directories : ∀ p, s.isDirectory p = s'.isDirectory p
  failing : s.failing = s'.failing

theorem Agree.ready (h : Agree s s') (hp : s.Ready p) : s'.Ready p where
  writable := by rw [← hp.writable, Memory.checkWritable, Memory.checkWritable, h.failing]
  parent := (Memory.checkParent_congr fun q _ => h.directories q).symm.trans hp.parent

theorem Agree.carry (h : Agree s s') (t : Task) : Agree (carry s t) (carry s' t) where
  directories p := isDirectory_carry_congr (h.directories p) fun q _ => h.directories q
  failing := by rw [(carry_fixed s t).2, (carry_fixed s' t).2, h.failing]

theorem Agree.allReady (h : Agree s s') (hs : AllReady s ts) : AllReady s' ts := by
  induction ts generalizing s s' with
  | nil => exact trivial
  | cons t ts ih => exact ⟨fun p hp => h.ready (hs.1 p hp), ih (h.carry t) hs.2⟩

theorem Agree.foldl (h : Agree s s') (ts : List Task) :
    Agree (ts.foldl Generate.carry s) (ts.foldl Generate.carry s') := by
  induction ts generalizing s s' with
  | nil => exact h
  | cons t ts ih => exact ih (h.carry t)

theorem Agree.file?_foldl (h : Agree s s') (hp : s.file? p = s'.file? p) (ts : List Task) :
    (ts.foldl Generate.carry s).file? p = (ts.foldl Generate.carry s').file? p := by
  induction ts generalizing s s' with
  | nil => exact hp
  | cons t ts ih => exact ih (h.carry t) (file?_carry_congr hp fun q _ => h.directories q)

theorem isDirectory_of_elsewhere (h : elsewhere d s = elsewhere d s')
    (hp : p.isWithin d = false) : s.isDirectory p = s'.isDirectory p := by
  have hmem (u : Memory) : u.isDirectory p = true ↔ p.steps ∈ (elsewhere d u).1 := by
    have hp : d.steps.isPrefixOf p.steps = false := hp
    rw [Memory.isDirectory_iff, elsewhere, List.mem_filter, hp]
    simp
  rw [Bool.eq_iff_iff, hmem, hmem, h]

theorem file?_of_elsewhere (h : elsewhere d s = elsewhere d s') (hp : p.isWithin d = false) :
    s.file? p = s'.file? p := by
  have hlookup (u : Memory) : u.file? p = Memory.lookup (elsewhere d u).2 p := by
    rw [elsewhere, Memory.lookup_filter, hp]
    rfl
  rw [hlookup, hlookup, h]

/-- A directory stays when all tasks make directories at its place or below. -/
theorem isDirectory_foldl_below (h : s.isDirectory d = true)
    (hts : ∀ q, .directory q ∈ ts → q.isWithin d = true) :
    (ts.foldl carry s).isDirectory d = true := by
  induction ts generalizing s with
  | nil => exact h
  | cons t ts ih =>
    refine ih ?_ fun q hq => hts q (List.mem_cons_of_mem _ hq)
    rcases isDirectory_carry (t := t) h with hd | ⟨q, rfl, -, hdq⟩
    · exact hd
    · -- a directory around `d` that lies below `d` is at the same place
      have hqd := Path.isWithin_iff.mp (hts q List.mem_cons_self)
      have hdq := Path.isWithin_iff.mp hdq
      have hsame : q.same d = true := Path.same_iff.mpr (hqd.eq_of_length_le hdq.length_le).symm
      exact isDirectory_carry_directory.mpr (.inl hsame)

theorem reachable_of_answers {es : Calls} (hs : Memory.Reachable base s)
    (ha : Answers Memory.host s es s') : Memory.Reachable base s' := by
  induction es generalizing s with
  | nil => exact (show s' = s from ha) ▸ hs
  | cons e es ih =>
    cases e with
    | noted n => exact ih hs ha
    | called c a => exact ih (hs.answered c) ha.2

/-- What tasks do once more on the memory `s'` that they left: everything is ready for them, and no
directory changes. Files change at odd places alone, and there they are removed. -/
structure Again (ts : List Task) (odd : Path → Prop) (s' : Memory) : Prop where
  ready : AllReady s' ts
  directories : ∀ p, (ts.foldl carry s').isDirectory p = s'.isDirectory p
  files : ∀ p, (ts.foldl carry s').file? p = s'.file? p ∨
    odd p ∧ (ts.foldl carry s').file? p = none

theorem again_of_leaf (ht : m.IsTree) (hr : ¬ m.IsPackage root)
    (hs : AllReady s (tasks m root o base)) :
    Again (tasks m root o base) (fun _ => False) ((tasks m root o base).foldl carry s) := by
  rw [tasks_of_leaf ht hr] at hs ⊢
  cases htask : taskOf? m root o base root with
  | none => exact ⟨trivial, fun _ => rfl, fun _ => .inl rfl⟩
  | some t =>
    rw [htask] at hs
    cases t with
    | directory q => exact absurd (taskOf?_directory.mp htask).1 hr
    | skip name label => exact ⟨hs, fun _ => rfl, fun _ => .inl rfl⟩
    | file i q content =>
      have hagree : Agree s (carry s (.file i q content)) := ⟨fun _ => rfl, rfl⟩
      refine ⟨hagree.allReady hs, fun _ => rfl, fun p => .inl ?_⟩
      simp only [Option.toList_some, List.foldl_cons, List.foldl_nil, file?_carry_file]
      split <;> rfl

/-- The tasks of a package, which make its directory first, on a memory and on what they leave. -/
structure Packaged (base d : Path) (rest : List Task) (s s' : Memory) : Prop where
  rooted : Memory.Rooted base s
  rooted' : Memory.Rooted base s'
  above : base.steps <+: d.steps
  place : d.text ≠ "" ∨ s.isDirectory d = true
  within : ∀ t ∈ Task.directory d :: rest, ∀ p, t.path? = some p → p.isWithin d = true
  left : (Task.directory d :: rest).foldl carry s = s'

namespace Packaged

variable {rest : List Task}

theorem elsewhere_eq (h : Packaged base d rest s s') : elsewhere d s' = elsewhere d s :=
  h.left ▸ elsewhere_foldl h.within

theorem failing_eq (h : Packaged base d rest s s') : s'.failing = s.failing :=
  h.left ▸ (foldl_fixed _ s).2

theorem isDirectory (h : Packaged base d rest s s') : s'.isDirectory d = true := by
  rw [← h.left, List.foldl_cons]
  refine isDirectory_foldl_below (isDirectory_carry_directory.mpr (.inl (Path.same_iff.mpr rfl))) ?_
  exact fun q hq => h.within _ (List.mem_cons_of_mem _ hq) q rfl

theorem place_both (h : Packaged base d rest s s') :
    d.text ≠ "" ∨ s.isDirectory d = true ∧ s'.isDirectory d = true :=
  h.place.imp id fun hd => ⟨hd, h.isDirectory⟩

/-- The first task leaves the same directories the second time. -/
theorem agree (h : Packaged base d rest s s') :
    Agree (carry s (.directory d)) (carry s' (.directory d)) where
  directories p := by
    by_cases hp : p.isWithin d = true
    · exact (alike_first h.rooted h.rooted' h.above h.place_both).directories p hp
    · have hself (q : Path) (hq : (Task.directory d).path? = some q) : q.isWithin d = true :=
        Path.isWithin_iff.mpr (Option.some.inj hq ▸ List.prefix_rfl)
      refine isDirectory_of_elsewhere (d := d) ?_ (by simpa using hp)
      rw [elsewhere_carry hself, elsewhere_carry hself, h.elsewhere_eq]
  failing := by rw [(carry_fixed s _).2, (carry_fixed s' _).2, h.failing_eq]

theorem allReady (h : Packaged base d rest s s') (hs : AllReady s (.directory d :: rest)) :
    AllReady s' (.directory d :: rest) := by
  refine ⟨?_, h.agree.allReady hs.2⟩
  rintro p hp
  obtain rfl := Option.some.inj hp
  obtain ⟨hwrite, hparent⟩ := hs.1 _ rfl
  refine ⟨by rw [← hwrite, Memory.checkWritable, Memory.checkWritable, h.failing_eq], ?_⟩
  rw [← hparent]
  exact Memory.checkParent_congr fun q hq =>
    isDirectory_of_elsewhere h.elsewhere_eq (Path.parent_outside hq)

theorem directories (h : Packaged base d rest s s') (p : Path) :
    ((Task.directory d :: rest).foldl carry s').isDirectory p = s'.isDirectory p := by
  conv_rhs => rw [← h.left]
  exact ((h.agree.foldl rest).directories p).symm

/-- No task writes at the place of the directory, so a file there is older than both runs, and the
second run removes it. -/
theorem file_at_place (h : Packaged base d rest s s') (hp : p.same d = true)
    (hw : ∀ t ∈ Task.directory d :: rest, t.writes p = false) :
    ((Task.directory d :: rest).foldl carry s').file? p = none ∧
      (s'.file? p = none ∨ s.isDirectory d = false ∧ s.file? p = s'.file? p) := by
  have hin : p.isWithin d = true := Path.isWithin_iff.mpr (Path.same_iff.mp hp ▸ List.prefix_rfl)
  constructor
  · rw [List.foldl_cons]
    refine file?_foldl_none ?_ fun t ht => hw t (List.mem_cons_of_mem _ ht)
    rw [file?_carry_directory, h.isDirectory, hin]
    rfl
  · cases hold : s'.file? p with
    | none => exact .inl rfl
    | some content =>
      rw [← h.left, List.foldl_cons] at hold
      rcases origin_of_foldl hold with ⟨before, i, q, after, rfl, hq, -⟩ | ⟨hold, -⟩
      · have hwq := hw (.file i q content) (by simp)
        rw [Task.writes_file, hq] at hwq
        cases hwq
      · obtain ⟨hno, hold, -⟩ := file?_of_first h.rooted h.above hin hold
        exact .inr ⟨hno, hold⟩

theorem files (h : Packaged base d rest s s') (hp : p.same d = false) :
    ((Task.directory d :: rest).foldl carry s').file? p = s'.file? p := by
  by_cases hin : p.isWithin d = true
  · have hsame := (alike_first h.rooted h.rooted' h.above h.place_both).files p hin hp
    conv_rhs => rw [← h.left]
    exact (h.agree.file?_foldl hsame rest).symm
  · exact file?_of_elsewhere (elsewhere_foldl h.within) (by simpa using hin)

end Packaged

theorem again_of_package (ht : m.IsTree)
    (hn : ∀ i s, entryName? m i = some s → Path.isAbsolute s = false) (hr : m.IsPackage root)
    (hd : directoryPath m root base root = d) (hdir : d.text ≠ "" ∨ s.isDirectory d = true)
    (hs : Memory.Rooted base s) (hs' : Memory.Rooted base s')
    (hleft : (tasks m root o base).foldl carry s = s') (hready : AllReady s (tasks m root o base)) :
    Again (tasks m root o base)
      (fun p => p.same d = true ∧ s.isDirectory d = false ∧ s.file? p = s'.file? p) s' := by
  obtain ⟨rest, htasks⟩ := tasks_of_package ht hr o base
  rw [hd] at htasks
  have hwithin (t : Task) (h : t ∈ tasks m root o base) (p : Path) (hp : t.path? = some p) :
      p.isWithin d = true := hd ▸ within_root ht hn hr h hp
  have hbelow (p : Path) (hp : p.same d = true) (t : Task) (h : t ∈ tasks m root o base) :
      t.writes p = false := by
    by_contra hw
    have hne := (file_below_root ht hn hr h (by simpa using hw)).2
    rw [hd, hp] at hne
    cases hne
  rw [htasks] at hwithin hbelow hleft hready ⊢
  have hb : base.steps <+: d.steps := hd ▸ base_above (hn root _ (entryName?_of_package hr))
  have h : Packaged base d rest s s' := ⟨hs, hs', hb, hdir, hwithin, hleft⟩
  refine ⟨h.allReady hready, h.directories, fun p => ?_⟩
  by_cases hp : p.same d = true
  · obtain ⟨hgone, hnone | hold⟩ := h.file_at_place hp (hbelow p hp)
    · exact .inl (hgone.trans hnone.symm)
    · exact .inr ⟨⟨hp, hold⟩, hgone⟩
  · exact .inl (h.files (by simpa using hp))

/-- The run of a generation on the memory that it has left before. -/
def rerun (m : Model) (root : ElementId) (o : Options) (base : Path) (s : Memory) :
    Run Call.Answer Memory Outcome :=
  (generate m root o base).run Memory.host ((generate m root o base).run Memory.host s).state

/-- To generate once more, where all prompts are accepted, gives the same report and leaves the
memory as it is. Only a file at the place of the directory `D` of a package is lost, if it stood
there before the first run and `D` was no directory. The empty path is no place for `D`, unless it
was a directory. -/
theorem generate_again {sd : Snapshot.Document} (hd : Model.build sd = .ok m)
    (hn : ∀ e ∈ m.elements, Path.isAbsolute e.name = false) (hs : Memory.Reachable base s)
    (hreply : s.reply = .accepted)
    (h : ((generate m root o base).run Memory.host s).result = .completed r)
    {D : Path} (hD : D = base.join (m.name root))
    (hdir : m.IsPackage root → D.text ≠ "" ∨ s.isDirectory D = true) :
    (rerun m root o base s).result = .completed r ∧
      (∀ p, (rerun m root o base s).state.isDirectory p =
        ((generate m root o base).run Memory.host s).state.isDirectory p) ∧
      ∀ p, (rerun m root o base s).state.file? p =
          ((generate m root o base).run Memory.host s).state.file? p ∨
        m.IsPackage root ∧ p.same D = true ∧ s.isDirectory D = false ∧
          s.file? p = ((generate m root o base).run Memory.host s).state.file? p ∧
          (rerun m root o base s).state.file? p = none := by
  have ht := Model.build_isTree hd
  have hanswers := Script.run_answers Memory.host s (generate m root o base)
  have hs' := reachable_of_answers hs hanswers
  have hready := (generate_conduct Memory.host m root o base s).ready h hanswers
  have hstate := generate_carry h
  have hagain : Again (tasks m root o base)
      (fun p => m.IsPackage root ∧ p.same D = true ∧ s.isDirectory D = false ∧
        s.file? p = ((generate m root o base).run Memory.host s).state.file? p)
      ((generate m root o base).run Memory.host s).state := by
    by_cases hr : m.IsPackage root
    · have hroot : directoryPath m root base root = D := by
        rw [directoryPath, placeOf_root, hD]
      have hp := again_of_package ht (fun _ _ => relative_entry hn) hr hroot (hdir hr) hs.rooted
        hs'.rooted hstate.symm hready
      exact ⟨hp.ready, hp.directories, fun p => (hp.files p).imp id (.imp (.intro hr) id)⟩
    · have hl := again_of_leaf ht hr hready
      rw [← hstate] at hl
      exact ⟨hl.ready, hl.directories, fun p => (hl.files p).imp id (.imp False.elim id)⟩
  have hreply' : ((generate m root o base).run Memory.host s).state.reply = .accepted := by
    rw [hstate, (foldl_fixed _ s).1, hreply]
  obtain ⟨r', hr'⟩ := completed_of_ready m {} hreply' hagain.ready
  have hr' : (rerun m root o base s).result = .completed r' := hr'
  obtain rfl : r' = r := (generate_reports hr').trans (generate_reports h).symm
  have hstate' : (rerun m root o base s).state = (tasks m root o base).foldl carry
      ((generate m root o base).run Memory.host s).state := generate_carry hr'
  rw [hstate']
  refine ⟨hr', hagain.directories, fun p => (hagain.files p).imp id ?_⟩
  rintro ⟨⟨hr, hp, hno, hold⟩, hgone⟩
  exact ⟨hr, hp, hno, hold, hgone⟩

/-- Of two packages with one name the second clears the first, in either run. -/
theorem twins_again : ∃ r,
    ((generate twinsModel Model.root {} ⟨"out"⟩).run Memory.host used).result = .completed r ∧
    (rerun twinsModel Model.root {} ⟨"out"⟩ used).result = .completed r ∧
    ∀ p, (rerun twinsModel Model.root {} ⟨"out"⟩ used).state.file? p =
      ((generate twinsModel Model.root {} ⟨"out"⟩).run Memory.host used).state.file? p := by
  have hf : ((generate twinsModel Model.root {} ⟨"out"⟩).run Memory.host
      used).result.completed?.map (·.files.map (·.text)) =
        some ["out/Shop/A/x.rb", "out/Shop/A/y.rb"] := by decide +kernel
  obtain ⟨r, hr, -⟩ := Outcome.completed_of_files hf
  have hd : Model.build twins = .ok twinsModel := rfl
  have hn : ∀ e ∈ twinsModel.elements, Path.isAbsolute e.name = false := by decide +kernel
  have hs : Memory.Reachable ⟨"out"⟩ used := .withFile _ _ (.withFile _ _ (.new _))
  have hD : (⟨"out/Shop"⟩ : Path) = Path.join ⟨"out"⟩ (twinsModel.name Model.root) := rfl
  have hreply : used.reply = .accepted := by decide +kernel
  have hdir : used.isDirectory ⟨"out/Shop"⟩ = true := by decide +kernel
  obtain ⟨hagain, -, hfiles⟩ := generate_again hd hn hs hreply hr hD fun _ => .inr hdir
  refine ⟨r, hr, hagain, fun p => (hfiles p).resolve_right ?_⟩
  rintro ⟨-, -, hno, -⟩
  cases hdir.symm.trans hno

/-- A class that is written into a directory besides that of its package. -/
def strayed : Snapshot.Document where
  name := "Shop"
  ownedElements := [
    { kind := "package", name := "", ownedElements := [{ kind := "class", name := "a/order" }] }]

def strayedModel : Model := ⟨(strayed.entries.map (·.element)).toArray, []⟩

/-- A directory beside the empty path, which is no directory any more. -/
def unrootedDirectory : Memory :=
  (((Memory.new ⟨""⟩ .accepted).answer (.deleteDirectory ⟨""⟩)).2.answer (.createDirectory ⟨"a"⟩)).2

/-- What holds of a completed run, after it and after a second one. -/
def AllAgain (holds : Run Call.Answer Memory Outcome → Run Call.Answer Memory Outcome → Prop) :
    Prop :=
  ∀ (sd : Snapshot.Document) (m : Model) (root : ElementId) (o : Options) (base : Path)
    (s : Memory) (r : Report), Model.build sd = .ok m →
    (∀ e ∈ m.elements, Path.isAbsolute e.name = false) → Memory.Reachable base s →
    s.reply = .accepted → ((generate m root o base).run Memory.host s).result = .completed r →
    holds ((generate m root o base).run Memory.host s) (rerun m root o base s)

/-- A file at the place of the directory is there after one run and not after two, and below the
empty path a second run can fail. -/
theorem not_allAgain : ¬ AllAgain (fun x y => ∀ p, y.state.file? p = x.state.file? p) ∧
    ¬ AllAgain (fun _ y => ∃ r, y.result = .completed r) := by
  constructor
  · intro hall
    have hf : (loneRun "Shop" ⟨"out"⟩ blocked).result.completed?.map (·.files.map (·.text)) =
        some ["out/Shop/order.rb"] := by decide +kernel
    obtain ⟨r, hr, -⟩ := Outcome.completed_of_files hf
    have hsame := hall (lone "Shop") (loneModel "Shop") Model.root {} ⟨"out"⟩ blocked r rfl
      (by decide +kernel) (.withFile _ _ (.new _)) rfl hr ⟨"out/Shop"⟩
    have hdiff : (rerun (loneModel "Shop") Model.root {} ⟨"out"⟩ blocked).state.file? ⟨"out/Shop"⟩ ≠
        (loneRun "Shop" ⟨"out"⟩ blocked).state.file? ⟨"out/Shop"⟩ := by decide +kernel
    exact hdiff hsame
  · intro hall
    have hf : ((generate strayedModel 1 {} ⟨""⟩).run Memory.host
        unrootedDirectory).result.completed?.map (·.files.map (·.text)) =
          some ["a/order.rb"] := by decide +kernel
    obtain ⟨r, hr, -⟩ := Outcome.completed_of_files hf
    obtain ⟨r', hr'⟩ := hall strayed strayedModel 1 {} ⟨""⟩ unrootedDirectory r rfl
      (by decide +kernel) (.answered _ (.answered _ (.new _))) rfl hr
    have hfails : (rerun strayedModel 1 {} ⟨""⟩ unrootedDirectory).result.completed?.isNone =
        true := by decide +kernel
    rw [hr'] at hfails
    cases hfails

end Generate
end ClassScribe
