import ClassScribe.Proofs.Generate.Mirror

/-! # Dry runs

A dry run takes place in memory, with all prompts accepted. Below an empty directory, a run on a
file system does the same and leaves the same entries, up to the first element that is blocked.
There it fails, while the dry run goes on.
-/
namespace ClassScribe
open Host

namespace Generate

variable {m : Model} {root k : ElementId} {o : Options} {base p : Path} {t : Task}
  {place : List String} {d₀ : Disk} {sd : Snapshot.Document} {c : Console}

theorem task_mem (ht : m.IsTree) (hturn : turn? m root o base k = some t) :
    t ∈ tasks m root o base := by
  obtain ⟨rest, hrest⟩ := tasks_at ht hturn
  simp [hrest]

/-- The error at an element that is blocked. -/
inductive Obstacle (m : Model) (root : ElementId) (base : Path) (k : ElementId) :
    GenerateError → Prop
  | package : m.IsPackage k →
      Obstacle m root base k (.createDirectory (directoryPath m root base k) (.system .entryExists))
  | classifier : m.IsClassifier k →
      Obstacle m root base k (.writeText (outputPath m root base k) (.system .isDirectory))

section Runs

variable (hd : Model.build sd = .ok m) (hn : ∀ e ∈ m.elements, Path.Plain e.name)
  (hnul : ∀ e ∈ m.elements, Char.ofNat 0 ∉ e.name.toList)
  (hfits : ∀ t ∈ tasks m root o base, ∀ p, t.path? = some p → Disk.Fits p)
  (h : Vacant d₀ base place) (hm : Mirrors d₀ base place (memoryBefore m root o base k) c.disk)
  (hfree : ∀ j < k, ¬ Blocked m root base j)
include hd hn hnul hfits h

include hm in
/-- A task that finds nothing of the other kind at its path is done on the disk as in memory. -/
theorem Mirrors.step (hturn : turn? m root o base k = some t)
    (hclash : ¬ Clash (memoryBefore m root o base k) t) (r : Report) (rest : List Task) :
    ∃ r' c', GoesOn onDisk (perform m r (t :: rest)) c (perform m r' rest) c' ∧
      Mirrors d₀ base place (carry (memoryBefore m root o base k) t) c'.disk := by
  have hlocates (p : Path) (hp : t.path? = some p) :=
    hm.locates hd hn hnul h hturn hp (hfits t (task_mem (Model.build_isTree hd) hturn) p hp)
  cases t with
  | skip name label => exact ⟨r, c, .note, hm⟩
  | file i p content =>
    obtain ⟨names, hl⟩ := hlocates p rfl
    exact hm.writes h hl (by simpa [Clash] using hclash)
  | directory p =>
    obtain ⟨names, hl⟩ := hlocates p rfl
    by_cases hthere : (memoryBefore m root o base k).isDirectory p = true
    · exact hm.remakes h hl hthere
    · have hno : (memoryBefore m root o base k).isDirectory p = false := by simpa using hthere
      exact hm.makes h hl hno (by simpa [Clash, hno] using hclash)

/-- As long as no element is blocked, all tasks are done on the disk as in memory. -/
theorem mirrors_before (hc : c.disk = d₀) (hfree : ∀ j < k, ¬ Blocked m root base j)
    (rest : List Task) : ∃ r c',
      GoesOn onDisk (perform m {} (tasksBefore m root o base k ++ rest)) c (perform m r rest) c' ∧
      Mirrors d₀ base place (memoryBefore m root o base k) c'.disk := by
  induction k generalizing rest with
  | zero => exact ⟨{}, c, .refl _ _ _, hc ▸ mirrors_new h .accepted⟩
  | succ k ih =>
    have hbefore (j : ElementId) (hj : j < k) := hfree j (Nat.lt_succ_of_lt hj)
    rw [tasksBefore_succ, memoryBefore_succ, List.append_assoc]
    obtain ⟨r, c', hruns, hm⟩ := ih hbefore ((turn? m root o base k).toList ++ rest)
    cases hturn : turn? m root o base k with
    | none =>
      rw [hturn] at hruns
      exact ⟨r, c', hruns, hm⟩
    | some t =>
      rw [hturn] at hruns
      have hclash : ¬ Clash (memoryBefore m root o base k) t := by
        rw [clash_iff hd hn hbefore hturn]
        exact hfree k (Nat.lt_succ_self k)
      obtain ⟨r', c'', hstep, hm'⟩ := hm.step hd hn hnul hfits h hturn hclash r rest
      exact ⟨r', c'', hruns.trans hstep, hm'⟩

include hm hfree in
/-- The task of the first element that is blocked fails. -/
theorem Mirrors.halt (hturn : turn? m root o base k = some t) (hk : Blocked m root base k) :
    ∃ e, Obstacle m root base k e ∧
      ∀ r rest, ((perform m r (t :: rest)).run onDisk c).result = .failed e := by
  have hclash := (clash_iff hd hn hfree hturn).mpr hk
  have hfits := hfits t (task_mem (Model.build_isTree hd) hturn)
  have hcase := turn m root o base k
  rw [hturn] at hcase
  cases hcase with
  | package hw hpk =>
    obtain ⟨hno, hfile⟩ := hclash
    obtain ⟨names, hl⟩ := hm.locates hd hn hnul h hturn rfl (hfits _ rfl)
    have hfound := hm.found hl
    have hmade := hm.answer_createDirectory hl hno
    rw [hno] at hfound
    rw [if_pos hfile] at hmade
    refine ⟨_, .package hpk, fun r rest => ?_⟩
    have hruns : GoesOn onDisk (perform m r (.directory (directoryPath m root base k) :: rest)) c
        (.done (.failed (.createDirectory _ (.system .entryExists)))) c :=
      (GoesOn.call hfound).trans (GoesOn.call hmade)
    exact hruns.1
  | classifier content hw hc =>
    obtain ⟨names, hl⟩ := hm.locates hd hn hnul h hturn rfl (hfits _ rfl)
    have hwrite := hm.answer_writeText hl content
    have hthere : (memoryBefore m root o base k).isDirectory (outputPath m root base k) = true :=
      hclash
    rw [if_pos hthere] at hwrite
    exact ⟨_, .classifier hc, fun r rest => ((GoesOn.notes _).trans (GoesOn.call hwrite)).1⟩
  | skip name label hpk hc => exact hclash.elim

end Runs

/-- Runs that end the same way: completed with one report, or failed with one error at one path,
whatever the cause. -/
inductive EndsAlike : Outcome → Outcome → Prop
  | completed (r : Report) : EndsAlike (.completed r) (.completed r)
  | createDirectory (p : Path) (f f' : Failure) :
      EndsAlike (.failed (.createDirectory p f)) (.failed (.createDirectory p f'))
  | clearDirectory (p : Path) (f f' : Failure) :
      EndsAlike (.failed (.clearDirectory p f)) (.failed (.clearDirectory p f'))
  | writeText (p : Path) (f f' : Failure) :
      EndsAlike (.failed (.writeText p f)) (.failed (.writeText p f'))

theorem EndsAlike.completed? {out out' : Outcome} (h : EndsAlike out out') :
    out.completed? = out'.completed? := by
  cases h <;> rfl

/-- A run in memory ends as one on a disk, and with the same entries below the base directory. -/
structure Foretells (base : Path) (place : List String) (dry : Run Call.Answer Memory Outcome)
    (run : Run Call.Answer Console Outcome) : Prop where
  agree : EndsAlike dry.result run.result
  entries : ∀ r, dry.result = .completed r → ∀ p names, names ≠ [] →
    p.steps = base.steps ++ names.map .name →
    run.state.disk.at? (place ++ names) = entryAt? dry.state p

/-- A dry run of a model with plain names completes. It tells how the run on a disk with an empty
output directory ends and what the run leaves there if and only if no element is blocked; otherwise
the run on the disk fails at the first element that is. -/
theorem generate_foretold (hd : Model.build sd = .ok m)
    (hn : ∀ e ∈ m.elements, Path.Plain e.name)
    (hnul : ∀ e ∈ m.elements, Char.ofNat 0 ∉ e.name.toList)
    (hfits : ∀ t ∈ tasks m root o base, ∀ p, t.path? = some p → Disk.Fits p)
    (h : Vacant c.disk base place) :
    (∃ r, ((generate m root o base).run Memory.host (.new base .accepted)).result =
      .completed r) ∧
    (Foretells base place ((generate m root o base).run Memory.host (.new base .accepted))
      ((generate m root o base).run onDisk c) ↔ ∀ k, ¬ Blocked m root base k) ∧
    ∀ k, Blocked m root base k → (∀ j < k, ¬ Blocked m root base j) →
      ∃ e, Obstacle m root base k e ∧
        ((generate m root o base).run onDisk c).result = .failed e := by
  have ht := Model.build_isTree hd
  have hdry : ∃ r, ((generate m root o base).run Memory.host (.new base .accepted)).result =
      .completed r := by
    apply completed_of_ready m {} rfl
    rw [tasks_eq_before ht]
    exact (standing hd hn root o base m.elements.size).ready
  have hfails (k : ElementId) (hk : Blocked m root base k)
      (hfree : ∀ j < k, ¬ Blocked m root base j) : ∃ e, Obstacle m root base k e ∧
      ((generate m root o base).run onDisk c).result = .failed e := by
    obtain ⟨t, hturn⟩ := hk.turn? o
    obtain ⟨rest, hrest⟩ := tasks_at ht hturn
    obtain ⟨r, c', hruns, hm⟩ := mirrors_before hd hn hnul hfits h rfl hfree (t :: rest)
    obtain ⟨e, he, hfailed⟩ := hm.halt hd hn hnul hfits h hfree hturn hk
    rw [← hrest] at hruns
    exact ⟨e, he, hruns.1.trans (hfailed r rest)⟩
  refine ⟨hdry, ⟨fun hf k hk => ?_, fun hfree => ?_⟩, hfails⟩
  · classical
    have hex : ∃ k, Blocked m root base k := ⟨k, hk⟩
    obtain ⟨r, hr⟩ := hdry
    obtain ⟨e, -, he⟩ := hfails (Nat.find hex) (Nat.find_spec hex) fun j hj => Nat.find_min hex hj
    have hagree := hf.agree
    rw [hr, he] at hagree
    cases hagree
  · obtain ⟨r', c', hruns, hm⟩ := mirrors_before hd hn hnul hfits h rfl
      (k := m.elements.size) (fun j _ => hfree j) []
    rw [List.append_nil, ← tasks_eq_before ht] at hruns
    have hcompleted : ((generate m root o base).run onDisk c).result = .completed r' := hruns.1
    obtain ⟨r, hr⟩ := hdry
    have hsame : r = r' := (generate_reports hr).trans (generate_reports hcompleted).symm
    constructor
    · rw [hr, hcompleted, hsame]
      exact .completed r'
    · intro _ _ p names hne hp
      rw [generate_carry hr, tasks_eq_before ht]
      exact (congrArg (·.disk.at? (place ++ names)) hruns.2).trans (hm.entries p names hne hp)

/-- A console with an empty directory. -/
def emptied : Console := { disk := ⟨[(["out"], .directory)]⟩ }

theorem emptied_vacant : Vacant emptied.disk ⟨"out"⟩ ["out"] :=
  ⟨by decide +kernel, by decide +kernel⟩

/-- A class, and a package with the name of its file. -/
def shadowed : Snapshot.Document where
  name := "Shop"
  ownedElements := [{ kind := "class", name := "a" }, { kind := "package", name := "a.rb" }]

def shadowedModel : Model := ⟨(shadowed.entries.map (·.element)).toArray, []⟩

theorem shadowed_blocked : Blocked shadowedModel Model.root ⟨"out"⟩ 2 ∧
    ∀ j < 2, ¬ Blocked shadowedModel Model.root ⟨"out"⟩ j := by
  have hpackage : shadowedModel.IsPackage 2 := ⟨_, _, rfl, rfl⟩
  have hclass : shadowedModel.IsClassifier 1 := ⟨_, _, rfl, rfl⟩
  refine ⟨.package (by decide +kernel) hpackage ⟨1, by decide, by decide +kernel, hclass,
    by decide +kernel, fun j h1 h2 => absurd h2 (by lia)⟩, fun j hj => ?_⟩
  rintro (⟨-, hp, i, hij, -⟩ | ⟨-, -, i, hij, -, -, hsame, -⟩)
  · obtain ⟨rfl, rfl⟩ : i = 0 ∧ j = 1 := by lia
    exact hclass.not_isPackage hp
  · obtain ⟨rfl, rfl⟩ : i = 0 ∧ j = 1 := by lia
    exact absurd hsame (by decide +kernel)

def shadowedRun : Run Call.Answer Memory Outcome :=
  (generate shadowedModel Model.root {} ⟨"out"⟩).run Memory.host (.new ⟨"out"⟩ .accepted)

def shadowedOnDisk : Run Call.Answer Console Outcome :=
  (generate shadowedModel Model.root {} ⟨"out"⟩).run onDisk emptied

def twinsOnDisk : Run Call.Answer Console Outcome :=
  (generate twinsModel Model.root {} ⟨"out"⟩).run onDisk emptied

theorem twins_free (k : ElementId) : ¬ Blocked twinsModel Model.root ⟨"out"⟩ k := by
  intro h
  obtain ⟨i, j, hi, -, hname⟩ := h.name_eq twins_plain
  have hall : ∀ e ∈ twinsModel.elements, ¬ ['.', 'r', 'b'] <:+ e.name.toList := by decide +kernel
  refine package_of_names (P := fun x => ¬ ['.', 'r', 'b'] <:+ x.toList) hall hi ?_
  rw [hname, Source.toList_fileName]
  exact List.suffix_append _ _

theorem fits_of_paths (h : ∀ p ∈ (tasks m root o base).filterMap Task.path?, Disk.Fits p) :
    ∀ t ∈ tasks m root o base, ∀ p, t.path? = some p → Disk.Fits p :=
  fun t ht p hp => h p (List.mem_filterMap.mpr ⟨t, ht, hp⟩)

theorem twins_build : Model.build twins = .ok twinsModel := rfl

theorem shadowed_build : Model.build shadowed = .ok shadowedModel := rfl

theorem shadowed_plain : ∀ e ∈ shadowedModel.elements, Path.Plain e.name := by decide +kernel

theorem shadowed_nul : ∀ e ∈ shadowedModel.elements, Char.ofNat 0 ∉ e.name.toList := by
  decide +kernel

theorem shadowed_fits : ∀ t ∈ tasks shadowedModel Model.root {} ⟨"out"⟩, ∀ p,
    t.path? = some p → Disk.Fits p :=
  fits_of_paths (by decide +kernel)

theorem twins_foretold : Foretells ⟨"out"⟩ ["out"] twinsRun twinsOnDisk ∧
    ∃ e, Obstacle shadowedModel Model.root ⟨"out"⟩ 2 e ∧ shadowedOnDisk.result = .failed e := by
  have hnul : ∀ e ∈ twinsModel.elements, Char.ofNat 0 ∉ e.name.toList := by decide +kernel
  have hfits : ∀ p ∈ (tasks twinsModel Model.root {} ⟨"out"⟩).filterMap Task.path?,
      Disk.Fits p := by decide +kernel
  obtain ⟨-, hiff, -⟩ := generate_foretold twins_build twins_plain hnul (fits_of_paths hfits)
    emptied_vacant
  obtain ⟨-, -, hfails⟩ := generate_foretold shadowed_build shadowed_plain shadowed_nul
    shadowed_fits emptied_vacant
  obtain ⟨hblocked, hfirst⟩ := shadowed_blocked
  exact ⟨hiff.mpr twins_free, hfails 2 hblocked hfirst⟩

/-- Not every run on a disk ends as its dry run does: where there is a file, no directory can be
made. -/
theorem not_foretold : ¬ ∀ (sd : Snapshot.Document) (m : Model) (root : ElementId) (o : Options)
    (base : Path) (c : Console) (place : List String), Model.build sd = .ok m →
    (∀ e ∈ m.elements, Path.Plain e.name) → (∀ e ∈ m.elements, Char.ofNat 0 ∉ e.name.toList) →
    (∀ t ∈ tasks m root o base, ∀ p, t.path? = some p → Disk.Fits p) →
    Vacant c.disk base place →
    Foretells base place ((generate m root o base).run Memory.host (.new base .accepted))
      ((generate m root o base).run onDisk c) := by
  intro hall
  have hf := hall shadowed shadowedModel Model.root {} ⟨"out"⟩ emptied ["out"] shadowed_build
    shadowed_plain shadowed_nul shadowed_fits emptied_vacant
  have hdry : shadowedRun.result.completed?.isSome = true := by decide +kernel
  have hdisk : shadowedOnDisk.result.completed?.isSome = false := by decide +kernel
  have hsame : shadowedRun.result.completed? = shadowedOnDisk.result.completed? :=
    hf.agree.completed?
  rw [hsame, hdisk] at hdry
  cases hdry

end Generate
end ClassScribe
