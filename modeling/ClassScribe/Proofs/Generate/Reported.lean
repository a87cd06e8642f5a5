import ClassScribe.Proofs.Generate.Last
import ClassScribe.Proofs.Generate.Names

/-! # What becomes of reported files

A file that a completed run reports is there at the end, with what the last element at its path
says, unless a package that comes later makes a directory around it again. That happens when names
of packages are repeated, and then the file is gone.
-/
namespace ClassScribe
open Host

namespace Generate

variable {m : Model} {root i k : ElementId} {o : Options} {base p q : Path} {s : Memory}
  {before after : List Task} {content : String}

/-- A package may find its directory there: an earlier package has the same, or it was there before
the run although the directory of the root was not. -/
def Reopened (m : Model) (root : ElementId) (base : Path) (s : Memory) (k : ElementId) : Prop :=
  (∃ j, j < k ∧ m.isWithin j root = true ∧ m.IsPackage j ∧
    (directoryPath m root base j).same (directoryPath m root base k) = true) ∨
  s.isDirectory (directoryPath m root base root) = false ∧
    s.isDirectory (directoryPath m root base k) = true

/-- A directory that is there in the course of a run was made by a task, or it was there before and
the first task has not removed it. -/
theorem isDirectory_of_tasks (ht : m.IsTree) (hr : m.IsPackage root) {d : Path}
    (hd : d.isWithin (directoryPath m root base root) = true)
    (h : tasks m root o base = before ++ .file i q content :: after)
    (hs : (before.foldl carry s).isDirectory d = true) :
    (∃ q', .directory q' ∈ before ∧ q'.same d = true) ∨
      s.isDirectory (directoryPath m root base root) = false ∧ s.isDirectory d = true := by
  obtain ⟨rest, htasks⟩ := tasks_of_package ht hr o base
  rw [htasks] at h
  cases before with
  | nil => cases h
  | cons t before =>
    obtain ⟨rfl, -⟩ := List.cons_eq_cons.mp h
    rw [List.foldl_cons] at hs
    rcases isDirectory_of_foldl hs with hc | ⟨q', hq, hsame⟩
    · rcases isDirectory_carry_directory.mp hc with hsame | ⟨hs, hroot⟩
      · exact .inl ⟨_, List.mem_cons_self, hsame⟩
      · right
        refine ⟨?_, hs⟩
        by_contra hdir
        rw [hroot (by simpa using hdir)] at hd
        cases hd
    · exact .inl ⟨q', List.mem_cons_of_mem _ hq, hsame⟩

/-- A later package that finds its directory there is reopened. -/
theorem reopened_of_isDirectory (ht : m.IsTree)
    (hn : ∀ i s, entryName? m i = some s → Path.Plain s)
    (h : tasks m root o base = before ++ .file i q content :: after) (hik : i < k)
    (hkr : m.isWithin k root = true) (hpk : m.IsPackage k)
    (hdir : (before.foldl carry s).isDirectory (directoryPath m root base k) = true) :
    Reopened m root base s k := by
  obtain ⟨xs, ys, f, hsub, rfl, -⟩ := tasks_split ht h
  have hi : i ∈ m.subtree root := by simp [hsub]
  have hri := Model.le_of_isWithin (Model.mem_subtree.mp hi).2
  have hroot := ht.isPackage_of_within hkr (by lia)
  have hbelow := directory_below ht (fun i s h => (hn i s h).relative) (m.isWithin_self root)
    (directory_ne hn root base hroot) hkr hpk
  refine (isDirectory_of_tasks ht hroot (Path.isWithin_iff.mpr hbelow) h hdir).imp ?_ id
  rintro ⟨d, hd, hsame⟩
  obtain ⟨x, hx, hpx, rfl⟩ := directory_mem.mp hd
  obtain ⟨hxm, hxi⟩ := ((Model.subtree_split hsub).1 x).mp hx
  exact ⟨x, hxi.trans hik, (Model.mem_subtree.mp hxm).2, hpx, hsame⟩

/-- A file stays when no later package around it finds its directory there. -/
theorem kept_of_fresh (ht : m.IsTree) (hn : ∀ i s, entryName? m i = some s → Path.Plain s)
    (h : tasks m root o base = before ++ .file i q content :: after) (hq : q.same p = true)
    (hw : ∀ t ∈ after, t.writes p = false)
    (hfresh : ∀ k, i < k → m.isWithin k root = true → m.IsPackage k →
      p.isWithin (directoryPath m root base k) = true → ¬ Reopened m root base s k) :
    ((tasks m root o base).foldl carry s).file? p = some content := by
  obtain ⟨xs, ys, f, hsub, -, rfl, -⟩ := tasks_split ht h
  have hys (k : ElementId) (hk : k ∈ ys) : m.isWithin k root = true ∧ i < k := by
    obtain ⟨hkm, hik⟩ := ((Model.subtree_split hsub).2 k).mp hk
    exact ⟨(Model.mem_subtree.mp hkm).2, hik⟩
  rw [h, List.foldl_append, List.foldl_cons]
  refine file?_foldl_kept ?_ hw ?_ ?_
  · rw [file?_carry_file, if_pos hq]
  · intro d hd hpd
    obtain ⟨k, hk, hpk, rfl⟩ := directory_mem.mp hd
    obtain ⟨hkr, hik⟩ := hys k hk
    by_contra hdir
    rw [Bool.not_eq_false, isDirectory_carry_file] at hdir
    exact hfresh k hik hkr hpk hpd (reopened_of_isDirectory ht hn h hik hkr hpk hdir)
  · have hsorted := m.subtree_sorted root
    rw [hsub, List.pairwise_append, List.pairwise_cons] at hsorted
    refine List.pairwise_filterMap.mpr (hsorted.2.1.2.imp_of_mem ?_)
    intro a b ha hb hab t hta u hub d d' hdt hdu hpd
    subst hdt hdu
    obtain ⟨hpa, rfl⟩ := taskOf?_directory.mp hta
    obtain ⟨hpb, rfl⟩ := taskOf?_directory.mp hub
    by_contra hsame
    rw [Bool.not_eq_false] at hsame
    exact hfresh b (hys b hb).2 (hys b hb).1 hpb hpd (.inl ⟨a, hab, (hys a ha).1, hpa, hsame⟩)

/-- The directory of a package that comes later is not above an output path, unless it is that of
a package around the element. -/
theorem package_around (ht : m.IsTree) (hn : ∀ i s, entryName? m i = some s → Path.Plain s)
    {f : Source.File} (hl : LastAt m root o base p i f) (hik : i < k)
    (hk : m.isWithin k root = true) (hpk : m.IsPackage k)
    (hp : p.isWithin (directoryPath m root base k) = true)
    (hne : p.same (directoryPath m root base k) = false) :
    ∃ q, q < i ∧ m.isWithin i q = true ∧ m.isWithin q root = true ∧ m.IsPackage q ∧
      (directoryPath m root base q).steps = (directoryPath m root base k).steps := by
  have hrel (i : ElementId) (s : String) (h : entryName? m i = some s) := (hn i s h).relative
  have hri := Model.le_of_isWithin hl.within
  have hroot := ht.isPackage_of_within hk (by lia)
  have hrne := directory_ne hn root base hroot
  have hir : i ≠ root := by
    rintro rfl
    have hr := hl.render
    rw [render?_of_package hroot] at hr
    cases hr
  obtain ⟨par, hpar, hparr, hplace⟩ := (placeOf_cases base hl.within).resolve_left hir
  have hine := Path.text_ne_of_prefix
    (place_below ht hrel (m.isWithin_self root) hrne hl.within hir) hrne
  -- the file has one step more than the directory it is in
  have hfile := hn i _ (entryName?_of_render hl.render)
  have hsteps : p.steps = (directoryPath m root base par).steps ++ [.name (Source.fileName m i)] := by
    rw [← hplace, ← hfile.added, ← Path.steps_join hine hfile.relative]
    exact (Path.same_iff.mp hl.path).symm
  have hkpar : (directoryPath m root base k).steps <+: (directoryPath m root base par).steps := by
    have hp := Path.isWithin_iff.mp hp
    rw [hsteps] at hp
    refine (List.prefix_concat_iff.mp hp).resolve_left fun he => ?_
    rw [Path.same_iff.mpr (hsteps.trans he.symm)] at hne
    cases hne
  have hrk := directory_below ht hrel (m.isWithin_self root) hrne hk hpk
  obtain ⟨q, hpq, hqr, hq⟩ := package_at ht hn hrne hparr (ht.isPackage_of_child hpar) hkpar
    hrk.length_le
  have hiq : m.isWithin i q = true := (Model.isWithin_step hpar).mpr (.inr hpq)
  have hqi : q < i := (Model.le_of_isWithin hpq).trans_lt (Model.parent?_lt hpar)
  exact ⟨q, hqi, hiq, hqr, ht.isPackage_of_within hiq (by lia), hq⟩

/-- The directory of a package around an element is there when the element's turn comes. -/
theorem around_isDirectory (ht : m.IsTree) (hn : ∀ i s, entryName? m i = some s → Path.Plain s)
    (o : Options) (base : Path) (s : Memory) {xs ys : List ElementId} {d : ElementId}
    (hsub : m.subtree root = xs ++ i :: ys) (hdi : d < i) (hid : m.isWithin i d = true)
    (hdr : m.isWithin d root = true) (hpd : m.IsPackage d) :
    ((xs.filterMap (taskOf? m root o base)).foldl carry s).isDirectory
      (directoryPath m root base d) = true := by
  have hxs := (Model.subtree_split hsub).1
  have hdx : d ∈ xs := (hxs d).mpr ⟨hpd.mem_subtree hdr, hdi⟩
  obtain ⟨front, mid, rfl⟩ := List.append_of_mem hdx
  have htd : taskOf? m root o base d = some (.directory (directoryPath m root base d)) :=
    taskOf?_directory.mpr ⟨hpd, rfl⟩
  rw [List.filterMap_append, List.filterMap_cons_some htd, List.foldl_append, List.foldl_cons]
  refine isDirectory_foldl (isDirectory_carry_directory.mpr (.inl (Path.same_iff.mpr rfl))) ?_
  -- the packages between the two lie below the first, so that they make longer places
  intro q hq
  obtain ⟨y, hy, hpy, rfl⟩ := directory_mem.mp hq
  have hyi : y < i := ((hxs y).mp (by simp [hy])).2
  have hdy : d < y := by
    have hsub : m.subtree root = front ++ d :: (mid ++ i :: ys) := by simp [hsub]
    exact (((Model.subtree_split hsub).2 y).mp (by simp [hy])).2
  have hyd := ht.isWithin_between hid hdy.le hyi.le
  have hplace := place_below ht (fun i s h => (hn i s h).relative) hdr
    (directory_ne hn root base hpd) hyd (by lia)
  have hplain := hn y _ (entryName?_of_package hpy)
  by_contra hw
  rw [Bool.not_eq_false, Path.isWithin_iff, steps_directoryPath
    (Path.text_ne_of_prefix hplace (directory_ne hn root base hpd)) hplain.relative,
    hplain.added] at hw
  have hlen := (hw.trans hplace).length_le
  rw [List.length_append, List.length_singleton] at hlen
  omega

/-- A file is gone when a later package makes a directory above it again. -/
theorem lost_of_later (ht : m.IsTree) (hn : ∀ i s, entryName? m i = some s → Path.Plain s)
    {f : Source.File} (hl : LastAt m root o base p i f)
    (h : tasks m root o base = before ++ .file i q content :: after)
    (hw : ∀ t ∈ after, t.writes p = false) (hik : i < k) (hk : m.isWithin k root = true)
    (hpk : m.IsPackage k) (hp : p.isWithin (directoryPath m root base k) = true)
    (hne : p.same (directoryPath m root base k) = false) :
    ((tasks m root o base).foldl carry s).file? p = none := by
  obtain ⟨d, hdi, hid, hdr, hpd, hsteps⟩ := package_around ht hn hl hik hk hpk hp hne
  obtain ⟨xs, ys, f', hsub, rfl, rfl, -⟩ := tasks_split ht h
  have hdir := around_isDirectory ht hn o base s hsub hdi hid hdr hpd
  have hpdir : p.isWithin (directoryPath m root base d) = true := by
    rw [Path.isWithin, hsteps]
    exact hp
  have hky : k ∈ ys := ((Model.subtree_split hsub).2 k).mpr ⟨hpk.mem_subtree hk, hik⟩
  obtain ⟨front, back, rfl⟩ := List.append_of_mem hky
  have htk : taskOf? m root o base k = some (.directory (directoryPath m root base k)) :=
    taskOf?_directory.mpr ⟨hpk, rfl⟩
  rw [List.filterMap_append, List.filterMap_cons_some htk] at h hw
  rw [h, List.foldl_append, List.foldl_cons, List.foldl_append, List.foldl_cons]
  refine file?_foldl_none ?_ fun t htm => hw t (by simp [htm])
  have hguard := guarded_foldl (.inr ((isDirectory_carry_file _ i q _ content).trans hdir)) hpdir
    fun t htm => hw t (List.mem_append_left _ htm)
  rw [file?_carry_directory]
  rcases hguard with hgone | hthere
  · split
    · rfl
    · exact hgone
  · have hk : (_ : Memory).isDirectory (directoryPath m root base k) = true :=
      (Memory.isDirectory_congr hsteps).symm.trans hthere
    rw [hk, hp]
    rfl

/-- A reported file has the content of the last element at its path, unless a later package finds
its directory there around the file; with a later package above it, the file is gone. -/
theorem reported_file {d : Snapshot.Document} (hd : Model.build d = .ok m)
    (hn : ∀ e ∈ m.elements, Path.Plain e.name) {r : Report}
    (h : ((generate m root o base).run Memory.host s).result = .completed r) (hp : p ∈ r.files) :
    ∃ i f, LastAt m root o base p i f ∧
      ((∀ k, i < k → m.isWithin k root = true → m.IsPackage k →
          p.isWithin (directoryPath m root base k) = true → ¬ Reopened m root base s k) →
        ((generate m root o base).run Memory.host s).state.file? p = some f.content) ∧
      ((∃ k, i < k ∧ m.isWithin k root = true ∧ m.IsPackage k ∧
          p.isWithin (directoryPath m root base k) = true ∧
          p.same (directoryPath m root base k) = false) →
        ((generate m root o base).run Memory.host s).state.file? p = none) := by
  have ht := Model.build_isTree hd
  have hfiles : r.files = _ := congrArg Report.files (generate_reports h)
  have hstate := generate_carry h
  rw [hfiles] at hp
  obtain ⟨t, htm, htp⟩ := List.mem_filterMap.mp hp
  have hwrites : t.writes p = true := by simp [Task.writes, htp, Path.same]
  obtain ⟨before, i, q, content, after, hsplit, hq, hw⟩ := exists_last_write ⟨t, htm, hwrites⟩
  obtain ⟨f, hl, rfl⟩ := LastAt.of_split ht hsplit hq hw
  rw [hstate]
  have hn (i : ElementId) (s : String) (hs : entryName? m i = some s) := plain_entry hn hs
  refine ⟨i, f, hl, kept_of_fresh ht hn hsplit hq hw, ?_⟩
  rintro ⟨k, hik, hk, hpk, hpw, hne⟩
  exact lost_of_later ht hn hl hsplit hw hik hk hpk hpw hne

/-- Two packages with one name. -/
def twins : Snapshot.Document where
  name := "Shop"
  ownedElements := [
    { kind := "package", name := "A", ownedElements := [{ kind := "class", name := "X" }] },
    { kind := "package", name := "A", ownedElements := [{ kind := "class", name := "Y" }] }]

def twinsModel : Model := ⟨(twins.entries.map (·.element)).toArray, []⟩

def twinsRun : Run Call.Answer Memory Outcome :=
  (generate twinsModel Model.root {} ⟨"out"⟩).run Memory.host (.new ⟨"out"⟩ .accepted)

theorem twins_completed : ∃ r, twinsRun.result = .completed r ∧
    r.files.map (·.text) = ["out/Shop/A/x.rb", "out/Shop/A/y.rb"] := by
  apply Outcome.completed_of_files
  decide +kernel

theorem twins_plain : ∀ e ∈ twinsModel.elements, Path.Plain e.name := by decide +kernel

theorem twins_reported : ∃ r, twinsRun.result = .completed r ∧ ∀ p ∈ r.files,
    ∃ i f, LastAt twinsModel Model.root {} ⟨"out"⟩ p i f ∧
      ((∀ k, i < k → twinsModel.isWithin k Model.root = true → twinsModel.IsPackage k →
          p.isWithin (directoryPath twinsModel Model.root ⟨"out"⟩ k) = true →
          ¬ Reopened twinsModel Model.root ⟨"out"⟩ (.new ⟨"out"⟩ .accepted) k) →
        twinsRun.state.file? p = some f.content) ∧
      ((∃ k, i < k ∧ twinsModel.isWithin k Model.root = true ∧ twinsModel.IsPackage k ∧
          p.isWithin (directoryPath twinsModel Model.root ⟨"out"⟩ k) = true ∧
          p.same (directoryPath twinsModel Model.root ⟨"out"⟩ k) = false) →
        twinsRun.state.file? p = none) := by
  obtain ⟨r, hr, -⟩ := twins_completed
  have hd : Model.build twins = .ok twinsModel := rfl
  exact ⟨r, hr, fun p hp => reported_file hd twins_plain hr hp⟩

/-- Not every reported file is there at the end: the second of the packages empties their common
directory, and `x.rb` with it. -/
theorem reported_file_lost : ¬ ∀ (d : Snapshot.Document) (m : Model) (root : ElementId)
    (o : Options) (base : Path) (s : Memory) (r : Report), Model.build d = .ok m →
    (∀ e ∈ m.elements, Path.Plain e.name) → s.reply = .accepted →
    ((generate m root o base).run Memory.host s).result = .completed r → ∀ p ∈ r.files,
      ∃ i f, LastAt m root o base p i f ∧
        ((generate m root o base).run Memory.host s).state.file? p = some f.content := by
  intro hall
  obtain ⟨r, hr, hf⟩ := twins_completed
  have hx : (⟨"out/Shop/A/x.rb"⟩ : Path) ∈ r.files := by
    have hmem : "out/Shop/A/x.rb" ∈ r.files.map (·.text) := by simp [hf]
    obtain ⟨p, hp, ht⟩ := List.mem_map.mp hmem
    exact ht ▸ hp
  obtain ⟨i, f, -, hc⟩ := hall twins twinsModel Model.root {} ⟨"out"⟩ _ r rfl twins_plain rfl hr _ hx
  have hgone : twinsRun.state.file? ⟨"out/Shop/A/x.rb"⟩ = none := by decide +kernel
  cases hgone.symm.trans hc

end Generate
end ClassScribe
