import ClassScribe.Proofs.Generate.Last
import ClassScribe.Proofs.Generate.Names

/-! # What a run replaces and what it leaves

A completed run from a package touches nothing but what lies below the directory of that package.
There it begins with an empty directory, so that all files below it are those of the run, and do
not depend on what was there before.
-/
namespace ClassScribe
open Host

namespace Generate

variable {m : Model} {root i : ElementId} {o : Options} {base p d : Path} {s s' : Memory}
  {t : Task} {ts : List Task}

/-- To leave out more, something can be left out before. -/
theorem filter_filter_not {α : Type} {f g : α → Bool} (h : ∀ x, f x = true → g x = true)
    (xs : List α) : (xs.filter (!f ·)).filter (!g ·) = xs.filter (!g ·) := by
  rw [List.filter_filter]
  apply List.filter_congr
  intro x _
  by_cases hg : g x = true
  · simp [hg]
  · have hf : f x ≠ true := fun hf => hg (h x hf)
    simp [hg, hf]

/-- The directories and files that do not lie below a place. -/
def elsewhere (d : Path) (s : Memory) : List (List Path.Step) × List (Path × String) :=
  (s.directories.filter (!d.steps.isPrefixOf ·), s.files.filter (!·.1.isWithin d))

theorem elsewhere_carry (ht : ∀ p, t.path? = some p → p.isWithin d = true) :
    elsewhere d (carry s t) = elsewhere d s := by
  cases t with
  | skip name label => rfl
  | file i p content =>
    exact Prod.ext rfl (Memory.filter_putFile (ht p rfl) content s.files)
  | directory p =>
    have hp := Path.isWithin_iff.mp (ht p rfl)
    have hnew : [p.steps].filter (!d.steps.isPrefixOf ·) = [] := by
      simpa using hp
    by_cases hs : s.isDirectory p = true
    · refine Prod.ext ?_ ?_
      · simp only [elsewhere, carry, hs, if_true, List.filter_append, hnew, List.append_nil]
        refine filter_filter_not (fun x hx => ?_) s.directories
        exact List.isPrefixOf_iff_prefix.mpr (hp.trans (List.isPrefixOf_iff_prefix.mp hx))
      · simp only [elsewhere, carry, hs, if_true]
        refine filter_filter_not (fun f hf => ?_) s.files
        exact Path.isWithin_iff.mpr (hp.trans (Path.isWithin_iff.mp hf))
    · refine Prod.ext ?_ ?_
      · simp [elsewhere, carry, hs, List.filter_append, hnew]
      · simp [elsewhere, carry, hs]

theorem elsewhere_foldl (hts : ∀ t ∈ ts, ∀ p, t.path? = some p → p.isWithin d = true) :
    elsewhere d (ts.foldl carry s) = elsewhere d s := by
  induction ts generalizing s with
  | nil => rfl
  | cons t ts ih =>
    rw [List.foldl_cons, ih fun u hu => hts u (List.mem_cons_of_mem _ hu),
      elsewhere_carry (hts t List.mem_cons_self)]

/-- The tasks of a run from a package lead below its directory. -/
theorem within_root (ht : m.IsTree) (hn : ∀ i s, entryName? m i = some s → Path.isAbsolute s = false)
    (hr : m.IsPackage root) (h : t ∈ tasks m root o base) (hp : t.path? = some p) :
    p.isWithin (directoryPath m root base root) = true := by
  obtain ⟨i, name, hi, hname, rfl⟩ := path_of_task ht h hp
  apply Path.isWithin_iff.mpr
  by_cases hir : i = root
  · subst hir
    rw [entryName?_of_package hr] at hname
    obtain rfl := Option.some.inj hname
    exact List.prefix_rfl
  · by_cases hne : (directoryPath m root base root).text = ""
    · rw [Path.steps_eq_nil_iff.mpr hne]
      exact List.nil_prefix
    · have hup := place_below ht hn (m.isWithin_self root) hne hi hir
      rw [Path.steps_join (Path.text_ne_of_prefix hup hne) (hn i name hname)]
      exact hup.trans (List.prefix_append _ _)

/-- Files are written strictly below the directory of the root. -/
theorem file_below_root (ht : m.IsTree)
    (hn : ∀ i s, entryName? m i = some s → Path.isAbsolute s = false) (hr : m.IsPackage root)
    (h : t ∈ tasks m root o base) (hw : t.writes p = true) :
    p.isWithin (directoryPath m root base root) = true ∧
      p.same (directoryPath m root base root) = false := by
  rw [tasks_eq ht] at h
  obtain ⟨i, hi, hti⟩ := List.mem_filterMap.mp h
  cases t with
  | skip name label => cases hw
  | directory q => cases hw
  | file k q content =>
    obtain ⟨rfl, rfl, f, hf, -⟩ := taskOf?_file.mp hti
    have hw : (outputPath m root base i).steps = p.steps := Path.same_iff.mp hw
    rw [Path.isWithin_iff, ← hw, Path.same, ← hw, beq_eq_false_iff_ne]
    have hir : i ≠ root := by
      rintro rfl
      rw [render?_of_package hr] at hf
      cases hf
    by_cases hne : (directoryPath m root base root).text = ""
    · rw [Path.steps_eq_nil_iff.mpr hne]
      refine ⟨List.nil_prefix, mt Path.steps_eq_nil_iff.mp (Path.join_ne ?_)⟩
      intro he
      exact Source.added_fileName m i (by rw [he]; rfl)
    · have hup := place_below ht hn (m.isWithin_self root) hne (Model.mem_subtree.mp hi).2 hir
      rw [outputPath, Path.steps_join (Path.text_ne_of_prefix hup hne)
        (hn i _ (entryName?_of_render hf))]
      refine ⟨hup.trans (List.prefix_append _ _), fun he => ?_⟩
      have hlen := congrArg List.length he
      have := List.length_pos_of_ne_nil (Source.added_fileName m i)
      have := hup.length_le
      rw [List.length_append] at hlen
      omega

/-- The base directory is around that of the root. -/
theorem base_above (hn : Path.isAbsolute (m.name root) = false) :
    base.steps <+: (directoryPath m root base root).steps := by
  by_cases hb : base.text = ""
  · rw [Path.steps_eq_nil_iff.mpr hb]
    exact List.nil_prefix
  · have hplace : (placeOf m root base root).text ≠ "" := by rwa [placeOf_root]
    rw [steps_directoryPath hplace hn, placeOf_root]
    exact List.prefix_append _ _

/-- A file below the directory of the root was there before its task only if that directory was, or
it is at the place of the directory, or the directory has an empty path. -/
theorem file?_of_first (hs : Memory.Rooted base s) (hb : base.steps <+: d.steps)
    (hp : p.isWithin d = true) {content : String}
    (h : (carry s (.directory d)).file? p = some content) :
    s.isDirectory d = false ∧ s.file? p = some content ∧ (p.same d = true ∨ d.text = "") := by
  rw [file?_carry_directory, hp, Bool.and_true] at h
  by_cases hd : s.isDirectory d = true
  · rw [if_pos hd] at h
    cases h
  · rw [if_neg hd] at h
    refine ⟨by simpa using hd, h, ?_⟩
    by_contra hne
    obtain ⟨hpd, hdt⟩ := not_or.mp hne
    obtain ⟨f, hf, hfp⟩ := Memory.mem_of_file? h
    refine hd (Memory.isDirectory_iff.mpr ?_)
    refine hs.directory_above_file (mt Path.steps_eq_nil_iff.mp hdt) hb hf ?_ ?_
    · rw [hfp]
      exact Path.isWithin_iff.mp hp
    · rw [hfp]
      exact mt Path.same_iff.mpr hpd

/-- After the first task, there is only the directory of the root at or below its place. -/
theorem isDirectory_of_first (hs : Memory.Rooted base s) (hb : base.steps <+: d.steps)
    (hd : d.text ≠ "" ∨ s.isDirectory d = true) (hp : p.isWithin d = true) :
    (carry s (.directory d)).isDirectory p = d.same p := by
  apply Bool.eq_iff_iff.mpr
  rw [isDirectory_carry_directory, hp]
  refine or_iff_left ?_
  rintro ⟨hsp, hno⟩
  have hsd : s.isDirectory d ≠ true := fun h => Bool.noConfusion (hno h)
  have hne := mt Path.steps_eq_nil_iff.mp (hd.resolve_right hsd)
  exact hsd (Memory.isDirectory_iff.mpr
    (hs.directory_above hne hb (Memory.isDirectory_iff.mp hsp) (Path.isWithin_iff.mp hp)))

/-- Two memories have the same directories at and below a place, and the same files below it. -/
structure Alike (d : Path) (s s' : Memory) : Prop where
  directories : ∀ p : Path, p.isWithin d = true → s.isDirectory p = s'.isDirectory p
  files : ∀ p : Path, p.isWithin d = true → p.same d = false → s.file? p = s'.file? p

theorem alike_first (hs : Memory.Rooted base s) (hs' : Memory.Rooted base s')
    (hb : base.steps <+: d.steps)
    (hd : d.text ≠ "" ∨ s.isDirectory d = true ∧ s'.isDirectory d = true) :
    Alike d (carry s (.directory d)) (carry s' (.directory d)) := by
  have gone {u : Memory} (hu : Memory.Rooted base u) (hd : d.text ≠ "" ∨ u.isDirectory d = true)
      (p : Path) (hp : p.isWithin d = true) (hne : p.same d = false) :
      (carry u (.directory d)).file? p = none := by
    by_contra hsome
    obtain ⟨content, hc⟩ := Option.ne_none_iff_exists'.mp hsome
    obtain ⟨hud, -, hplace⟩ := file?_of_first hu hb hp hc
    rcases hplace with hsame | hempty
    · simp [hsame] at hne
    · simp [hempty, hud] at hd
  constructor
  · intro p hp
    rw [isDirectory_of_first hs hb (hd.imp id And.left) hp,
      isDirectory_of_first hs' hb (hd.imp id And.right) hp]
  · intro p hp hne
    rw [gone hs (hd.imp id And.left) p hp hne, gone hs' (hd.imp id And.right) p hp hne]

theorem Alike.carry (h : Alike d s s') (ht : ∀ p, t.path? = some p → p.isWithin d = true) :
    Alike d (Generate.carry s t) (Generate.carry s' t) := by
  have hq (q : Path) (hq : t = .directory q) : s.isDirectory q = s'.isDirectory q :=
    h.directories q (ht q (by rw [hq, Task.path?]))
  exact ⟨fun p hp => isDirectory_carry_congr (h.directories p hp) hq,
    fun p hp hne => file?_carry_congr (h.files p hp hne) hq⟩

theorem Alike.foldl (h : Alike d s s')
    (hts : ∀ t ∈ ts, ∀ p, t.path? = some p → p.isWithin d = true) :
    Alike d (ts.foldl Generate.carry s) (ts.foldl Generate.carry s') := by
  induction ts generalizing s s' with
  | nil => exact h
  | cons t ts ih =>
    exact ih (h.carry (hts t List.mem_cons_self)) fun u hu => hts u (List.mem_cons_of_mem _ hu)

/-- The file at `p` is reported, and it is that of the last element there. -/
def Renewed (m : Model) (root : ElementId) (o : Options) (base : Path) (r : Report) (p : Path)
    (content : String) : Prop :=
  (∃ q ∈ r.files, q.same p = true) ∧ ∃ i f, LastAt m root o base p i f ∧ f.content = content

/-- A file at the end of a run is one of its own, or the first task has left it. -/
theorem renewed_or_left (ht : m.IsTree) {rest : List Task} {content : String} {r : Report}
    (htasks : tasks m root o base = .directory d :: rest)
    (hfiles : r.files = (tasks m root o base).filterMap Task.file?)
    (h : ((tasks m root o base).foldl carry s).file? p = some content) :
    Renewed m root o base r p content ∨ (carry s (.directory d)).file? p = some content := by
  rw [htasks, List.foldl_cons] at h
  refine (origin_of_foldl h).imp ?_ And.left
  rintro ⟨before, i, q, after, rfl, hq, hw⟩
  have hsplit : tasks m root o base = (.directory d :: before) ++ .file i q content :: after := htasks
  obtain ⟨f, hl, hf⟩ := LastAt.of_split ht hsplit hq hw
  refine ⟨⟨q, ?_, hq⟩, i, f, hl, hf⟩
  rw [hfiles, hsplit]
  exact List.mem_filterMap.mpr ⟨.file i q content, by simp, rfl⟩

/-- A completed run from a package leaves what is not below the directory `D` of the package. What
is below `D` at the end is reported and up to date; only where `D` was no directory, a file at the
place of `D` can be left, or any file if `D` is the empty path. And what is below `D` does not
depend on the memory that the run began with. -/
theorem generate_renews {sd : Snapshot.Document} (hd : Model.build sd = .ok m)
    (hn : ∀ e ∈ m.elements, Path.isAbsolute e.name = false) (hr : m.IsPackage root)
    (hs : Memory.Reachable base s) {r : Report}
    (h : ((generate m root o base).run Memory.host s).result = .completed r)
    {D : Path} (hD : D = base.join (m.name root)) :
    elsewhere D ((generate m root o base).run Memory.host s).state = elsewhere D s ∧
      (∀ p content, p.isWithin D = true →
        ((generate m root o base).run Memory.host s).state.file? p = some content →
        Renewed m root o base r p content ∨
          s.isDirectory D = false ∧ s.file? p = some content ∧
            (p.same D = true ∨ D.text = "")) ∧
      ∀ s' r', Memory.Reachable base s' →
        ((generate m root o base).run Memory.host s').result = .completed r' →
        D.text ≠ "" ∨ s.isDirectory D = true ∧ s'.isDirectory D = true →
        ∀ p, p.isWithin D = true → p.same D = false →
          ((generate m root o base).run Memory.host s).state.file? p =
            ((generate m root o base).run Memory.host s').state.file? p := by
  have ht := Model.build_isTree hd
  have hrel (i : ElementId) (name : String) (hi : entryName? m i = some name) :=
    relative_entry hn hi
  have hroot : directoryPath m root base root = D := by
    rw [directoryPath, placeOf_root, hD]
  have hbase : base.steps <+: D.steps :=
    hroot ▸ base_above (hrel root _ (entryName?_of_package hr))
  have hwithin (t : Task) (htm : t ∈ tasks m root o base) (p : Path) (hp : t.path? = some p) :=
    within_root ht hrel hr htm hp
  rw [hroot] at hwithin
  obtain ⟨rest, htasks⟩ := tasks_of_package ht hr o base
  rw [hroot] at htasks
  have hfiles : r.files = _ := congrArg Report.files (generate_reports h)
  have hstate := generate_carry h
  rw [hstate]
  refine ⟨elsewhere_foldl hwithin, ?_, ?_⟩
  · intro p content hp hc
    exact (renewed_or_left ht htasks hfiles hc).imp id (file?_of_first hs.rooted hbase hp)
  · intro s' r' hs' h' hdir p hp hne
    rw [generate_carry h', htasks]
    rw [htasks] at hwithin
    exact ((alike_first hs.rooted hs'.rooted hbase hdir).foldl
      fun t htm => hwithin t (List.mem_cons_of_mem _ htm)).files p hp hne

/-- A package with one class. -/
def lone (name : String) : Snapshot.Document where
  name := name
  ownedElements := [{ kind := "class", name := "Order" }]

def loneModel (name : String) : Model := ⟨((lone name).entries.map (·.element)).toArray, []⟩

def loneRun (name : String) (base : Path) (s : Memory) : Run Call.Answer Memory Outcome :=
  (generate (loneModel name) Model.root {} base).run Memory.host s

/-- The output of an earlier run, with a file that is not made any more. -/
def used : Memory := ((Memory.new ⟨"out"⟩ .accepted).withFile ⟨"out/Shop/order.rb"⟩ "old").withFile
  ⟨"out/Shop/item.rb"⟩ "old"

theorem lone_renewed : ∃ r, (loneRun "Shop" ⟨"out"⟩ used).result = .completed r ∧
    elsewhere ⟨"out/Shop"⟩ (loneRun "Shop" ⟨"out"⟩ used).state = elsewhere ⟨"out/Shop"⟩ used ∧
    ∀ p content, p.isWithin ⟨"out/Shop"⟩ = true →
      (loneRun "Shop" ⟨"out"⟩ used).state.file? p = some content →
      Renewed (loneModel "Shop") Model.root {} ⟨"out"⟩ r p content := by
  have hf : (loneRun "Shop" ⟨"out"⟩ used).result.completed?.map (·.files.map (·.text)) =
      some ["out/Shop/order.rb"] := by decide +kernel
  obtain ⟨r, hr, -⟩ := Outcome.completed_of_files hf
  have hd : Model.build (lone "Shop") = .ok (loneModel "Shop") := rfl
  have hn : ∀ e ∈ (loneModel "Shop").elements, Path.isAbsolute e.name = false := by decide +kernel
  have hroot : (loneModel "Shop").IsPackage Model.root := ⟨_, _, rfl, rfl⟩
  have hs : Memory.Reachable ⟨"out"⟩ used := .withFile _ _ (.withFile _ _ (.new _))
  have hD : (⟨"out/Shop"⟩ : Path) = Path.join ⟨"out"⟩ ((loneModel "Shop").name Model.root) := rfl
  have hdir : used.isDirectory ⟨"out/Shop"⟩ = true := by decide +kernel
  obtain ⟨hframe, hrenewed, -⟩ := generate_renews hd hn hroot hs hr hD
  refine ⟨r, hr, hframe, fun p content hp hc => (hrenewed p content hp hc).resolve_right ?_⟩
  rintro ⟨hno, -⟩
  cases hdir.symm.trans hno

/-- All files that completed runs leave at certain places below their directories are renewed. -/
def AllRenewed (place : Path → Path → Bool) : Prop :=
  ∀ (sd : Snapshot.Document) (m : Model) (root : ElementId) (o : Options) (base : Path)
    (s : Memory) (r : Report), Model.build sd = .ok m →
    (∀ e ∈ m.elements, Path.isAbsolute e.name = false) → m.IsPackage root →
    Memory.Reachable base s → s.reply = .accepted →
    ((generate m root o base).run Memory.host s).result = .completed r →
    ∀ p content, place p (base.join (m.name root)) = true →
      ((generate m root o base).run Memory.host s).state.file? p = some content →
      Renewed m root o base r p content

theorem not_renewed {r : Report} {text content : String} (hf : r.files.map (·.text) = [text])
    (hp : (⟨text⟩ : Path).same p = false) : ¬ Renewed m root o base r p content := by
  rintro ⟨⟨q, hq, hsame⟩, -⟩
  have hmem : q.text ∈ r.files.map (·.text) := List.mem_map_of_mem hq
  rw [hf, List.mem_singleton] at hmem
  rw [show q = ⟨text⟩ by rw [← hmem], hp] at hsame
  cases hsame

/-- A file where the directory is made, of which a memory knows nothing. -/
def blocked : Memory := (Memory.new ⟨"out"⟩ .accepted).withFile ⟨"out/Shop"⟩ "old"

/-- A file beside the empty path, which is no directory any more. -/
def unrooted : Memory :=
  ((Memory.new ⟨""⟩ .accepted).answer (.deleteDirectory ⟨""⟩)).2.withFile ⟨"x"⟩ "old"

/-- A file at the place of the directory stays, and below the empty path any file can. -/
theorem not_allRenewed : ¬ AllRenewed Path.isWithin ∧
    ¬ AllRenewed (fun p D => p.isWithin D && !p.same D) := by
  constructor
  · intro hall
    have hf : (loneRun "Shop" ⟨"out"⟩ blocked).result.completed?.map (·.files.map (·.text)) =
        some ["out/Shop/order.rb"] := by decide +kernel
    obtain ⟨r, hr, hf⟩ := Outcome.completed_of_files hf
    have hstale : (loneRun "Shop" ⟨"out"⟩ blocked).state.file? ⟨"out/Shop"⟩ = some "old" := by
      decide +kernel
    refine not_renewed hf ?_ (hall (lone "Shop") (loneModel "Shop") Model.root {} ⟨"out"⟩ blocked r
      rfl ?_ ⟨_, _, rfl, rfl⟩ (.withFile _ _ (.new _)) rfl hr ⟨"out/Shop"⟩ "old" ?_ hstale)
    all_goals decide +kernel
  · intro hall
    have hf : (loneRun "" ⟨""⟩ unrooted).result.completed?.map (·.files.map (·.text)) =
        some ["order.rb"] := by decide +kernel
    obtain ⟨r, hr, hf⟩ := Outcome.completed_of_files hf
    have hstale : (loneRun "" ⟨""⟩ unrooted).state.file? ⟨"x"⟩ = some "old" := by
      decide +kernel
    refine not_renewed hf ?_ (hall (lone "") (loneModel "") Model.root {} ⟨""⟩ unrooted r
      rfl ?_ ⟨_, _, rfl, rfl⟩ (.withFile _ _ (.answered _ (.new _))) rfl hr ⟨"x"⟩ "old" ?_ hstale)
    all_goals decide +kernel

end Generate
end ClassScribe
