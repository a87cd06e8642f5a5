import ClassScribe.Proofs.Generate.Closure
import ClassScribe.Proofs.Generate.Coverage
import ClassScribe.Proofs.Generate.Ready
import ClassScribe.Proofs.Generate.Reported

/-! # Elements in each other's way

A directory cannot be made where there is a file, nor a file be written where there is a directory.
A memory host does both, since it keeps directories and files apart. An element is blocked when an
element of the other kind has its path, comes before it, and has not been removed by a package
between the two.
-/
namespace ClassScribe
open Host

namespace Generate

variable {m : Model} {root i k : ElementId} {o : Options} {base p q : Path} {s : Memory}
  {kind : ElementId → Prop} {path : ElementId → Path}

/-- An element clears away nothing at a path, since it is no package with a directory above. -/
def Leaves (m : Model) (root : ElementId) (base : Path) (j : ElementId) (p : Path) : Prop :=
  m.isWithin j root = true → m.IsPackage j → p.isWithin (directoryPath m root base j) = true →
    (directoryPath m root base j).same p = true

/-- What an element of some kind in front of `k` has put at its path was not cleared away since. -/
def Stands (m : Model) (root : ElementId) (base : Path) (kind : ElementId → Prop)
    (path : ElementId → Path) (k : ElementId) (p : Path) : Prop :=
  ∃ i < k, m.isWithin i root = true ∧ kind i ∧ (path i).same p = true ∧
    ∀ j, i < j → j < k → Leaves m root base j p

/-- What an earlier element has put at its path is in the way of an element of the other kind. -/
inductive Blocked (m : Model) (root : ElementId) (base : Path) (k : ElementId) : Prop
  | package : m.isWithin k root = true → m.IsPackage k →
      Stands m root base m.IsClassifier (outputPath m root base) k (directoryPath m root base k) →
      Blocked m root base k
  | classifier : m.isWithin k root = true → m.IsClassifier k →
      Stands m root base m.IsPackage (directoryPath m root base) k (outputPath m root base k) →
      Blocked m root base k

theorem stands_succ : Stands m root base kind path (k + 1) p ↔
    Stands m root base kind path k p ∧ Leaves m root base k p ∨
      m.isWithin k root = true ∧ kind k ∧ (path k).same p = true := by
  constructor
  · rintro ⟨i, hik, hi, hkind, hsame, hleft⟩
    rcases Nat.lt_succ_iff_lt_or_eq.mp hik with hik | rfl
    · exact .inl ⟨⟨i, hik, hi, hkind, hsame, fun j hij hjk => hleft j hij (Nat.lt_succ_of_lt hjk)⟩,
        hleft k hik (Nat.lt_succ_self k)⟩
    · exact .inr ⟨hi, hkind, hsame⟩
  · rintro (⟨⟨i, hik, hi, hkind, hsame, hleft⟩, hlast⟩ | ⟨hk, hkind, hsame⟩)
    · refine ⟨i, Nat.lt_succ_of_lt hik, hi, hkind, hsame, fun j hij hjk => ?_⟩
      rcases Nat.lt_succ_iff_lt_or_eq.mp hjk with hjk | rfl
      · exact hleft j hij hjk
      · exact hlast
    · exact ⟨k, Nat.lt_succ_self k, hk, hkind, hsame, fun j hkj hjk => absurd hkj (by lia)⟩

/-- As long as no element was blocked, no path has both a directory and a file. -/
theorem stands_apart (hfree : ∀ j < k, ¬ Blocked m root base j)
    (hd : Stands m root base m.IsPackage (directoryPath m root base) k p)
    (hf : Stands m root base m.IsClassifier (outputPath m root base) k p) : False := by
  obtain ⟨i, hik, hi, hpi, hip, hsi⟩ := hd
  obtain ⟨j, hjk, hj, hcj, hjp, hsj⟩ := hf
  have hij : (directoryPath m root base i).steps = p.steps := Path.same_iff.mp hip
  have hji : (outputPath m root base j).steps = p.steps := Path.same_iff.mp hjp
  rcases Nat.lt_trichotomy i j with hlt | rfl | hlt
  · refine hfree j hjk (.classifier hj hcj ⟨i, hlt, hi, hpi, ?_, fun x hix hxj => ?_⟩)
    · exact Path.same_iff.mpr (hij.trans hji.symm)
    · have := hsi x hix (hxj.trans hjk)
      rwa [Leaves, Path.isWithin, Path.same, hji]
  · exact hcj.not_isPackage hpi
  · refine hfree i hik (.package hi hpi ⟨j, hlt, hj, hcj, ?_, fun x hjx hxi => ?_⟩)
    · exact Path.same_iff.mpr (hji.trans hij.symm)
    · have := hsj x hjx (hxi.trans hik)
      rwa [Leaves, Path.isWithin, Path.same, hij]

/-- Only a package with the name of a file can be in the way, or be blocked. -/
theorem Blocked.name_eq (hn : ∀ e ∈ m.elements, Path.Plain e.name)
    (h : Blocked m root base k) :
    ∃ i j, m.IsPackage i ∧ m.IsClassifier j ∧ m.name i = Source.fileName m j := by
  have last {i j : ElementId} (hi : m.IsPackage i)
      (hsame : (directoryPath m root base i).steps = (outputPath m root base j).steps) :
      m.name i = Source.fileName m j := by
    have hname := plain_entry hn (entryName?_of_package hi)
    rw [directoryPath, outputPath, Path.steps_join_plain _ hname,
      Path.steps_join_plain _ (fileName_plain hn j)] at hsame
    exact Path.Step.name.inj (List.append_singleton_inj.mp hsame).2
  rcases h with ⟨-, hk, i, -, -, hi, hsame, -⟩ | ⟨-, hk, i, -, -, hi, hsame, -⟩
  · exact ⟨k, i, hk, hi, last hk (Path.same_iff.mp hsame).symm⟩
  · exact ⟨i, k, hi, hk, last hi (Path.same_iff.mp hsame)⟩

/-- The task of an element at or below the root. -/
def turn? (m : Model) (root : ElementId) (o : Options) (base : Path) (k : ElementId) :
    Option Task :=
  if m.isWithin k root then taskOf? m root o base k else none

/-- The tasks of all elements with a smaller number. -/
def tasksBefore (m : Model) (root : ElementId) (o : Options) (base : Path) (k : ElementId) :
    List Task :=
  (List.range k).filterMap (turn? m root o base)

/-- The memory of a run with all prompts accepted, when it comes to an element. -/
def memoryBefore (m : Model) (root : ElementId) (o : Options) (base : Path) (k : ElementId) :
    Memory :=
  (tasksBefore m root o base k).foldl carry (.new base .accepted)

theorem tasksBefore_succ (m : Model) (root : ElementId) (o : Options) (base : Path)
    (k : ElementId) : tasksBefore m root o base (k + 1) =
      tasksBefore m root o base k ++ (turn? m root o base k).toList := by
  rw [tasksBefore, List.range_succ, List.filterMap_append]
  cases h : turn? m root o base k <;> simp [tasksBefore, h]

theorem filterMap_within (xs : List ElementId) : xs.filterMap (turn? m root o base) =
    (xs.filter (m.isWithin · root)).filterMap (taskOf? m root o base) := by
  rw [List.filterMap_filter]
  rfl

theorem tasks_eq_before (ht : m.IsTree) :
    tasks m root o base = tasksBefore m root o base m.elements.size := by
  rw [tasks_eq ht, tasksBefore, filterMap_within]
  rfl

theorem turn?_eq_some {t : Task} : turn? m root o base k = some t ↔
    m.isWithin k root = true ∧ taskOf? m root o base k = some t := by
  rw [turn?]
  split <;> simp_all

theorem range_split {n : Nat} (hk : k < n) : ∃ ys, List.range n = List.range k ++ k :: ys := by
  obtain ⟨rest, rfl⟩ : ∃ rest, n = k + (rest + 1) := ⟨n - (k + 1), by lia⟩
  rw [List.range_add, List.range_succ_eq_map, List.map_cons]
  exact ⟨_, rfl⟩

theorem subtree_at (hk : k < m.elements.size) (hw : m.isWithin k root = true) :
    ∃ ys, m.subtree root = (List.range k).filter (m.isWithin · root) ++ k :: ys := by
  obtain ⟨ys, hys⟩ := range_split hk
  rw [Model.subtree, Model.ids, hys, List.filter_append, List.filter_cons_of_pos (by simpa using hw)]
  exact ⟨_, rfl⟩

/-- The names of the packages from the root down to an element. -/
def namesAbove (m : Model) (root i : ElementId) : List String :=
  if i = root then [] else m.name root :: m.segments i root

theorem placeOf_eq (m : Model) (root : ElementId) (base : Path) (i : ElementId) :
    placeOf m root base i = (namesAbove m root i).foldl Path.join base := by
  rw [placeOf, namesAbove]
  split <;> rfl

theorem forall_namesAbove {P : String → Prop} (ht : m.IsTree) (hP : ∀ e ∈ m.elements, P e.name)
    (hi : m.isWithin i root = true) : ∀ s ∈ namesAbove m root i, P s := by
  rw [namesAbove]
  split
  · simp
  · rename_i hne
    refine List.forall_mem_cons.mpr ⟨package_of_names hP (ht.isPackage_of_within hi hne), ?_⟩
    exact forall_segments ht (fun j hj _ _ => package_of_names hP hj) hi

/-- What holds of all names and of the file names made of them holds of all names along the path
that an element is put at. -/
theorem forall_names {P : String → Prop} (ht : m.IsTree) (hP : ∀ e ∈ m.elements, P e.name)
    (hfile : P (m.name i) → P (Source.fileName m i)) (hi : m.isWithin i root = true)
    {name : String} (hname : entryName? m i = some name) :
    ∀ x ∈ namesAbove m root i ++ [name], P x := by
  intro x hx
  rcases List.mem_append.mp hx with hx | hx
  · exact forall_namesAbove ht hP hi x hx
  · exact List.mem_singleton.mp hx ▸ entry_of_names hP hfile hname

theorem steps_placeOf (ht : m.IsTree) (hn : ∀ e ∈ m.elements, Path.Plain e.name) (base : Path)
    (hi : m.isWithin i root = true) : (placeOf m root base i).steps =
      base.steps ++ (namesAbove m root i).map .name := by
  rw [placeOf_eq, Path.steps_foldl_join base (forall_namesAbove ht hn hi)]

theorem ready_of_parent (hf : s.failing = [])
    (hp : ∀ q : Path, q.steps = p.steps.dropLast → s.isDirectory q = true) : s.Ready p where
  writable := by simp [Memory.checkWritable, hf]
  parent := by
    rw [Memory.checkParent]
    cases hq : p.parent? with
    | none => rfl
    | some q => simp [hp q (p.parent?_steps.1 q hq).1]

/-- How a run with all prompts accepted stands when it comes to an element. -/
structure Standing (m : Model) (root : ElementId) (o : Options) (base : Path) (k : ElementId) :
    Prop where
  ready : AllReady (.new base .accepted) (tasksBefore m root o base k)
  rooted : Memory.Rooted base (memoryBefore m root o base k)
  base_there : (memoryBefore m root o base k).isDirectory base = true

variable {d : Snapshot.Document} {t : Task} {content : String}

theorem task_path (ht : m.IsTree) (hn : ∀ e ∈ m.elements, Path.Plain e.name)
    (hturn : turn? m root o base k = some t) (hp : t.path? = some p) :
    ∃ s, entryName? m k = some s ∧ p = (placeOf m root base k).join s ∧
      p.steps = base.steps ++ (namesAbove m root k ++ [s]).map .name := by
  obtain ⟨hw, htask⟩ := turn?_eq_some.mp hturn
  have hpath := path?_taskOf? m root o base k
  rw [htask, Option.bind_some, hp] at hpath
  obtain ⟨s, hs, rfl⟩ := Option.map_eq_some_iff.mp hpath.symm
  refine ⟨s, hs, rfl, ?_⟩
  rw [Path.steps_join_plain _ (plain_entry hn hs), steps_placeOf ht hn base hw, List.map_append,
    List.append_assoc]
  rfl

theorem turn?_lt (h : turn? m root o base k = some t) : k < m.elements.size := by
  obtain ⟨-, h⟩ := turn?_eq_some.mp h
  by_contra hk
  have he : m.element? k = none := Array.getElem?_eq_none_iff.mpr (by lia)
  rw [taskOf?, he] at h
  cases h

theorem tasks_at (ht : m.IsTree) (hturn : turn? m root o base k = some t) :
    ∃ rest, tasks m root o base = tasksBefore m root o base k ++ t :: rest := by
  obtain ⟨ys, hys⟩ := range_split (turn?_lt hturn)
  rw [tasks_eq_before ht, tasksBefore, hys, List.filterMap_append, List.filterMap_cons_some hturn]
  exact ⟨_, rfl⟩

/-- The directory that an element is put into is there when the element's turn comes. -/
theorem place_isDirectory (ht : m.IsTree) (hn : ∀ e ∈ m.elements, Path.Plain e.name)
    (hturn : turn? m root o base k = some t)
    (hb : (memoryBefore m root o base k).isDirectory base = true) :
    (memoryBefore m root o base k).isDirectory (placeOf m root base k) = true := by
  obtain ⟨hw, -⟩ := turn?_eq_some.mp hturn
  rcases placeOf_cases base hw with rfl | ⟨j, hj, hjr, hplace⟩
  · rwa [placeOf_root]
  · obtain ⟨ys, hsub⟩ := subtree_at (turn?_lt hturn) hw
    rw [hplace, memoryBefore, tasksBefore, filterMap_within]
    exact around_isDirectory ht (fun i s hs => plain_entry hn hs) o base _ hsub
      (Model.parent?_lt hj) ((Model.isWithin_step hj).mpr (.inr (Model.isWithin_self m j))) hjr
      (ht.isPackage_of_child hj)

theorem memoryBefore_succ (m : Model) (root : ElementId) (o : Options) (base : Path)
    (k : ElementId) : memoryBefore m root o base (k + 1) =
      (turn? m root o base k).toList.foldl carry (memoryBefore m root o base k) := by
  rw [memoryBefore, tasksBefore_succ, List.foldl_append]
  rfl

theorem standing (hd : Model.build d = .ok m) (hn : ∀ e ∈ m.elements, Path.Plain e.name)
    (root : ElementId) (o : Options) (base : Path) (k : ElementId) :
    Standing m root o base k := by
  have ht := Model.build_isTree hd
  induction k with
  | zero => exact ⟨trivial, (Memory.Reachable.new .accepted).rooted,
      Memory.isDirectory_iff.mpr (List.mem_singleton_self _)⟩
  | succ k ih =>
    cases hturn : turn? m root o base k with
    | none =>
      have hsame : tasksBefore m root o base (k + 1) = tasksBefore m root o base k := by
        rw [tasksBefore_succ, hturn, Option.toList_none, List.append_nil]
      have hmemory : memoryBefore m root o base (k + 1) = memoryBefore m root o base k := by
        rw [memoryBefore, hsame, memoryBefore]
      exact ⟨hsame ▸ ih.ready, hmemory ▸ ih.rooted, hmemory ▸ ih.base_there⟩
    | some t =>
      have hready (p : Path) (hp : t.path? = some p) : (memoryBefore m root o base k).Ready p := by
        obtain ⟨s, -, -, hsteps⟩ := task_path ht hn hturn hp
        refine ready_of_parent (foldl_fixed _ _).2 fun q hq => ?_
        obtain ⟨hw, -⟩ := turn?_eq_some.mp hturn
        rw [Memory.isDirectory_congr (q := placeOf m root base k)]
        · exact place_isDirectory ht hn hturn ih.base_there
        · rw [hq, hsteps, steps_placeOf ht hn base hw, List.map_append, ← List.append_assoc,
            List.map_singleton, List.dropLast_concat]
      have hmemory := memoryBefore_succ m root o base k
      rw [hturn, Option.toList_some, List.foldl_cons, List.foldl_nil] at hmemory
      refine ⟨?_, hmemory ▸ rooted_carry ih.rooted hready, ?_⟩
      · rw [tasksBefore_succ, hturn]
        exact allReady_append.mpr ⟨ih.ready, hready, trivial⟩
      · rw [hmemory]
        -- a directory that is cleared is below the base directory
        refine (isDirectory_carry ih.base_there).resolve_right ?_
        rintro ⟨q, rfl, -, hq⟩
        obtain ⟨s, -, -, hsteps⟩ := task_path ht hn hturn rfl
        have hlen := (Path.isWithin_iff.mp hq).length_le
        rw [hsteps, List.length_append, List.length_map, List.length_append,
          List.length_singleton] at hlen
        omega

/-- The turn of an element, by what it is. -/
inductive Turn (m : Model) (root : ElementId) (base : Path) (k : ElementId) : Option Task → Prop
  | package : m.isWithin k root = true → m.IsPackage k →
      Turn m root base k (some (.directory (directoryPath m root base k)))
  | classifier (content : String) : m.isWithin k root = true → m.IsClassifier k →
      Turn m root base k (some (.file k (outputPath m root base k) content))
  | skip (name label : String) : ¬ m.IsPackage k → ¬ m.IsClassifier k →
      Turn m root base k (some (.skip name label))
  | none : (m.isWithin k root = true → ¬ m.IsPackage k ∧ ¬ m.IsClassifier k) →
      Turn m root base k none

theorem turn (m : Model) (root : ElementId) (o : Options) (base : Path) (k : ElementId) :
    Turn m root base k (turn? m root o base k) := by
  have hdirectory := directory?_taskOf? m root o base k
  have hfile := file?_taskOf? m root o base k
  rw [turn?]
  split
  · rename_i hw
    cases htask : taskOf? m root o base k with
    | none =>
      rw [htask] at hdirectory hfile
      refine .none fun _ => ⟨fun hp => ?_, fun hc => ?_⟩
      · cases hdirectory.trans (if_pos hp)
      · cases hfile.trans (if_pos hc)
    | some t =>
      rw [htask] at hdirectory hfile
      cases t with
      | directory q =>
        obtain ⟨hp, rfl⟩ := taskOf?_directory.mp htask
        exact .package hw hp
      | file i q content =>
        obtain ⟨rfl, rfl, f, hf, -⟩ := taskOf?_file.mp htask
        exact .classifier content hw (isClassifier_of_render hf)
      | skip name label =>
        refine .skip name label (fun hp => ?_) fun hc => ?_
        · cases hdirectory.trans (if_pos hp)
        · cases hfile.trans (if_pos hc)
  · rename_i hw
    exact .none fun h => absurd h hw

theorem Blocked.turn? (h : Blocked m root base k) (o : Options) :
    ∃ t, Generate.turn? m root o base k = some t := by
  have hturn := turn m root o base k
  cases hx : Generate.turn? m root o base k with
  | some t => exact ⟨t, rfl⟩
  | none =>
    rw [hx] at hturn
    cases hturn with
    | none hno =>
      rcases h with ⟨hw, hp, -⟩ | ⟨hw, hc, -⟩
      · exact absurd hp (hno hw).1
      · exact absurd hc (hno hw).2

theorem leaves_of_not_package (h : m.isWithin k root = true → ¬ m.IsPackage k) :
    Leaves m root base k p :=
  fun hw hp => absurd hp (h hw)

/-- A directory is made below the base directory, and it is there if anything is below it. -/
theorem directory_around (hd : Model.build d = .ok m) (hn : ∀ e ∈ m.elements, Path.Plain e.name)
    (hturn : turn? m root o base k = some (.directory q)) (hpq : p.isWithin q = true)
    (hne : q.same p = false)
    (hp : (memoryBefore m root o base k).isDirectory p = true ∨
      ((memoryBefore m root o base k).file? p).isSome = true) :
    (memoryBefore m root o base k).isDirectory q = true := by
  have hrooted := (standing hd hn root o base k).rooted
  obtain ⟨s, -, -, hsteps⟩ := task_path (Model.build_isTree hd) hn hturn rfl
  have hnil : q.steps ≠ [] := by simp [hsteps]
  have hbase : base.steps <+: q.steps := hsteps ▸ List.prefix_append _ _
  have hpre := Path.isWithin_iff.mp hpq
  rw [Memory.isDirectory_iff]
  rcases hp with hp | hp
  · exact hrooted.directory_above hnil hbase (Memory.isDirectory_iff.mp hp) hpre
  · obtain ⟨content, hc⟩ := Option.isSome_iff_exists.mp hp
    obtain ⟨f, hf, hfp⟩ := Memory.mem_of_file? hc
    refine hrooted.directory_above_file hnil hbase hf (hfp ▸ hpre) ?_
    rw [hfp]
    intro he
    rw [Path.same_iff.mpr he.symm] at hne
    cases hne

/-- The directories other than the base directory are those of the packages in front. -/
theorem isDirectory_before (hd : Model.build d = .ok m) (hn : ∀ e ∈ m.elements, Path.Plain e.name)
    (hp : p.steps ≠ base.steps) : (memoryBefore m root o base k).isDirectory p = true ↔
      Stands m root base m.IsPackage (directoryPath m root base) k p := by
  induction k with
  | zero =>
    constructor
    · intro h
      exact absurd (List.mem_singleton.mp (Memory.isDirectory_iff.mp h)) hp
    · rintro ⟨i, hi, -⟩
      exact absurd hi (Nat.not_lt_zero i)
  | succ k ih =>
    rw [memoryBefore_succ, stands_succ, ← ih]
    have hturn := turn m root o base k
    generalize hx : turn? m root o base k = x at hturn
    cases hturn with
    | package hw hpk =>
      rw [Option.toList_some, List.foldl_cons, List.foldl_nil, isDirectory_carry_directory]
      constructor
      · rintro (hsame | ⟨hthere, hclear⟩)
        · exact .inr ⟨hw, hpk, hsame⟩
        · refine .inl ⟨hthere, fun _ _ hpq => ?_⟩
          -- below its own directory, the package would have cleared `p`
          by_contra hne
          rw [hclear (directory_around hd hn hx hpq (by simpa using hne) (.inl hthere))] at hpq
          cases hpq
      · rintro (⟨hthere, hleft⟩ | ⟨-, -, hsame⟩)
        · by_cases hpq : p.isWithin (directoryPath m root base k) = true
          · exact .inl (hleft hw hpk hpq)
          · exact .inr ⟨hthere, fun _ => by simpa using hpq⟩
        · exact .inl hsame
    | classifier content hw hc =>
      have hleft : Leaves m root base k p := leaves_of_not_package fun _ => hc.not_isPackage
      rw [Option.toList_some, List.foldl_cons, List.foldl_nil, isDirectory_carry_file]
      simp [hleft, hc.not_isPackage]
    | skip name label hpk hc =>
      have hleft : Leaves m root base k p := leaves_of_not_package fun _ => hpk
      simp [carry, hleft, hpk]
    | none h =>
      have hleft : Leaves m root base k p := leaves_of_not_package fun hw => (h hw).1
      have hno : ¬ (m.isWithin k root = true ∧ m.IsPackage k ∧
        (directoryPath m root base k).same p = true) := fun hk => (h hk.1).1 hk.2.1
      rw [or_iff_left hno, and_iff_left hleft]
      rfl

/-- As long as no element was blocked, the files are those of the classes and interfaces in
front. -/
theorem file?_before (hd : Model.build d = .ok m) (hn : ∀ e ∈ m.elements, Path.Plain e.name)
    (hp : p.steps ≠ base.steps) (hfree : ∀ j < k, ¬ Blocked m root base j) :
    ((memoryBefore m root o base k).file? p).isSome = true ↔
      Stands m root base m.IsClassifier (outputPath m root base) k p := by
  induction k with
  | zero =>
    constructor
    · intro h
      cases h
    · rintro ⟨i, hi, -⟩
      exact absurd hi (Nat.not_lt_zero i)
  | succ k ih =>
    have hbefore (j : ElementId) (hj : j < k) := hfree j (Nat.lt_succ_of_lt hj)
    have ih := ih hbefore
    rw [memoryBefore_succ, stands_succ, ← ih]
    have hturn := turn m root o base k
    generalize hx : turn? m root o base k = x at hturn
    cases hturn with
    | package hw hpk =>
      have hno : ¬ m.IsClassifier k := fun hc => hc.not_isPackage hpk
      rw [Option.toList_some, List.foldl_cons, List.foldl_nil, file?_carry_directory]
      constructor
      · intro h
        split at h
        · cases h
        · rename_i hkeep
          refine .inl ⟨h, fun _ _ hpq => ?_⟩
          by_contra hne
          have hthere := directory_around hd hn hx hpq (by simpa using hne) (.inr h)
          simp [hthere, hpq] at hkeep
      · rintro (⟨hfile, hleft⟩ | ⟨-, hc, -⟩)
        · rw [if_neg]
          · exact hfile
          · intro hboth
            -- a package that clears `p` itself has found a directory beside the file
            obtain ⟨hthere, hpq⟩ := Bool.and_eq_true_iff.mp hboth
            have hsame := Path.same_iff.mp (hleft hw hpk hpq)
            rw [Memory.isDirectory_congr hsame, isDirectory_before hd hn hp] at hthere
            exact stands_apart hbefore hthere (ih.mp hfile)
        · exact absurd hc hno
    | classifier content hw hc =>
      have hleft : Leaves m root base k p := leaves_of_not_package fun _ => hc.not_isPackage
      rw [Option.toList_some, List.foldl_cons, List.foldl_nil, file?_carry_file]
      split
      · rename_i hsame
        simp [hw, hc, hsame]
      · rename_i hsame
        simp [hleft, hsame]
    | skip name label hpk hc =>
      have hleft : Leaves m root base k p := leaves_of_not_package fun _ => hpk
      simp [carry, hleft, hc]
    | none h =>
      have hleft : Leaves m root base k p := leaves_of_not_package fun hw => (h hw).1
      have hno : ¬ (m.isWithin k root = true ∧ m.IsClassifier k ∧
        (outputPath m root base k).same p = true) := fun hk => (h hk.1).2 hk.2.1
      rw [or_iff_left hno, and_iff_left hleft]
      rfl

/-- Something of the other kind is at the path of a task. -/
def Clash (s : Memory) : Task → Prop
  | .directory p => s.isDirectory p = false ∧ (s.file? p).isSome = true
  | .file _ p _ => s.isDirectory p = true
  | .skip _ _ => False

/-- The tasks of blocked elements are those that find something of the other kind. -/
theorem clash_iff (hd : Model.build d = .ok m) (hn : ∀ e ∈ m.elements, Path.Plain e.name)
    (hfree : ∀ j < k, ¬ Blocked m root base j) (hturn : turn? m root o base k = some t) :
    Clash (memoryBefore m root o base k) t ↔ Blocked m root base k := by
  have hlonger (p : Path) (hp : t.path? = some p) : p.steps ≠ base.steps := by
    obtain ⟨s, -, -, hsteps⟩ := task_path (Model.build_isTree hd) hn hturn hp
    simp [hsteps]
  have hk := turn m root o base k
  rw [hturn] at hk
  cases hk with
  | package hw hpk =>
    have hthere : (memoryBefore m root o base k).isDirectory (directoryPath m root base k) = true ↔ _ :=
      isDirectory_before hd hn (hlonger _ rfl)
    rw [Clash, file?_before hd hn (hlonger _ rfl) hfree]
    constructor
    · exact fun h => .package hw hpk h.2
    · rintro (⟨-, -, h⟩ | ⟨-, hc, -⟩)
      · exact ⟨Bool.eq_false_iff.mpr fun hp => stands_apart hfree (hthere.mp hp) h, h⟩
      · exact absurd hpk hc.not_isPackage
  | classifier content hw hc =>
    rw [Clash, isDirectory_before hd hn (hlonger _ rfl)]
    constructor
    · exact .classifier hw hc
    · rintro (⟨-, hpk, -⟩ | ⟨-, -, h⟩)
      · exact absurd hpk hc.not_isPackage
      · exact h
  | skip name label hpk hc =>
    constructor
    · exact False.elim
    · rintro (⟨-, hp, -⟩ | ⟨-, h, -⟩)
      · exact absurd hp hpk
      · exact absurd h hc

end Generate
end ClassScribe
