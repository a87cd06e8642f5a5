import Mathlib.Data.List.Induction
import ClassScribe.Host.Memory
import ClassScribe.Proofs.Path.Steps

/-! # Places of a memory host

What the changes of a memory host do to its directories and to the contents of its files. On a host
that began with one base directory, nothing is left hanging: whatever lies below a place behind the
base directory has a directory at that place.
-/
namespace ClassScribe.Host.Memory

variable {m m' : Memory} {p q d : Path} {content : String} {files : List (Path × String)}

def lookup (files : List (Path × String)) (p : Path) : Option String :=
  (files.find? (·.1.same p)).map (·.2)

theorem file?_eq (m : Memory) (p : Path) : m.file? p = lookup m.files p := rfl

theorem mem_of_file? (h : m.file? p = some content) : ∃ f ∈ m.files, f.1.steps = p.steps := by
  obtain ⟨f, hf, -⟩ := Option.map_eq_some_iff.mp h
  have hs := List.find?_some hf
  exact ⟨f, List.mem_of_find?_eq_some hf, Path.same_iff.mp (by simpa using hs)⟩

theorem lookup_putFile (p q : Path) (content : String) (files : List (Path × String)) :
    lookup (putFile p content files) q = if p.same q then some content else lookup files q := by
  induction files with
  | nil => by_cases h : p.same q = true <;> simp [putFile, lookup, h]
  | cons f files ih =>
    obtain ⟨r, old⟩ := f
    by_cases hpr : p.same r = true
    · have hr : r.same q = p.same q := by rw [Path.same, Path.same, Path.same_iff.mp hpr]
      rw [putFile, if_pos hpr]
      by_cases h : p.same q = true <;> simp [lookup, hr, h]
    · by_cases hb : p.before r = true
      · rw [putFile, if_neg hpr, if_pos hb]
        by_cases h : p.same q = true <;> simp [lookup, h]
      · rw [putFile, if_neg hpr, if_neg hb]
        by_cases hrq : r.same q = true
        · have h : p.same q ≠ true := fun h =>
            hpr (Path.same_iff.mpr ((Path.same_iff.mp h).trans (Path.same_iff.mp hrq).symm))
          simp [lookup, hrq, h]
        · simpa [lookup, hrq] using ih

theorem lookup_filter (d q : Path) (files : List (Path × String)) :
    lookup (files.filter (!·.1.isWithin d)) q =
      if q.isWithin d then none else lookup files q := by
  induction files with
  | nil => simp [lookup]
  | cons f files ih =>
    by_cases hfq : f.1.same q = true
    · have hw : f.1.isWithin d = q.isWithin d := by
        rw [Path.isWithin, Path.isWithin, Path.same_iff.mp hfq]
      by_cases h : q.isWithin d = true
      · rw [List.filter_cons_of_neg (by simp [hw, h]), ih, if_pos h, if_pos h]
      · rw [List.filter_cons_of_pos (by simp [hw, h]), if_neg h]
        simp [lookup, hfq]
    · have hskip : lookup (f :: files) q = lookup files q := by simp [lookup, hfq]
      rw [hskip, ← ih]
      by_cases hw : f.1.isWithin d = true
      · rw [List.filter_cons_of_neg (by simp [hw])]
      · rw [List.filter_cons_of_pos (by simp [hw])]
        simp [lookup, hfq]

theorem filter_putFile (hp : p.isWithin d = true) (content : String) (files : List (Path × String)) :
    (putFile p content files).filter (!·.1.isWithin d) = files.filter (!·.1.isWithin d) := by
  induction files with
  | nil => simp [putFile, hp]
  | cons f files ih =>
    obtain ⟨r, old⟩ := f
    by_cases hpr : p.same r = true
    · have hr : r.isWithin d = true := by
        rw [← hp, Path.isWithin, Path.isWithin, Path.same_iff.mp hpr]
      simp [putFile, hpr, hr]
    · by_cases hb : p.before r = true
      · simp [putFile, hpr, hb, hp]
      · by_cases hr : r.isWithin d = true
        · simp [putFile, hpr, hb, hr, ih]
        · simp [putFile, hpr, hb, hr, ih]

theorem mem_putFile {f : Path × String} (h : f ∈ putFile p content files) :
    f.1.steps = p.steps ∨ f ∈ files := by
  induction files with
  | nil =>
    rw [putFile, List.mem_singleton] at h
    exact .inl (h ▸ rfl)
  | cons g files ih =>
    obtain ⟨r, old⟩ := g
    by_cases hpr : p.same r = true
    · rw [putFile, if_pos hpr, List.mem_cons] at h
      rcases h with rfl | h
      · exact .inl (Path.same_iff.mp hpr).symm
      · exact .inr (List.mem_cons_of_mem _ h)
    · by_cases hb : p.before r = true
      · rw [putFile, if_neg hpr, if_pos hb, List.mem_cons] at h
        rcases h with rfl | h
        · exact .inl rfl
        · exact .inr h
      · rw [putFile, if_neg hpr, if_neg hb, List.mem_cons] at h
        rcases h with rfl | h
        · exact .inr List.mem_cons_self
        · exact (ih h).imp id (List.mem_cons_of_mem _)

/-- The memory without a directory and all that is in it. -/
def cleared (m : Memory) (p : Path) : Memory :=
  { m with
    directories := m.directories.filter (!p.steps.isPrefixOf ·)
    files := m.files.filter (!·.1.isWithin p) }

/-- A path of one step needs no parent. -/
def HasParent (m : Memory) (place : List Path.Step) : Prop :=
  place.length ≤ 1 ∨ place.dropLast ∈ m.directories

theorem isDirectory_iff : m.isDirectory p = true ↔ p.steps ∈ m.directories :=
  List.contains_iff_mem

theorem isDirectory_congr (h : p.steps = q.steps) : m.isDirectory p = m.isDirectory q := by
  rw [isDirectory, isDirectory, h]

theorem hasParent_of_checkParent (h : m.checkParent p = .ok ()) : m.HasParent p.steps := by
  obtain ⟨some_parent, no_parent⟩ := p.parent?_steps
  cases hq : p.parent? with
  | none => exact .inl (no_parent hq)
  | some q =>
    obtain ⟨hs, -⟩ := some_parent q hq
    by_cases he : q.text = ""
    · have : p.steps.dropLast = [] := hs ▸ Path.steps_eq_nil_iff.mpr he
      left
      have hl := congrArg List.length this
      rw [List.length_dropLast, List.length_nil] at hl
      omega
    · right
      by_cases hd : m.isDirectory q = true
      · exact hs ▸ isDirectory_iff.mp hd
      · simp [checkParent, hq, he, hd] at h

/-- Nothing stands against a new entry at a place. -/
structure Ready (m : Memory) (p : Path) : Prop where
  writable : m.checkWritable p = .ok ()
  parent : m.checkParent p = .ok ()

theorem ready_iff : m.Ready p ↔ m.checkWritable p = .ok () ∧ m.checkParent p = .ok () :=
  ⟨fun h => ⟨h.writable, h.parent⟩, fun ⟨hw, hp⟩ => ⟨hw, hp⟩⟩

theorem check_ok {α : Type} {x : Except Failure Unit} {f : Unit → Except Failure α} {a : α} :
    (x >>= f) = .ok a ↔ x = .ok () ∧ f () = .ok a := by
  cases x with
  | error e =>
    constructor
    · intro h
      cases h
    · rintro ⟨h, -⟩
      cases h
  | ok u => exact ⟨fun h => ⟨rfl, h⟩, fun h => h.2⟩

theorem createDirectory_iff : m.createDirectory p = .ok m' ↔
    m.Ready p ∧ m.isDirectory p = false ∧
      m' = { m with directories := m.directories ++ [p.steps] } := by
  by_cases hd : m.isDirectory p = true
  · simp [createDirectory, check_ok, hd]
  · simp [createDirectory, check_ok, ready_iff, hd, addDirectory, and_assoc, eq_comm (b := m')]

theorem deleteDirectory_iff : m.deleteDirectory p = .ok m' ↔
    m.checkWritable p = .ok () ∧ m.isDirectory p = true ∧ m' = m.cleared p := by
  by_cases hd : m.isDirectory p = true
  · simp [deleteDirectory, check_ok, hd, cleared, eq_comm (b := m')]
  · simp [deleteDirectory, check_ok, hd]

theorem writeText_iff {overwrite : Bool} : m.writeText p content overwrite = .ok m' ↔
    m.Ready p ∧ (overwrite = true ∨ m.file? p = none) ∧
      m' = { m with files := putFile p content m.files, writes := m.writes ++ [p] } := by
  by_cases ho : overwrite = true ∨ m.file? p = none
  · have : ¬ (!overwrite && (m.file? p).isSome) = true := by
      rcases ho with ho | ho <;> simp [ho]
    simp [writeText, check_ok, ready_iff, ho, this, and_assoc, eq_comm (b := m')]
  · have : (!overwrite && (m.file? p).isSome) = true := by
      obtain ⟨ho, hf⟩ := not_or.mp ho
      simp [ho, Option.isSome_iff_ne_none, hf]
    simp [writeText, check_ok, ho, this]

/-- What a new entry needs depends on the directory above it alone. -/
theorem checkParent_congr (h : ∀ q, p.parent? = some q → m.isDirectory q = m'.isDirectory q) :
    m.checkParent p = m'.checkParent p := by
  cases hq : p.parent? with
  | none => simp [checkParent, hq]
  | some q => simp [checkParent, hq, h q hq]

/-- To clear a directory leaves what is above it. -/
theorem checkParent_cleared : (m.cleared p).checkParent p = m.checkParent p := by
  apply checkParent_congr
  intro q hq
  have hout := Path.parent_outside hq
  apply Bool.eq_iff_iff.mpr
  rw [isDirectory_iff, isDirectory_iff, cleared, List.mem_filter]
  exact and_iff_left (by simpa [Path.isWithin] using hout)

theorem createDirectory_ok (h : m.createDirectory p = .ok m') :
    m.HasParent p.steps ∧ m.isDirectory p = false ∧
      m' = { m with directories := m.directories ++ [p.steps] } := by
  obtain ⟨hr, hd, hm⟩ := createDirectory_iff.mp h
  exact ⟨hasParent_of_checkParent hr.parent, hd, hm⟩

theorem deleteDirectory_ok (h : m.deleteDirectory p = .ok m') :
    m.isDirectory p = true ∧ m' = m.cleared p :=
  (deleteDirectory_iff.mp h).2

theorem writeText_ok {overwrite : Bool} (h : m.writeText p content overwrite = .ok m') :
    m.HasParent p.steps ∧
      m' = { m with files := putFile p content m.files, writes := m.writes ++ [p] } := by
  obtain ⟨hr, -, hm⟩ := writeText_iff.mp h
  exact ⟨hasParent_of_checkParent hr.parent, hm⟩

/-- The memories that a host with one base directory can come to. -/
inductive Reachable (base : Path) : Memory → Prop
  | new (reply) : Reachable base (new base reply)
  | withFile {m : Memory} (p content) : Reachable base m → Reachable base (m.withFile p content)
  | failOn {m : Memory} (p) : Reachable base m → Reachable base (m.failOn p)
  | answered {m : Memory} (c : Call) : Reachable base m → Reachable base (m.answer c).2

/-- Every directory but the base directory has a parent, and so has every file. -/
structure Rooted (base : Path) (m : Memory) : Prop where
  directories : ∀ d ∈ m.directories, d = base.steps ∨ m.HasParent d
  files : ∀ f ∈ m.files, m.HasParent f.1.steps

variable {base : Path}

theorem HasParent.mono {place : List Path.Step} (hsub : m.directories ⊆ m'.directories)
    (h : m.HasParent place) : m'.HasParent place :=
  h.imp id fun hd => hsub hd

theorem Rooted.createDirectory (h : Rooted base m) (hc : m.createDirectory p = .ok m') :
    Rooted base m' := by
  obtain ⟨hp, -, rfl⟩ := createDirectory_ok hc
  have hsub : m.directories ⊆ m.directories ++ [p.steps] := List.subset_append_left _ _
  refine ⟨?_, fun f hf => (h.files f hf).mono hsub⟩
  intro d hd
  rcases List.mem_append.mp hd with hd | hd
  · exact (h.directories d hd).imp id (HasParent.mono hsub)
  · obtain rfl := List.mem_singleton.mp hd
    exact .inr (hp.mono hsub)

theorem HasParent.cleared {place : List Path.Step} (hp : ¬ p.steps <+: place)
    (h : m.HasParent place) : (m.cleared p).HasParent place := by
  refine h.imp id fun hd => List.mem_filter.mpr ⟨hd, ?_⟩
  have hn : ¬ p.steps <+: place.dropLast := fun hpre => hp (hpre.trans (List.dropLast_prefix _))
  simpa [Bool.eq_false_iff] using hn

theorem Rooted.deleteDirectory (h : Rooted base m) (hc : m.deleteDirectory p = .ok m') :
    Rooted base m' := by
  obtain ⟨-, rfl⟩ := deleteDirectory_ok hc
  constructor
  · intro d hd
    obtain ⟨hd, hn⟩ := List.mem_filter.mp hd
    exact (h.directories d hd).imp id (HasParent.cleared (by simpa [Bool.eq_false_iff] using hn))
  · intro f hf
    obtain ⟨hf, hn⟩ := List.mem_filter.mp hf
    exact (h.files f hf).cleared (by simpa [Path.isWithin, Bool.eq_false_iff] using hn)

theorem Rooted.writeText {overwrite : Bool} (h : Rooted base m)
    (hc : m.writeText p content overwrite = .ok m') : Rooted base m' := by
  obtain ⟨hp, rfl⟩ := writeText_ok hc
  refine ⟨h.directories, ?_⟩
  intro f hf
  rcases mem_putFile hf with hs | hf
  · exact hs ▸ hp
  · exact h.files f hf

theorem Rooted.answer (h : Rooted base m) (c : Call) : Rooted base (m.answer c).2 := by
  have settle (x : Except Failure Memory) (hx : ∀ m', x = .ok m' → Rooted base m') :
      Rooted base (m.settle x).2 := by
    cases x with
    | error f => exact h
    | ok m' => exact hx m' rfl
  cases c with
  | directoryExists p => exact h
  | createDirectory p => exact settle _ fun _ => h.createDirectory
  | deleteDirectory p => exact settle _ fun _ => h.deleteDirectory
  | writeText p content overwrite => exact settle _ fun _ => h.writeText
  | confirm message => exact ⟨h.directories, h.files⟩

theorem directories_addDirectory (m : Memory) (q : Path) (place : List Path.Step) :
    place ∈ (m.addDirectory q).directories ↔ place ∈ m.directories ∨ place = q.steps := by
  by_cases hq : m.isDirectory q = true
  · have := isDirectory_iff.mp hq
    rw [addDirectory, if_pos hq]
    constructor
    · exact .inl
    · rintro (h | rfl)
      · exact h
      · exact this
  · simp [addDirectory, hq]

theorem directories_foldl (qs : List Path) (m : Memory) (place : List Path.Step) :
    place ∈ (qs.foldl addDirectory m).directories ↔
      place ∈ m.directories ∨ ∃ q ∈ qs, place = q.steps := by
  induction qs generalizing m with
  | nil => simp
  | cons q qs ih =>
    rw [List.foldl_cons, ih, directories_addDirectory, or_assoc]
    simp

theorem files_foldl (qs : List Path) (m : Memory) : (qs.foldl addDirectory m).files = m.files := by
  induction qs generalizing m with
  | nil => rfl
  | cons q qs ih =>
    rw [List.foldl_cons, ih, addDirectory]
    split <;> rfl

theorem parents_above {fuel : Nat} (hf : p.steps.length ≤ fuel) :
    (p.steps.length ≤ 1 ∨ ∃ q ∈ parents fuel p, p.steps.dropLast = q.steps) ∧
      ∀ q ∈ parents fuel p, q.steps.length ≤ 1 ∨
        ∃ r ∈ parents fuel p, q.steps.dropLast = r.steps := by
  induction fuel generalizing p with
  | zero => exact ⟨.inl (by omega), by simp [parents]⟩
  | succ fuel ih =>
    obtain ⟨some_parent, no_parent⟩ := p.parent?_steps
    cases hq : p.parent? with
    | none => exact ⟨.inl (no_parent hq), by simp [parents, hq]⟩
    | some q =>
      obtain ⟨hs, hne⟩ := some_parent q hq
      have hlen : q.steps.length = p.steps.length - 1 := by rw [hs, List.length_dropLast]
      by_cases he : q.text = ""
      · have : q.steps.length = 0 := by simp [Path.steps_eq_nil_iff.mpr he]
        exact ⟨.inl (by omega), by simp [parents, hq, he]⟩
      · have hpar : parents (fuel + 1) p = q :: parents fuel q := by simp [parents, hq, he]
        obtain ⟨first, rest⟩ := ih (p := q) (by omega)
        rw [hpar]
        refine ⟨.inr ⟨q, List.mem_cons_self, hs.symm⟩, ?_⟩
        intro r hr
        rcases List.mem_cons.mp hr with rfl | hr
        · exact first.imp id fun ⟨t, ht, h⟩ => ⟨t, List.mem_cons_of_mem _ ht, h⟩
        · exact (rest r hr).imp id fun ⟨t, ht, h⟩ => ⟨t, List.mem_cons_of_mem _ ht, h⟩

theorem Rooted.withFile (h : Rooted base m) (p : Path) (content : String) :
    Rooted base (m.withFile p content) := by
  obtain ⟨first, rest⟩ := parents_above p.length_steps_le
  have hdirs (place : List Path.Step) : place ∈ (m.withFile p content).directories ↔
      place ∈ m.directories ∨ ∃ q ∈ parents p.segments.length p, place = q.steps :=
    directories_foldl (parents p.segments.length p) m place
  have hsub : m.directories ⊆ (m.withFile p content).directories :=
    fun d hd => (hdirs d).mpr (.inl hd)
  constructor
  · intro d hd
    rcases (hdirs d).mp hd with hd | ⟨q, hq, rfl⟩
    · exact (h.directories d hd).imp id (HasParent.mono hsub)
    · exact .inr ((rest q hq).imp id fun hr => (hdirs _).mpr (.inr hr))
  · intro f hf
    rcases mem_putFile hf with hs | hf
    · rw [hs]
      exact first.imp id fun hr => (hdirs _).mpr (.inr hr)
    · rw [files_foldl] at hf
      exact (h.files f hf).mono hsub

theorem Reachable.rooted (h : Reachable base m) : Rooted base m := by
  induction h with
  | new reply => exact ⟨fun d hd => .inl (List.mem_singleton.mp hd), fun f hf => by cases hf⟩
  | withFile p content _ ih => exact ih.withFile p content
  | failOn p _ ih => exact ⟨ih.directories, ih.files⟩
  | answered c _ ih => exact ih.answer c

/-- Below a place behind the base directory there are only directories if there is one at it. -/
theorem Rooted.directory_above (h : Rooted base m) {place : List Path.Step} (hne : place ≠ [])
    (hb : base.steps <+: place) {x : List Path.Step} (hx : x ∈ m.directories) (hp : place <+: x) :
    place ∈ m.directories := by
  induction x using List.reverseRecOn with
  | nil => exact absurd (List.prefix_nil.mp hp) hne
  | append_singleton xs last ih =>
    rcases List.prefix_concat_iff.mp hp with rfl | hp
    · exact hx
    · have hlen := hp.length_le
      have hpos := List.length_pos_of_ne_nil hne
      rcases h.directories _ hx with hbase | hshort | hup
      · have hle := hb.length_le
        rw [← hbase, List.length_append, List.length_singleton] at hle
        omega
      · rw [List.length_append, List.length_singleton] at hshort
        omega
      · rw [List.dropLast_concat] at hup
        exact ih hup hp

theorem Rooted.directory_above_file (h : Rooted base m) {place : List Path.Step} (hne : place ≠ [])
    (hb : base.steps <+: place) {f : Path × String} (hf : f ∈ m.files) (hp : place <+: f.1.steps)
    (hs : f.1.steps ≠ place) : place ∈ m.directories := by
  rcases List.eq_nil_or_concat f.1.steps with hnil | ⟨xs, last, hcat⟩
  · exact absurd (List.prefix_nil.mp (hnil ▸ hp)) hne
  · rw [hcat, List.concat_eq_append] at hp hs
    have hup := (List.prefix_concat_iff.mp hp).resolve_left hs.symm
    have hlen := hup.length_le
    have hpos := List.length_pos_of_ne_nil hne
    rcases h.files f hf with hshort | hd
    · rw [hcat, List.concat_eq_append, List.length_append, List.length_singleton] at hshort
      omega
    · rw [hcat, List.concat_eq_append, List.dropLast_concat] at hd
      exact h.directory_above hne hb hd hup

end ClassScribe.Host.Memory
