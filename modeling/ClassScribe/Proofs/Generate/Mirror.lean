import ClassScribe.Proofs.Generate.Blocked
import ClassScribe.Proofs.Host.Calls
import ClassScribe.Proofs.Host.Disk

/-! # A disk that mirrors a memory

A disk with an empty directory and a memory that has only this directory are alike below it. They
stay so when a task is done on both, unless the task finds something of the other kind at its path.
-/
namespace ClassScribe
open Host

namespace Generate

variable {m : Model} {root k : ElementId} {o : Options} {base p q : Path} {s : Memory} {t : Task}
  {place names x : List String} {d₀ d : Disk} {sd : Snapshot.Document} {r : Report}
  {c : Console} {content : String}

/-- What a memory has at a path. -/
def entryAt? (s : Memory) (p : Path) : Option Host.Entry :=
  if s.isDirectory p then some .directory else (s.file? p).map .file

theorem entryAt?_eq_directory : entryAt? s p = some .directory ↔ s.isDirectory p = true := by
  rw [entryAt?]
  split
  · simpa
  · cases h : s.file? p <;> simp_all

theorem entryAt?_eq_none (hp : s.isDirectory p = false) :
    entryAt? s p = none ↔ s.file? p = none := by
  simp [entryAt?, hp]

theorem entryAt?_carry_directory (s : Memory) (p q : Path) : entryAt? (carry s (.directory p)) q =
    if p.same q then some .directory
    else if s.isDirectory p && q.isWithin p then none else entryAt? s q := by
  have hd := isDirectory_carry_directory (s := s) (p := p) (d := q)
  rw [entryAt?, entryAt?, file?_carry_directory]
  by_cases hsame : p.same q = true
  · rw [if_pos (hd.mpr (.inl hsame)), if_pos hsame]
  · rw [if_neg hsame]
    by_cases hclear : (s.isDirectory p && q.isWithin p) = true
    · obtain ⟨hp, hq⟩ := Bool.and_eq_true_iff.mp hclear
      have hgone : ¬ (carry s (.directory p)).isDirectory q = true := by
        rw [hd]
        rintro (h | ⟨-, h⟩)
        · exact hsame h
        · cases hq.symm.trans (h hp)
      rw [if_neg hgone, if_pos hclear, if_pos hclear]
      rfl
    · have hkept : (carry s (.directory p)).isDirectory q = s.isDirectory q := by
        apply Bool.eq_iff_iff.mpr
        rw [hd]
        constructor
        · rintro (h | h)
          · exact absurd h hsame
          · exact h.1
        · exact fun h => .inr ⟨h, fun hp => by simpa [hp] using hclear⟩
      rw [hkept, if_neg hclear, if_neg hclear]

theorem entryAt?_carry_file (i : ElementId) (hp : s.isDirectory p = false) :
    entryAt? (carry s (.file i p content)) q =
      if p.same q then some (.file content) else entryAt? s q := by
  rw [entryAt?, entryAt?, isDirectory_carry_file, file?_carry_file]
  by_cases hsame : p.same q = true
  · have hq : s.isDirectory q = false :=
      (Memory.isDirectory_congr (Path.same_iff.mp hsame)).symm.trans hp
    rw [hq, if_pos hsame, if_pos hsame]
    rfl
  · rw [if_neg hsame, if_neg hsame]

/-- There is a directory at a path, and nothing is in it. -/
structure Vacant (d : Disk) (p : Path) (place : List String) : Prop where
  there : d.find p = .ok (place, .directory)
  vacant : ∀ e ∈ d.entries, Disk.isBelow e.1 place = false

theorem Vacant.at?_below (h : Vacant d p place) (hx : Disk.isBelow x place = true) :
    d.at? x = none := by
  obtain ⟨hpre, hne⟩ := Disk.isBelow_iff.mp hx
  have hnil : x ≠ [] := by
    rintro rfl
    exact hne (List.prefix_nil.mp hpre).symm
  rw [Disk.at?_of_ne d hnil, List.lookup_eq_none_iff]
  intro e he
  rw [bne_iff_ne]
  rintro rfl
  rw [h.vacant e he] at hx
  cases hx

/-- Below the base directory a disk has what a memory has, and it still has the directories it had
at first. -/
structure Mirrors (d₀ : Disk) (base : Path) (place : List String) (s : Memory) (d : Disk) :
    Prop where
  kept : ∀ x, d₀.at? x = some .directory → d.at? x = some .directory
  entries : ∀ p names, names ≠ [] → p.steps = base.steps ++ names.map .name →
    d.at? (place ++ names) = entryAt? s p

theorem below_of_ne (place : List String) (hn : names ≠ []) :
    Disk.isBelow (place ++ names) place = true := by
  rw [Disk.isBelow_iff]
  exact ⟨List.prefix_append _ _, by simpa using hn⟩

theorem mirrors_new (h : Vacant d base place) (reply : Confirmation) :
    Mirrors d base place (.new base reply) d := by
  refine ⟨fun x hx => hx, fun p names hn hp => ?_⟩
  have hdir : (Memory.new base reply).isDirectory p = false := by
    rw [Bool.eq_false_iff, Ne, Memory.isDirectory_iff]
    intro hmem
    have hsteps := (List.mem_singleton.mp hmem).symm.trans hp
    simp [hn] at hsteps
  rw [h.at?_below (below_of_ne place hn), (entryAt?_eq_none hdir).mpr rfl]

/-- What was there at first is not below the place, so that the changes there leave it alone. -/
theorem Vacant.outside (h : Vacant d₀ base place) (hn : names ≠ [])
    (hx : d₀.at? x = some .directory) : ¬ place ++ names <+: x := by
  intro hp
  have hbelow : Disk.isBelow x place = true := by
    refine Disk.isBelow_iff.mpr ⟨(List.prefix_append _ _).trans hp, ?_⟩
    rintro rfl
    have hlen := hp.length_le
    have := List.length_pos_of_ne_nil hn
    rw [List.length_append] at hlen
    omega
  rw [h.at?_below hbelow] at hx
  cases hx

section Mirrors

variable {xs : List String}

theorem same_iff_place (place : List String) (hp : p.steps = base.steps ++ names.map .name)
    (hq : q.steps = base.steps ++ xs.map .name) :
    p.same q = true ↔ place ++ xs = place ++ names := by
  rw [Path.same_iff, hp, hq, List.append_cancel_left_eq, List.append_cancel_left_eq, eq_comm]
  exact (List.map_injective_iff.mpr fun _ _ => Path.Step.name.inj).eq_iff

theorem isWithin_iff_place (place : List String) (hp : p.steps = base.steps ++ names.map .name)
    (hq : q.steps = base.steps ++ xs.map .name) :
    q.isWithin p = true ↔ place ++ names <+: place ++ xs := by
  rw [Path.isWithin_iff, hp, hq, List.prefix_append_right_inj, List.prefix_append_right_inj]
  exact List.prefix_map_iff_of_injective fun _ _ => Path.Step.name.inj

variable (h : Vacant d₀ base place) (hm : Mirrors d₀ base place s d) (hn : names ≠ [])
  (hp : p.steps = base.steps ++ names.map .name)
include h hm hn hp

/-- A new entry, where there is no directory yet. -/
theorem Mirrors.put {e : Host.Entry} {s' : Memory} (hs : ∀ q, entryAt? s' q =
      if p.same q then some e else entryAt? s q) :
    Mirrors d₀ base place s' (d.put (place ++ names) e) := by
  have hq : place ++ names ≠ [] := by simp [hn]
  refine ⟨fun x hx => ?_, fun q xs hxs hqs => ?_⟩
  · rw [Disk.at?_put d hq, if_neg]
    · exact hm.kept x hx
    · rintro rfl
      exact h.outside hn hx List.prefix_rfl
  · rw [Disk.at?_put d hq, hs, hm.entries q xs hxs hqs]
    exact if_congr (same_iff_place place hp hqs).symm rfl rfl

/-- A directory that is emptied, removed and made again. -/
theorem Mirrors.remake (hthere : s.isDirectory p = true) :
    Mirrors d₀ base place (carry s (.directory p))
      (((d.empty (place ++ names)).remove (place ++ names)).put (place ++ names) .directory) := by
  have hq : place ++ names ≠ [] := by simp [hn]
  have hbelow (x : List String) (hx : place ++ names ≠ x) :
      Disk.isBelow x (place ++ names) = true ↔ place ++ names <+: x := by
    rw [Disk.isBelow_iff]
    exact and_iff_left hx.symm
  refine ⟨fun x hx => ?_, fun q xs hxs hqs => ?_⟩
  · have hout := h.outside hn hx
    have hne : x ≠ place ++ names := by
      rintro rfl
      exact hout List.prefix_rfl
    rw [Disk.at?_put _ hq, if_neg hne, Disk.at?_remove _ hq, if_neg hne, Disk.at?_empty,
      if_neg (mt (hbelow x hne.symm).mp hout)]
    exact hm.kept x hx
  · rw [entryAt?_carry_directory, hthere, Bool.true_and, Disk.at?_put _ hq]
    by_cases hsame : place ++ xs = place ++ names
    · rw [if_pos hsame, if_pos ((same_iff_place place hp hqs).mpr hsame)]
    · rw [if_neg hsame, if_neg (mt (same_iff_place place hp hqs).mp hsame), Disk.at?_remove _ hq,
        if_neg hsame, Disk.at?_empty, hm.entries q xs hxs hqs]
      exact if_congr ((hbelow _ (Ne.symm hsame)).trans (isWithin_iff_place place hp hqs).symm) rfl rfl

end Mirrors

/-- The packages around an element have their directories when its turn comes. -/
theorem above_isDirectory (hd : Model.build sd = .ok m) (hn : ∀ e ∈ m.elements, Path.Plain e.name)
    (hturn : turn? m root o base k = some t) {xs : List String} (hne : xs ≠ [])
    (hxs : xs <+: namesAbove m root k) :
    (memoryBefore m root o base k).isDirectory (xs.foldl Path.join base) = true := by
  have ht := Model.build_isTree hd
  obtain ⟨hw, -⟩ := turn?_eq_some.mp hturn
  have hstanding := standing hd hn root o base k
  have hplace := Memory.isDirectory_iff.mp (place_isDirectory ht hn hturn hstanding.base_there)
  have hplain (x : String) (hx : x ∈ xs) : Path.Plain x :=
    forall_namesAbove ht hn hw x (hxs.subset hx)
  rw [Memory.isDirectory_iff, Path.steps_foldl_join base hplain]
  refine hstanding.rooted.directory_above (by simp [hne]) (List.prefix_append _ _) hplace ?_
  rw [steps_placeOf ht hn base hw]
  exact (List.prefix_append_right_inj _).mpr (hxs.map _)

/-- A path leads to a place below that of the base directory, also after changes at and below the
place. -/
structure Locates (d : Disk) (base : Path) (place : List String) (p : Path) (names : List String) :
    Prop where
  ne_nil : names ≠ []
  steps : p.steps = base.steps ++ names.map .name
  leads : ∀ d' : Disk, (∀ x, ¬ place ++ names <+: x → d'.at? x = d.at? x) →
    d'.Leads p (place ++ names)

theorem Mirrors.locates (hd : Model.build sd = .ok m) (hn : ∀ e ∈ m.elements, Path.Plain e.name)
    (hnul : ∀ e ∈ m.elements, Char.ofNat 0 ∉ e.name.toList) (h : Vacant d₀ base place)
    (hm : Mirrors d₀ base place (memoryBefore m root o base k) d)
    (hturn : turn? m root o base k = some t) (hp : t.path? = some p) (hfits : Disk.Fits p) :
    ∃ names, Locates d base place p names := by
  have ht := Model.build_isTree hd
  obtain ⟨hw, -⟩ := turn?_eq_some.mp hturn
  obtain ⟨name, hname, hjoin, hsteps⟩ := task_path ht hn hturn hp
  have hnames : namesAbove m root k ++ [name] ≠ [] := by simp
  refine ⟨namesAbove m root k ++ [name], hnames, hsteps, fun d' hd' => ?_⟩
  have hall : p = (namesAbove m root k ++ [name]).foldl Path.join base := by
    rw [hjoin, placeOf_eq, List.foldl_append]
    rfl
  have hplain := forall_names ht hn (fun h => Source.plain_fileName h.no_slash) hw hname
  have hfree := forall_names (P := fun x => Char.ofNat 0 ∉ x.toList) ht hnul Source.nul_fileName
    hw hname
  rw [hall] at hfits ⊢
  -- the path is walked through directories above the changes
  refine Disk.leads_below h.there hplain hfree hfits (fun x hx => ?_) fun xs hne hxs => ?_
  · rw [hd' x (h.outside hnames hx)]
    exact hm.kept x hx
  · have hshort : ¬ place ++ (namesAbove m root k ++ [name]) <+: place ++ xs := by
      intro hlong
      have := hlong.length_le
      have := hxs.length_le
      simp only [List.length_append, List.length_singleton] at *
      omega
    have hxplain (x : String) (hx : x ∈ xs) := hplain x (List.mem_append_left _ (hxs.subset hx))
    rw [hd' _ hshort, hm.entries _ xs hne (Path.steps_foldl_join base hxplain),
      entryAt?_eq_directory]
    exact above_isDirectory hd hn hturn hne hxs

/-- A host on a disk, with all prompts accepted. -/
def onDisk : Host Call.Answer Console := Console.host (.always .accepted)

section Tasks

variable {rest : List Task} {i : ElementId} (h : Vacant d₀ base place)
  (hm : Mirrors d₀ base place s c.disk) (hl : Locates c.disk base place p names)
include hm hl

theorem Mirrors.at? : c.disk.at? (place ++ names) = entryAt? s p :=
  hm.entries p names hl.ne_nil hl.steps

theorem Mirrors.found : onDisk.answer c (.directoryExists p) = (s.isDirectory p, c) := by
  show (c.disk.isDirectory p, c) = _
  rw [(hl.leads c.disk fun _ _ => rfl).isDirectory, hm.at? hl]
  congr 1
  rw [Bool.eq_iff_iff, beq_iff_eq, entryAt?_eq_directory]

theorem Mirrors.answer_createDirectory (hno : s.isDirectory p = false) :
    onDisk.answer c (.createDirectory p) =
      if (s.file? p).isSome then (.error (.system .entryExists), c)
      else (.ok (), { c with disk := c.disk.put (place ++ names) .directory }) := by
  show c.settle (c.disk.createDirectory p) = _
  rw [(hl.leads c.disk fun _ _ => rfl).createDirectory, hm.at? hl, entryAt?, hno]
  cases s.file? p <;> rfl

theorem Mirrors.answer_writeText (content : String) : onDisk.answer c (.writeText p content true) =
    if s.isDirectory p then (.error (.system .isDirectory), c)
    else (.ok (), { c with disk := c.disk.put (place ++ names) (.file content) }) := by
  show c.settle (c.disk.writeText p content) = _
  rw [(hl.leads c.disk fun _ _ => rfl).writeText, hm.at? hl]
  by_cases hp : s.isDirectory p = true
  · rw [if_pos (entryAt?_eq_directory.mpr hp), if_pos hp]
    rfl
  · rw [if_neg (mt entryAt?_eq_directory.mp hp), if_neg hp]
    rfl

include h

theorem Mirrors.writes (hno : s.isDirectory p = false) : ∃ r' c',
    GoesOn onDisk (perform m r (.file i p content :: rest)) c (perform m r' rest) c' ∧
      Mirrors d₀ base place (carry s (.file i p content)) c'.disk := by
  have hwrite := hm.answer_writeText hl content
  rw [if_neg (by simp [hno])] at hwrite
  exact ⟨r.wrote p, _, (GoesOn.notes _).trans ((GoesOn.call hwrite).trans .note),
    hm.put h hl.ne_nil hl.steps fun q => entryAt?_carry_file i hno⟩

theorem Mirrors.makes (hno : s.isDirectory p = false) (hf : s.file? p = none) : ∃ r' c',
    GoesOn onDisk (perform m r (.directory p :: rest)) c (perform m r' rest) c' ∧
      Mirrors d₀ base place (carry s (.directory p)) c'.disk := by
  have hfound := hm.found hl
  have hmade := hm.answer_createDirectory hl hno
  rw [hno] at hfound
  rw [hf] at hmade
  refine ⟨r.created p, _, (GoesOn.call hfound).trans (GoesOn.call hmade),
    hm.put h hl.ne_nil hl.steps fun q => ?_⟩
  rw [entryAt?_carry_directory, hno]
  rfl

theorem Mirrors.remakes (hthere : s.isDirectory p = true) : ∃ r' c',
    GoesOn onDisk (perform m r (.directory p :: rest)) c (perform m r' rest) c' ∧
      Mirrors d₀ base place (carry s (.directory p)) c'.disk := by
  let d₁ := c.disk.empty (place ++ names)
  let d₂ := d₁.remove (place ++ names)
  have hplace : place ++ names ≠ [] := by simp [hl.ne_nil]
  have hempty (x : List String) (hx : ¬ place ++ names <+: x) : d₁.at? x = c.disk.at? x := by
    rw [Disk.at?_empty, if_neg (mt (fun hb => (Disk.isBelow_iff.mp hb).1) hx)]
  have hremove (x : List String) (hx : ¬ place ++ names <+: x) : d₂.at? x = c.disk.at? x := by
    rw [Disk.at?_remove d₁ hplace, if_neg, hempty x hx]
    rintro rfl
    exact hx List.prefix_rfl
  have hfound := hm.found hl
  rw [hthere] at hfound
  have hasked : onDisk.answer c (.confirm (question p)) = (.accepted, c) := rfl
  have hcleared : onDisk.answer c (.deleteDirectory p) = (.ok (), { c with disk := d₂ }) := by
    have hat : c.disk.at? (place ++ names) = some .directory :=
      (hm.at? hl).trans (entryAt?_eq_directory.mpr hthere)
    show ((c.disk.removeTree p).1, { c with disk := (c.disk.removeTree p).2 }) = _
    rw [(hl.leads c.disk fun _ _ => rfl).removeTree hat (hl.leads d₁ hempty)]
  have hmade : onDisk.answer { c with disk := d₂ } (.createDirectory p) =
      (.ok (), { c with disk := d₂.put (place ++ names) .directory }) := by
    show Console.settle _ (d₂.createDirectory p) = _
    rw [(hl.leads d₂ hremove).createDirectory, Disk.at?_remove d₁ hplace, if_pos rfl]
    rfl
  exact ⟨r.created p, _, (GoesOn.call hfound).trans ((GoesOn.call hasked).trans
    (GoesOn.note.trans ((GoesOn.call hcleared).trans (GoesOn.call hmade)))),
    hm.remake h hl.ne_nil hl.steps hthere⟩

end Tasks

end Generate
end ClassScribe
