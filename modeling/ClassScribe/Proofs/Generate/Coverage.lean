import ClassScribe.Proofs.Generate.Require

/-! # What a run reports

On any host, a run that completes has done all its tasks. It reports the output path of every class
and interface and the directory of every package at or below its root, in the order of the
elements, and nothing else.
-/
namespace ClassScribe
open Host

namespace Model

variable {m : Model} {i : ElementId}

instance : DecidablePred m.IsPackage := fun i =>
  match he : m.element? i with
  | none => isFalse (by rintro ⟨e, -, h, -⟩; cases he.symm.trans h)
  | some e =>
    match hk : e.kind with
    | .package owned => isTrue ⟨e, owned, he, hk⟩
    | .classOf _ | .interfaceOf _ | .other _ => isFalse (by
        rintro ⟨e', owned, h, hk'⟩
        obtain rfl := Option.some.inj (he.symm.trans h)
        cases hk.symm.trans hk')

instance : DecidablePred m.IsClassifier := fun i =>
  match he : m.element? i with
  | none => isFalse (by rintro ⟨e, -, h, -⟩; cases he.symm.trans h)
  | some e =>
    match hk : e.kind.members? with
    | some ms => isTrue ⟨e, ms, he, hk⟩
    | none => isFalse (by
        rintro ⟨e', ms, h, hk'⟩
        obtain rfl := Option.some.inj (he.symm.trans h)
        cases hk.symm.trans hk')

end Model

namespace Generate

variable {m : Model} {root i : ElementId} {o : Options} {base : Path} {r : Report}

theorem file?_taskOf? (m : Model) (root : ElementId) (o : Options) (base : Path) (i : ElementId) :
    (taskOf? m root o base i).bind Task.file? =
      if m.IsClassifier i then some (outputPath m root base i) else none := by
  by_cases hi : m.IsClassifier i
  · rw [if_pos hi]
    obtain ⟨e, ms, he, hms⟩ := hi
    cases hk : e.kind <;>
      simp_all [taskOf?, ElementKind.members?, Source.render?, Source.blocks?, Task.file?]
  · rw [if_neg hi]
    cases he : m.element? i with
    | none => simp [taskOf?, he]
    | some e =>
      cases hk : e.kind with
      | package owned => simp [taskOf?, he, hk, Task.file?]
      | other label => simp [taskOf?, he, hk, Task.file?]
      | classOf ms => exact absurd ⟨e, ms, he, by rw [hk]; rfl⟩ hi
      | interfaceOf ms => exact absurd ⟨e, ms, he, by rw [hk]; rfl⟩ hi

theorem directory?_taskOf? (m : Model) (root : ElementId) (o : Options) (base : Path)
    (i : ElementId) : (taskOf? m root o base i).bind Task.directory? =
      if m.IsPackage i then some (directoryPath m root base i) else none := by
  by_cases hi : m.IsPackage i
  · rw [if_pos hi, taskOf?_directory.mpr ⟨hi, rfl⟩]
    rfl
  · rw [if_neg hi, Option.bind_eq_none_iff]
    intro t ht
    cases t with
    | directory p => exact absurd (taskOf?_directory.mp ht).1 hi
    | file k p content => rfl
    | skip name label => rfl

theorem filterMap_ite {α β : Type} (p : α → Prop) [DecidablePred p] (f : α → β) (xs : List α) :
    xs.filterMap (fun x => if p x then some (f x) else none) = (xs.filter (p ·)).map f := by
  induction xs with
  | nil => rfl
  | cons x xs ih => by_cases hx : p x <;> simp [hx, ih]

/-- A report of all classes and interfaces and of all packages at or below an element, each once and
in the order of their numbers. -/
structure Covers (m : Model) (root : ElementId) (base : Path) (r : Report) : Prop where
  files : r.files = ((m.subtree root).filter (m.IsClassifier ·)).map (outputPath m root base)
  directories :
    r.directories = ((m.subtree root).filter (m.IsPackage ·)).map (directoryPath m root base)
  /-- In a run from a package all is put below the directory that the package becomes, in the
  directories of the packages between. -/
  of_package : m.IsPackage root →
    directoryPath m root base root = base.join (m.name root) ∧
    (∀ p, p ≠ root → directoryPath m root base p =
      ((m.segments p root).foldl Path.join (base.join (m.name root))).join (m.name p)) ∧
    ∀ i, m.IsClassifier i → outputPath m root base i =
      ((m.segments i root).foldl Path.join (base.join (m.name root))).join
        (Text.stem (m.name i) ++ ".rb")
  of_classifier : m.IsClassifier root →
    r.files = [base.join (Text.stem (m.name root) ++ ".rb")] ∧ r.directories = []
  of_other : ¬ m.IsPackage root → ¬ m.IsClassifier root → r.files = [] ∧ r.directories = []

theorem outputPath_eq (m : Model) (root : ElementId) (base : Path) (i : ElementId) :
    outputPath m root base i = (placeOf m root base i).join (Text.stem (m.name i) ++ ".rb") := by
  have hdot : "." ++ Source.extension = ".rb" := by decide
  rw [outputPath, Source.fileName, String.append_assoc, hdot]

theorem files_of_tasks (ht : m.IsTree) (root : ElementId) (o : Options) (base : Path) :
    (tasks m root o base).filterMap Task.file? =
      ((m.subtree root).filter (m.IsClassifier ·)).map (outputPath m root base) := by
  rw [tasks_eq ht, List.filterMap_filterMap, ← filterMap_ite]
  exact List.filterMap_congr fun i _ => file?_taskOf? m root o base i

theorem directories_of_tasks (ht : m.IsTree) (root : ElementId) (o : Options) (base : Path) :
    (tasks m root o base).filterMap Task.directory? =
      ((m.subtree root).filter (m.IsPackage ·)).map (directoryPath m root base) := by
  rw [tasks_eq ht, List.filterMap_filterMap, ← filterMap_ite]
  exact List.filterMap_congr fun i _ => directory?_taskOf? m root o base i

/-- Nothing is below an element that is no package. -/
theorem filterMap_of_leaf {α : Type} (ht : m.IsTree) (hp : ¬ m.IsPackage root) (o : Options)
    (base : Path) (f : Task → Option α) :
    (tasks m root o base).filterMap f = ((taskOf? m root o base root).bind f).toList := by
  rw [tasks_of_leaf ht hp]
  cases taskOf? m root o base root with
  | none => rfl
  | some t => cases h : f t <;> simp [h]

/-- A run that completes covers the subtree of its root, whatever the host. -/
theorem generate_covers {d : Snapshot.Document} (hd : Model.build d = .ok m) {σ : Type}
    {h : Host Call.Answer σ} {s : σ}
    (hr : ((generate m root o base).run h s).result = .completed r) : Covers m root base r := by
  have ht := Model.build_isTree hd
  have hdirectories : r.directories = (tasks m root o base).filterMap Task.directory? :=
    congrArg Report.directories (generate_reports hr)
  have hfiles : r.files = (tasks m root o base).filterMap Task.file? :=
    congrArg Report.files (generate_reports hr)
  exact {
    files := hfiles.trans (files_of_tasks ht root o base)
    directories := hdirectories.trans (directories_of_tasks ht root o base)
    of_package := by
      intro hp
      refine ⟨?_, ?_, ?_⟩
      · rw [directoryPath, placeOf_root]
      · intro p hne
        rw [directoryPath, placeOf, if_neg hne]
      · intro i hi
        have hne : i ≠ root := by
          rintro rfl
          exact hi.not_isPackage hp
        rw [outputPath_eq, placeOf, if_neg hne]
    of_classifier := by
      intro hc
      have hp := hc.not_isPackage
      constructor
      · rw [hfiles, filterMap_of_leaf ht hp, file?_taskOf?, if_pos hc, outputPath_eq, placeOf_root]
        rfl
      · rw [hdirectories, filterMap_of_leaf ht hp, directory?_taskOf?, if_neg hp]
        rfl
    of_other := by
      intro hp hc
      constructor
      · rw [hfiles, filterMap_of_leaf ht hp, file?_taskOf?, if_neg hc]
        rfl
      · rw [hdirectories, filterMap_of_leaf ht hp, directory?_taskOf?, if_neg hp]
        rfl }

def nestedRun : Run Call.Answer Memory Outcome :=
  (generate nestedModel Model.root {} ⟨"out"⟩).run Memory.host (.new ⟨"out"⟩ .accepted)

theorem nested_covers : ∃ r, nestedRun.result = .completed r ∧
    Covers nestedModel Model.root ⟨"out"⟩ r ∧ r.files.map (·.text) =
      ["out/Shop/cart.rb", "out/Shop/Billing/invoice.rb", "out/Shop/Billing/Tax/tax_rate.rb",
        "out/Shop/Shipping/parcel.rb"] := by
  have hd : Model.build nested = .ok nestedModel := rfl
  have hcompleted : ∃ r, nestedRun.result = .completed r ∧ r.files.map (·.text) =
      ["out/Shop/cart.rb", "out/Shop/Billing/invoice.rb", "out/Shop/Billing/Tax/tax_rate.rb",
        "out/Shop/Shipping/parcel.rb"] := by
    apply Outcome.completed_of_files
    decide +kernel
  obtain ⟨r, hr, hfiles⟩ := hcompleted
  exact ⟨r, hr, generate_covers hd hr, hfiles⟩

end Generate
end ClassScribe
