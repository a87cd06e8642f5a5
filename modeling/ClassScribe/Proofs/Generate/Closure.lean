import ClassScribe.Proofs.Generate.Require
import ClassScribe.Proofs.Model.Nodes
import ClassScribe.Proofs.Source.Dependencies
import ClassScribe.Proofs.Text.Lines

/-! # Required files that are written

A class requires the files of everything it depends on, but a run writes files for classes and
interfaces at or below its root only. A require line leads to a file of the run exactly when one of
these has the packages and the file name that the line says.
-/
namespace ClassScribe
open Host

theorem Model.build_id {d : Snapshot.Document} {m : Model} (h : build d = .ok m) {i : ElementId}
    {e : Element} (he : m.element? i = some e) : e.id = i := by
  rw [element?_eq, build_elements h, List.getElem?_map] at he
  obtain ⟨x, hx, rfl⟩ := Option.map_eq_some_iff.mp he
  exact Snapshot.id_of_getElem? hx

namespace Generate

variable {m : Model} {root i j t : ElementId} {o : Options} {base p q : Path} {content : String}

theorem isClassifier_of_render {f : Source.File} (h : Source.render? m root o i = some f) :
    m.IsClassifier i := by
  cases he : m.element? i with
  | none => simp [Source.render?, he] at h
  | some e => cases hk : e.kind <;> simp_all [Source.render?, Source.blocks?, Model.IsClassifier,
      ElementKind.members?]

theorem segments_plain (ht : m.IsTree) (hn : ∀ e ∈ m.elements, Path.Plain e.name)
    (root t : ElementId) : ∀ s ∈ m.segments t root, Path.Plain s := by
  by_cases hw : m.isWithin t root = true
  · exact forall_segments ht (fun k hk _ _ => package_of_names hn hk) hw
  · have hout : root ∉ m.lineage t := fun h => hw (Model.isWithin_iff.mpr (.inr h))
    intro s hs
    rw [Model.segments, Model.ancestors, if_neg (by simpa using hout)] at hs
    cases hs

theorem fileName_plain (hn : ∀ e ∈ m.elements, Path.Plain e.name) (t : ElementId) :
    Path.Plain (Source.fileName m t) := by
  refine Source.plain_fileName ?_
  cases he : m.element? t with
  | none => simp [Model.name, he]
  | some e => exact name_of_element he ▸ (hn e (Array.mem_of_getElem? he)).no_slash

/-- All files of a run lie at one place or below, under the packages between the root and their
elements. -/
theorem outputs_from_top (ht : m.IsTree) (hn : ∀ e ∈ m.elements, Path.Plain e.name)
    (root : ElementId) (base : Path) : ∃ top : List Path.Step, ∀ i, m.IsClassifier i →
      m.isWithin i root = true → (outputPath m root base i).steps =
        top ++ (m.segments i root ++ [Source.fileName m i]).map .name := by
  obtain ⟨top, htop⟩ := places_from_top ht root base
  refine ⟨top.steps, fun i hi hw => ?_⟩
  rw [outputPath, Path.steps_join_plain _ (fileName_plain hn i), htop i hi hw,
    Path.steps_foldl_join top (segments_plain ht hn root i), List.map_append, List.append_assoc]
  rfl

/-- Where a require path leads to from the directory of a file of the run. -/
theorem required_place (ht : m.IsTree) (hn : ∀ e ∈ m.elements, Path.Plain e.name)
    {top : List Path.Step}
    (hq : q.steps = top ++ (m.segments i root ++ [Source.fileName m i]).map .name)
    (t : ElementId) :
    (⟨Source.requirePath m root i t⟩ : Path).steps.foldl Path.follow q.steps.dropLast =
      top ++ (m.segments t root ++ [Source.fileName m t]).map .name := by
  obtain ⟨shared, back, ahead, hback, hahead, hrequire⟩ :=
    Source.steps_requirePath i (segments_plain ht hn root t) (fileName_plain hn t)
  have hdir : q.steps.dropLast = top ++ (shared ++ back).map .name := by
    rw [hq, List.map_append, ← List.append_assoc, List.map_singleton, List.dropLast_concat, hback]
  rw [hdir, hrequire, Path.foldl_follow_across, hahead, List.append_assoc]

theorem mem_files (ht : m.IsTree) {r : Report}
    (hr : r.files = (tasks m root o base).filterMap Task.file?) : p ∈ r.files ↔
      ∃ j, m.IsClassifier j ∧ m.isWithin j root = true ∧ p = outputPath m root base j := by
  have hwrites : p ∈ r.files ↔ ∃ j, Writes m root o base j p := by
    rw [hr, List.mem_filterMap]
    constructor
    · rintro ⟨t, htm, hp⟩
      cases t with
      | file j q content =>
        cases hp
        exact ⟨j, content, htm⟩
      | directory q => cases hp
      | skip name label => cases hp
    · rintro ⟨j, content, h⟩
      exact ⟨_, h, rfl⟩
  rw [hwrites]
  refine exists_congr fun j => ⟨fun h => ?_, fun ⟨hj, h⟩ => (writes_iff ht hj).mpr h⟩
  obtain ⟨content, hmem⟩ := h
  rw [tasks_eq ht] at hmem
  obtain ⟨k, hk, htask⟩ := List.mem_filterMap.mp hmem
  obtain ⟨rfl, rfl, f, hf, -⟩ := taskOf?_file.mp htask
  exact ⟨isClassifier_of_render hf, (Model.mem_subtree.mp hk).2, rfl⟩

/-- The file of a class has a require line for each of its dependencies in front of the definition,
and such a line leads to a file of the run if and only if a class or interface at or below the root
has the packages and the file name of the dependency, as the dependency has if it is one itself. -/
theorem requires_written {d : Snapshot.Document} (hd : Model.build d = .ok m)
    (hn : ∀ e ∈ m.elements, Path.Plain e.name) {s : Memory} {r : Report}
    (h : ((generate m root o base).run Memory.host s).result = .completed r) {e : Element}
    {ms : Members} (he : m.element? i = some e) (hk : e.kind = .classOf ms)
    (ha : e.isAnnotation = false) (hf : .file i q content ∈ tasks m root o base) :
    q ∈ r.files ∧
    content = "\n\n".intercalate
      ((m.dependencies i).map (fun ts => "\n".intercalate (ts.map fun t =>
        "require_relative '" ++ Source.requirePath m root i t ++ "'")) ++
        [Source.print o (Source.classDefinition m root o e (Source.ClassFacts.of m root i ms))]) ∧
    ∀ t ∈ (m.dependencies i).flatten,
      (∃ p ∈ r.files, p.steps = (⟨Source.requirePath m root i t⟩ : Path).steps.foldl Path.follow
        q.steps.dropLast) ↔
      ∃ j, m.IsClassifier j ∧ m.isWithin j root = true ∧
        m.segments j root = m.segments t root ∧ Source.fileName m j = Source.fileName m t := by
  have ht := Model.build_isTree hd
  have hfiles : r.files = _ := congrArg Report.files (generate_reports h)
  have hclass : m.IsClassifier i := ⟨e, ms, he, by rw [hk]; rfl⟩
  obtain ⟨hw, hq⟩ := (writes_iff ht hclass).mp ⟨content, hf⟩
  refine ⟨(mem_files ht hfiles).mpr ⟨i, hclass, hw, hq⟩, ?_, fun t _ => ?_⟩
  · rw [tasks_eq ht] at hf
    obtain ⟨k, -, htask⟩ := List.mem_filterMap.mp hf
    obtain ⟨rfl, -, f, hrender, rfl⟩ := taskOf?_file.mp htask
    obtain rfl := Option.some.inj ((Source.render?_class m root o he hk ha).symm.trans hrender)
    have hid : e.id = k := Model.build_id hd he
    rw [Source.print_classFile, hid]
  · obtain ⟨top, htop⟩ := outputs_from_top ht hn root base
    have hsteps := htop i hclass hw
    rw [required_place ht hn (q := q) (by rw [hq]; exact hsteps) t]
    constructor
    · rintro ⟨p, hp, he⟩
      obtain ⟨j, hj, hjr, hpj⟩ := (mem_files ht hfiles).mp hp
      rw [hpj, htop j hj hjr] at he
      have hnames := List.map_injective_iff.mpr (fun _ _ => Path.Step.name.inj)
        (List.append_cancel_left he)
      obtain ⟨hsegments, hname⟩ := List.append_singleton_inj.mp hnames
      exact ⟨j, hj, hjr, hsegments, hname⟩
    · rintro ⟨j, hj, hjr, hsegments, hname⟩
      refine ⟨_, (mem_files ht hfiles).mpr ⟨j, hj, hjr, rfl⟩, ?_⟩
      rw [htop j hj hjr, hsegments, hname]

/-- A class that holds a class and an enumeration, which has no file. -/
def orders : Snapshot.Document where
  name := "Shop"
  ownedElements := [
    { kind := "class", name := "Order" },
    { kind := "class", name := "Person" },
    { kind := "enumeration", name := "Status" }]
  relationships := [
    .association "" ⟨"Order", false⟩ ⟨"Person", true⟩,
    .association "" ⟨"Order", false⟩ ⟨"Status", true⟩]

def ordersModel : Model :=
  ⟨(orders.entries.map (·.element)).toArray, [.association ⟨"", ⟨1, false⟩, ⟨2, true⟩⟩,
    .association ⟨"", ⟨1, false⟩, ⟨3, true⟩⟩]⟩

def ordersOptions : Options := { initializer := false, textMethod := false }

def ordersRun : Run Call.Answer Memory Outcome :=
  (generate ordersModel Model.root ordersOptions ⟨"out"⟩).run Memory.host (.new ⟨"out"⟩ .accepted)

theorem orders_completed : ∃ r, ordersRun.result = .completed r ∧
    r.files.map (·.text) = ["out/Shop/order.rb", "out/Shop/person.rb"] := by
  apply Outcome.completed_of_files
  decide +kernel

theorem orders_plain : ∀ e ∈ ordersModel.elements, Path.Plain e.name := by decide +kernel

theorem orders_build : Model.build orders = .ok ordersModel := rfl

def ordersText : String := "\n".intercalate
  ["require_relative 'person.rb'", "require_relative 'status.rb'", "", "class Order",
    "  attr_accessor :person, :status", "end"]

theorem status_line : "require_relative '" ++ "status.rb" ++ "'" ∈ Text.lines ordersText := by
  have hline : "require_relative '" ++ "status.rb" ++ "'" = "require_relative 'status.rb'" := by
    decide
  rw [ordersText, Text.lines_intercalate (List.cons_ne_nil _ _), hline, List.mem_flatMap]
  refine ⟨"require_relative 'status.rb'", by simp, ?_⟩
  rw [Text.lines_unbroken (by decide)]
  exact List.mem_singleton_self _

theorem orders_task : .file 1 ⟨"out/Shop/order.rb"⟩ ordersText ∈
    tasks ordersModel Model.root ordersOptions ⟨"out"⟩ := by
  have hrender : Source.render? ordersModel Model.root ordersOptions 1 =
      some ⟨"order.rb", ordersText⟩ := by
    decide +kernel
  have hpath : (outputPath ordersModel Model.root ⟨"out"⟩ 1).text = "out/Shop/order.rb" := by
    decide +kernel
  rw [tasks_eq (Model.build_isTree orders_build)]
  exact List.mem_filterMap.mpr ⟨1, by decide +kernel,
    taskOf?_file.mpr ⟨rfl, congrArg Path.mk hpath, _, hrender, rfl⟩⟩

theorem orders_required : ∃ r, ordersRun.result = .completed r ∧
    (∃ p ∈ r.files, p.steps =
      (⟨Source.requirePath ordersModel Model.root 1 2⟩ : Path).steps.foldl Path.follow
        (⟨"out/Shop/order.rb"⟩ : Path).steps.dropLast) ∧
    ¬ ∃ p ∈ r.files, p.steps =
      (⟨Source.requirePath ordersModel Model.root 1 3⟩ : Path).steps.foldl Path.follow
        (⟨"out/Shop/order.rb"⟩ : Path).steps.dropLast := by
  obtain ⟨r, hr, -⟩ := orders_completed
  obtain ⟨-, -, hiff⟩ := requires_written orders_build orders_plain hr (e := ordersModel.elements[1])
    rfl rfl rfl orders_task
  refine ⟨r, hr, (hiff 2 (by decide +kernel)).mpr ⟨2, ⟨ordersModel.elements[2], _, rfl, rfl⟩,
    by decide +kernel, rfl, rfl⟩, fun h => ?_⟩
  obtain ⟨j, ⟨e, ms, he, hms⟩, -, -, hname⟩ := (hiff 3 (by decide +kernel)).mp h
  have hj : j < 4 := (Array.getElem?_eq_some_iff.mp he).1
  obtain rfl | rfl | rfl | rfl : j = 0 ∨ j = 1 ∨ j = 2 ∨ j = 3 := by lia
  · cases he
    cases hms
  · exact absurd hname (by decide +kernel)
  · exact absurd hname (by decide +kernel)
  · cases he
    cases hms

/-- Not every require line leads to a file of the run: an enumeration has none. -/
theorem requires_not_closed : ¬ ∀ (d : Snapshot.Document) (m : Model) (root : ElementId)
    (o : Options) (base : Path) (s : Memory) (r : Report), Model.build d = .ok m →
    (∀ e ∈ m.elements, Path.Plain e.name) →
    ((generate m root o base).run Memory.host s).result = .completed r →
    ∀ i q content e ms, m.element? i = some e → e.kind = .classOf ms → e.isAnnotation = false →
      .file i q content ∈ tasks m root o base →
      ∀ p, "require_relative '" ++ p ++ "'" ∈ Text.lines content →
        ∃ p' ∈ r.files, p'.steps = (⟨p⟩ : Path).steps.foldl Path.follow q.steps.dropLast := by
  intro hall
  obtain ⟨r, hr, hfiles⟩ := orders_completed
  obtain ⟨p, hp, hsteps⟩ := hall orders ordersModel Model.root ordersOptions ⟨"out"⟩ _ r
    orders_build orders_plain hr 1 _ ordersText ordersModel.elements[1] _ rfl rfl rfl orders_task
    "status.rb" status_line
  have htext : p.text ∈ ["out/Shop/order.rb", "out/Shop/person.rb"] :=
    hfiles ▸ List.mem_map_of_mem hp
  have hwrong : ∀ text ∈ ["out/Shop/order.rb", "out/Shop/person.rb"], (⟨text⟩ : Path).steps ≠
      (⟨"status.rb"⟩ : Path).steps.foldl Path.follow
        (⟨"out/Shop/order.rb"⟩ : Path).steps.dropLast := by
    decide +kernel
  exact hwrong p.text htext hsteps

end Generate
end ClassScribe
