import ClassScribe.Proofs.Generate.Last
import ClassScribe.Proofs.Generate.Names
import ClassScribe.Proofs.Path.Follow

/-! # The way from one generated file to another

A run goes down to the place of every file, and a require path goes up from one place to the last
package it shares with another and down from there. Both tell the same packages, so following the
require path from the directory of the one file leads to the path that the other is written to.
-/
namespace ClassScribe

/-- A class, an annotation or an interface. -/
def Model.IsClassifier (m : Model) (i : ElementId) : Prop :=
  ∃ e ms, m.element? i = some e ∧ e.kind.members? = some ms

theorem Model.IsClassifier.not_isPackage {m : Model} {i : ElementId} (h : m.IsClassifier i) :
    ¬ m.IsPackage i := by
  rintro ⟨e, owned, he, hk⟩
  obtain ⟨e', ms, he', hms⟩ := h
  obtain rfl := Option.some.inj (he.symm.trans he')
  rw [hk] at hms
  cases hms

namespace Source

/-- What two lists share stands in front of both, so neither the length that is taken away nor the
part that is dropped is more than a list has. -/
theorem exists_shared (xs ys : List String) : ∃ shared back ahead,
    xs = shared ++ back ∧ ys = shared ++ ahead ∧ sharedCount xs ys = shared.length := by
  fun_induction sharedCount xs ys with
  | case1 xs a ys ih =>
    obtain ⟨shared, back, ahead, hxs, hys, hcount⟩ := ih
    exact ⟨a :: shared, back, ahead, congrArg (a :: ·) hxs, congrArg (a :: ·) hys,
      congrArg (· + 1) hcount⟩
  | case2 a xs b ys => exact ⟨[], a :: xs, b :: ys, rfl, rfl, rfl⟩
  | case3 xs ys => exact ⟨[], xs, ys, rfl, rfl, rfl⟩

variable {m : Model} {root target : ElementId}

/-- A require path goes up through the packages that only its source is in, and down through those
that only its target is in. -/
theorem steps_requirePath (source : ElementId)
    (hthere : ∀ s ∈ m.segments target root, Path.Plain s)
    (hfile : Path.Plain (fileName m target)) : ∃ shared back ahead,
      m.segments source root = shared ++ back ∧ m.segments target root = shared ++ ahead ∧
      (⟨requirePath m root source target⟩ : Path).steps =
        List.replicate back.length .up ++ (ahead ++ [fileName m target]).map .name := by
  obtain ⟨shared, back, ahead, hhere, hahead, hcount⟩ :=
    exists_shared (m.segments source root) (m.segments target root)
  have hsteps : requireSteps m root source target =
      List.replicate back.length ".." ++ (ahead ++ [fileName m target]) := by
    unfold requireSteps
    simp only [hcount]
    rw [hhere, hahead, List.length_append, Nat.add_sub_cancel_left, List.drop_left,
      List.append_assoc]
  have hdown : ∀ s ∈ ahead ++ [fileName m target], Path.Plain s := by
    intro s hs
    rcases List.mem_append.mp hs with hs | hs
    · exact hthere s (hahead ▸ List.mem_append_right shared hs)
    · exact List.mem_singleton.mp hs ▸ hfile
  have hnames : ∀ s ∈ requireSteps m root source target,
      Path.isIdle s = false ∧ '/' ∉ s.toList := by
    intro s hs
    rw [hsteps] at hs
    rcases List.mem_append.mp hs with hs | hs
    · rw [List.eq_of_mem_replicate hs]
      decide
    · exact ⟨(hdown s hs).kept, (hdown s hs).no_slash⟩
  refine ⟨shared, back, ahead, hhere, hahead, ?_⟩
  rw [requirePath, Path.steps_of_names hnames (by simp [hsteps]), hsteps, List.map_append,
    List.map_replicate]
  congr 1
  exact List.map_congr_left fun s hs => (hdown s hs).step

end Source

namespace Generate

variable {m : Model} {root i source target : ElementId} {o : Options} {base dir p : Path}

/-- On its way down from `root` a run comes to an element with a directory for its output. -/
inductive Visits (m : Model) (root : ElementId) (base : Path) : ElementId → Path → Prop
  | root : Visits m root base root base
  | child {i c dir} : Visits m root base i dir → c ∈ m.children i →
      Visits m root base c (dir.join (m.name i))

/-- The file of an element is written to a path. -/
def Writes (m : Model) (root : ElementId) (o : Options) (base : Path) (i : ElementId) (p : Path) :
    Prop :=
  ∃ content, .file i p content ∈ tasks m root o base

theorem visits_iff (ht : m.IsTree) :
    Visits m root base i dir ↔ m.isWithin i root = true ∧ dir = placeOf m root base i := by
  constructor
  · intro h
    induction h with
    | root => exact ⟨m.isWithin_self root, placeOf_root.symm⟩
    | child _ hc ih =>
      obtain ⟨hi, rfl⟩ := ih
      have hp := ht.mem_children.mp hc
      exact ⟨(Model.isWithin_step hp).mpr (.inr hi), (placeOf_child hp hi).symm⟩
  · rintro ⟨hi, rfl⟩
    induction i using Nat.strongRecOn with
    | ind i ih =>
      rcases placeOf_cases base hi with rfl | ⟨p, hp, hpr, hplace⟩
      · rw [placeOf_root]
        exact .root
      · rw [hplace]
        exact .child (ih p (Model.parent?_lt hp) hpr) (ht.mem_children.mpr hp)

theorem writes_iff (ht : m.IsTree) (hi : m.IsClassifier i) : Writes m root o base i p ↔
    m.isWithin i root = true ∧ p = (placeOf m root base i).join (Source.fileName m i) := by
  rw [Writes, tasks_eq ht]
  constructor
  · rintro ⟨content, h⟩
    obtain ⟨j, hj, htask⟩ := List.mem_filterMap.mp h
    obtain ⟨rfl, rfl, -⟩ := taskOf?_file.mp htask
    exact ⟨(Model.mem_subtree.mp hj).2, rfl⟩
  · rintro ⟨hw, hp⟩
    rw [hp]
    obtain ⟨e, ms, he, hms⟩ := hi
    have hlt : i < m.elements.size := (Array.getElem?_eq_some_iff.mp he).1
    obtain ⟨f, hf⟩ := Source.exists_render? he hms root o
    refine ⟨f.content, List.mem_filterMap.mpr ⟨i, Model.mem_subtree.mpr ⟨hlt, hw⟩, ?_⟩⟩
    exact taskOf?_file.mpr ⟨rfl, rfl, f, hf, rfl⟩

/-- The places of all classifiers are reached from one place, by the names of the packages between
the root and them. -/
theorem places_from_top (ht : m.IsTree) (root : ElementId) (base : Path) :
    ∃ top : Path, ∀ i, m.IsClassifier i → m.isWithin i root = true →
      placeOf m root base i = (m.segments i root).foldl Path.join top := by
  by_cases hr : m.IsPackage root
  · refine ⟨base.join (m.name root), fun i hi _ => if_neg ?_⟩
    rintro rfl
    exact hi.not_isPackage hr
  · refine ⟨base, fun i _ hw => ?_⟩
    have hi : i = root := by
      by_contra hne
      exact hr (ht.isPackage_of_within hw hne)
    rw [hi, placeOf_root, Model.segments, Model.ancestors_self]
    rfl

theorem forall_segments {P : String → Prop} (ht : m.IsTree)
    (hp : ∀ k, m.IsPackage k → m.isWithin k root = true → k ≠ root → P (m.name k))
    (hi : m.isWithin i root = true) : ∀ s ∈ m.segments i root, P s := by
  intro s hs
  obtain ⟨k, hk, rfl⟩ := List.mem_map.mp hs
  obtain ⟨hpk, hkr, hne⟩ := ht.mem_ancestors hi hk
  exact hp k hpk hkr hne

/-- From the directory that a run puts the file of one classifier in, the require path to another
leads to the path that the run writes the file of that one to. Only packages below the root and the
target need plain names; if the source has one too, its own file is in that directory. -/
theorem require_leads {sd : Snapshot.Document} (hd : Model.build sd = .ok m)
    (hs : m.IsClassifier source) (ht : m.IsClassifier target)
    (hsr : m.isWithin source root = true) (htr : m.isWithin target root = true)
    (hp : ∀ k, m.IsPackage k → m.isWithin k root = true → k ≠ root → Path.Plain (m.name k))
    (hn : Path.Plain (m.name target)) (o : Options) (base : Path) :
    (∃ dir, Visits m root base source dir ∧
      Writes m root o base source (dir.join (Source.fileName m source))) ∧
    (∃ p, Writes m root o base target p) ∧
    ∀ dir, Visits m root base source dir →
      (∀ p, Writes m root o base target p →
        p.steps = (⟨Source.requirePath m root source target⟩ : Path).steps.foldl Path.follow
          dir.steps) ∧
      ∀ q, Writes m root o base source q → Path.Plain (m.name source) →
        q.steps.dropLast = dir.steps := by
  have htree := Model.build_isTree hd
  have hfile : Path.Plain (Source.fileName m target) := Source.plain_fileName hn.no_slash
  refine ⟨⟨_, (visits_iff htree).mpr ⟨hsr, rfl⟩, (writes_iff htree hs).mpr ⟨hsr, rfl⟩⟩,
    ⟨_, (writes_iff htree ht).mpr ⟨htr, rfl⟩⟩, fun dir hdir => ⟨?_, ?_⟩⟩
  · intro p hw
    obtain ⟨-, hplace⟩ := (visits_iff htree).mp hdir
    obtain ⟨-, hpath⟩ := (writes_iff htree ht).mp hw
    have hhere := forall_segments htree hp hsr
    have hthere := forall_segments htree hp htr
    obtain ⟨top, htop⟩ := places_from_top htree root base
    obtain ⟨shared, back, ahead, hback, hahead, hrequire⟩ :=
      Source.steps_requirePath source hthere hfile
    rw [hpath, Path.steps_join_plain _ hfile, htop target ht htr, Path.steps_foldl_join top hthere,
      hplace, htop source hs hsr, Path.steps_foldl_join top hhere, hrequire, hback, hahead,
      Path.foldl_follow_across]
    simp
  · intro q hw hplain
    obtain ⟨-, hplace⟩ := (visits_iff htree).mp hdir
    obtain ⟨-, hpath⟩ := (writes_iff htree hs).mp hw
    rw [hpath, hplace, Path.steps_join_plain _ (Source.plain_fileName hplain.no_slash),
      List.dropLast_concat]

/-- Packages in packages, and beside them. -/
def nested : Snapshot.Document where
  name := "Shop"
  ownedElements := [
    { kind := "class", name := "Cart" },
    { kind := "package", name := "Billing", ownedElements := [
      { kind := "class", name := "Invoice" },
      { kind := "package", name := "Tax", ownedElements := [{ kind := "class", name := "TaxRate" }] }] },
    { kind := "package", name := "Shipping", ownedElements := [
      { kind := "interface", name := "Parcel" }] }]

def nestedModel : Model := ⟨(nested.entries.map (·.element)).toArray, []⟩

theorem nested_leads : Source.requirePath nestedModel Model.root 5 7 = "../../Shipping/parcel.rb" ∧
    ∃ p, Writes nestedModel Model.root {} ⟨"../out"⟩ 7 p ∧
      p.steps = (⟨"../../Shipping/parcel.rb"⟩ : Path).steps.foldl Path.follow
        (⟨"../out/Shop/Billing/Tax"⟩ : Path).steps := by
  have hrequire : Source.requirePath nestedModel Model.root 5 7 = "../../Shipping/parcel.rb" := by
    decide +kernel
  have hd : Model.build nested = .ok nestedModel := rfl
  have hplain : ∀ e ∈ nestedModel.elements, Path.Plain e.name := by decide +kernel
  have hp (k : ElementId) (hk : nestedModel.IsPackage k)
      (_ : nestedModel.isWithin k Model.root = true) (_ : k ≠ Model.root) :
      Path.Plain (nestedModel.name k) := by
    obtain ⟨e, owned, he, -⟩ := hk
    exact name_of_element he ▸ hplain e (Array.mem_of_getElem? he)
  have hdir : Visits nestedModel Model.root ⟨"../out"⟩ 5 ⟨"../out/Shop/Billing/Tax"⟩ :=
    .child (.child (.child .root (by decide +kernel : 2 ∈ _)) (by decide +kernel : 4 ∈ _))
      (by decide +kernel : 5 ∈ _)
  have hs : nestedModel.IsClassifier 5 := ⟨_, _, rfl, rfl⟩
  have ht : nestedModel.IsClassifier 7 := ⟨_, _, rfl, rfl⟩
  obtain ⟨-, ⟨p, hw⟩, hleads⟩ := require_leads hd hs ht (by decide +kernel) (by decide +kernel) hp
    (by decide +kernel) {} ⟨"../out"⟩
  refine ⟨hrequire, p, hw, ?_⟩
  rw [← hrequire]
  exact (hleads _ hdir).1 p hw

end Generate
end ClassScribe
