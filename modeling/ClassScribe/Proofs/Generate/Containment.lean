import ClassScribe.Proofs.Generate.Conduct
import ClassScribe.Proofs.Generate.Walk
import ClassScribe.Proofs.Path.Steps

/-! # Containment

The names of elements are joined to the base path as they are written, and nothing examines them.
So a run stays strictly inside the base directory exactly when its names only lead down.
-/
namespace ClassScribe
open Host Generate

/-- `p` has the steps of `base` in front and at least one more, and none of those goes up. -/
def Path.Inside (base p : Path) : Prop :=
  ∃ more, p.steps = base.steps ++ more ∧ more ≠ [] ∧ Path.Step.up ∉ more

namespace Path

variable {base p : Path} {s : String}

theorem Inside.text_ne (h : Inside base p) : p.text ≠ "" := by
  obtain ⟨more, hp, hm, -⟩ := h
  intro ht
  rw [steps_eq_nil_iff.mpr ht] at hp
  exact hm (List.append_eq_nil_iff.mp hp.symm).2

theorem Inside.join (h : Inside base p) (hs : isAbsolute s = false) (hu : Step.up ∉ added s) :
    Inside base (p.join s) := by
  have hj := steps_join h.text_ne hs
  obtain ⟨more, hp, hm, hn⟩ := h
  refine ⟨more ++ added s, by rw [hj, hp, List.append_assoc], by simp [hm], ?_⟩
  simp [hn, hu]

theorem eq_slash_of_isAbsolute (hs : isAbsolute s = true) : ∃ b, s = "/" ++ b := by
  obtain ⟨cs, hc⟩ : ∃ cs, s.toList = '/' :: cs := by
    cases hl : s.toList with
    | nil => simp [isAbsolute, hl] at hs
    | cons c cs =>
      obtain rfl : c = '/' := by simpa [isAbsolute, hl] using hs
      exact ⟨cs, rfl⟩
  exact ⟨String.ofList cs, String.toList_inj.mp (by simp [hc])⟩

/-- A text that is not absolute leads to the steps that it adds, behind a dot that it begins with. -/
theorem steps_relative (hs : isAbsolute s = false) :
    (⟨s⟩ : Path).steps = added s ∨ (⟨s⟩ : Path).steps = .here :: added s := by
  rw [added]
  cases h : (⟨s⟩ : Path).segments with
  | nil => exact absurd h (segments_ne_nil _)
  | cons first rest =>
    rw [steps_of_segments h, later_cons]
    by_cases he : first = ""
    · subst he
      cases rest with
      | nil => simp [start, later, isIdle]
      | cons next rest =>
        have ht : s = "/".intercalate ("" :: next :: rest) := h ▸ text_eq_intercalate ⟨s⟩
        simp [isAbsolute, ht, String.toList_intercalate] at hs
    · by_cases hd : first = "."
      · subst hd
        simp [start, later, isIdle, Step.ofSegment]
      · simp [start, he, later, isIdle, hd]

theorem inside_join_base (hs : isAbsolute s = false) (hu : Step.up ∉ added s)
    (hn : added s ≠ []) : Inside base (base.join s) := by
  by_cases hb : base.text = ""
  · rw [join_of_empty hb hs]
    refine ⟨(⟨s⟩ : Path).steps, by simp [steps_eq_nil_iff.mpr hb], ?_, ?_⟩
    · rcases steps_relative hs with h | h <;> simp [h, hn]
    · rcases steps_relative hs with h | h <;> simp [h, hu]
  · exact ⟨added s, steps_join hb hs, hn, hu⟩

end Path

namespace Generate

/-- The path that a call changes, or tries to change. -/
def changed? : Event Call.Answer → Option Path
  | .called (.createDirectory p) _ => some p
  | .called (.deleteDirectory p) _ => some p
  | .called (.writeText p _ _) _ => some p
  | _ => none

/-- No name in a run from `root` is absolute or goes up, and the first one leads somewhere. -/
structure LeadsDown (m : Model) (root : ElementId) : Prop where
  relative : ∀ i s, m.isWithin i root = true → entryName? m i = some s → Path.isAbsolute s = false
  never_up : ∀ i s, m.isWithin i root = true → entryName? m i = some s →
    Path.Step.up ∉ Path.added s
  root_leads : ∀ s, entryName? m root = some s → Path.added s ≠ []

variable {m : Model} {root i : ElementId} {o : Options} {base p : Path}

theorem Passes.changed {t : Task} {r r' : Report} {xs : Calls} (h : Passes t r xs r')
    {c : Event Call.Answer} (hc : c ∈ xs) (hp : changed? c = some p) : t.path? = some p := by
  cases h <;>
    simp only [List.mem_cons, List.not_mem_nil, or_false] at hc <;>
    rcases hc with rfl | rfl | rfl | rfl <;>
    first | exact hp | cases hp

theorem Halts.changed {t : Task} {r : Report} {xs : Calls} {out : Outcome}
    (h : Halts t r xs out) {c : Event Call.Answer} (hc : c ∈ xs) (hp : changed? c = some p) :
    t.path? = some p := by
  cases h <;>
    simp only [List.mem_cons, List.not_mem_nil, or_false] at hc <;>
    rcases hc with rfl | rfl | rfl | rfl <;>
    first | exact hp | cases hp

/-- What a run changes is the path of one of its tasks. -/
theorem Conduct.changed {ts : List Task} {r : Report} {cs : Calls} {out : Outcome}
    (h : Conduct ts r cs out) {c : Event Call.Answer} (hc : c ∈ cs) (hp : changed? c = some p) :
    ∃ t ∈ ts, t.path? = some p := by
  induction h with
  | finished r => cases hc
  | passed hx _ ih =>
    rcases List.mem_append.mp hc with hc | hc
    · exact ⟨_, List.mem_cons_self, hx.changed hc hp⟩
    · obtain ⟨t, ht, hp⟩ := ih hc
      exact ⟨t, List.mem_cons_of_mem _ ht, hp⟩
  | halted hx => exact ⟨_, List.mem_cons_self, hx.changed hc hp⟩

/-- A host without directories, on which nothing fails. -/
def obliging : Host Call.Answer Unit where
  answer _ c := (match c with
    | .directoryExists _ => false
    | .confirm _ => .accepted
    | .createDirectory _ | .deleteDirectory _ | .writeText _ _ _ => .ok (), ())

theorem changed_obliging {ts : List Task} {t : Task} (ht : t ∈ ts) (hp : t.path? = some p)
    (r : Report) : ∃ c ∈ ((perform m r ts).run obliging ()).calls, changed? c = some p := by
  induction ts generalizing r with
  | nil => cases ht
  | cons u ts ih =>
    cases u with
    | skip name label =>
      rcases List.mem_cons.mp ht with rfl | ht
      · cases hp
      · exact ih ht r
    | file i q content =>
      simp only [perform, Script.calls_notes, Script.calls_call, List.mem_cons]
      rcases List.mem_cons.mp ht with rfl | ht
      · exact ⟨_, .inl rfl, hp⟩
      · obtain ⟨c, hc, hp⟩ := ih ht (r.wrote q)
        exact ⟨c, .inr hc, hp⟩
    | directory q =>
      have hno : obliging.answer () (.directoryExists q) = (false, ()) := rfl
      simp only [perform, Script.calls_call, hno, Bool.false_eq_true, ↓reduceIte, makeDirectory,
        List.mem_cons]
      rcases List.mem_cons.mp ht with rfl | ht
      · exact ⟨_, .inr (.inl rfl), hp⟩
      · obtain ⟨c, hc, hp⟩ := ih ht (r.created q)
        exact ⟨c, .inr (.inr hc), hp⟩

theorem LeadsDown.inside (ht : m.IsTree) (hl : LeadsDown m root) {s : String}
    (hi : m.isWithin i root = true) (hs : entryName? m i = some s) :
    Path.Inside base ((placeOf m root base i).join s) := by
  induction i using Nat.strongRecOn generalizing s with
  | ind i ih =>
    have habs := hl.relative i s hi hs
    have hup := hl.never_up i s hi hs
    rcases placeOf_cases base hi with rfl | ⟨p, hp, hpr, hplace⟩
    · rw [placeOf_root]
      exact Path.inside_join_base habs hup (hl.root_leads s hs)
    · rw [hplace]
      exact (ih p (Model.parent?_lt hp) hpr (entryName?_of_parent ht hp)).join habs hup

theorem leadsDown_of_inside (ht : m.IsTree) (hb : base.steps = [.name "out"])
    (h : ∀ i s, m.isWithin i root = true → entryName? m i = some s →
      Path.Inside base ((placeOf m root base i).join s)) : LeadsDown m root := by
  have relative (i : ElementId) (s : String) (hi : m.isWithin i root = true)
      (hs : entryName? m i = some s) : Path.isAbsolute s = false := by
    by_contra habs
    rw [Bool.not_eq_false] at habs
    obtain ⟨more, hp, -⟩ := h i s hi hs
    obtain ⟨b, rfl⟩ := Path.eq_slash_of_isAbsolute habs
    rw [Path.join_absolute habs, Path.steps_root, hb] at hp
    cases hp
  have place_ne (i : ElementId) (hi : m.isWithin i root = true) :
      (placeOf m root base i).text ≠ "" := by
    rcases placeOf_cases base hi with rfl | ⟨p, hp, hpr, hplace⟩
    · rw [placeOf_root]
      intro he
      rw [Path.steps_eq_nil_iff.mpr he] at hb
      cases hb
    · rw [hplace]
      exact (h p (m.name p) hpr (entryName?_of_parent ht hp)).text_ne
  refine ⟨relative, ?_, ?_⟩
  · intro i s hi hs hup
    obtain ⟨more, hp, -, hn⟩ := h i s hi hs
    rw [Path.steps_join (place_ne i hi) (relative i s hi hs), hb] at hp
    have hmem : Path.Step.up ∈ [Path.Step.name "out"] ++ more := hp ▸ List.mem_append_right _ hup
    simp [hn] at hmem
  · intro s hs hnil
    have hroot := m.isWithin_self root
    obtain ⟨more, hp, hm, -⟩ := h root s hroot hs
    rw [Path.steps_join (place_ne root hroot) (relative root s hroot hs), placeOf_root, hnil] at hp
    exact hm (List.append_cancel_left hp).symm

/-- Whatever the base directory and the host, a run changes nothing but what lies strictly inside
the base directory, exactly when the names of its elements only lead down. -/
theorem generate_inside_iff {d : Snapshot.Document} (hd : Model.build d = .ok m) (root : ElementId)
    (o : Options) :
    (∀ (base : Path) (σ : Type) (h : Host Call.Answer σ) (s : σ),
      ∀ c ∈ ((generate m root o base).run h s).calls, ∀ p, changed? c = some p →
        Path.Inside base p) ↔ LeadsDown m root := by
  have ht := Model.build_isTree hd
  constructor
  · intro hall
    have hb : (⟨"out"⟩ : Path).steps = [.name "out"] := by decide +kernel
    refine leadsDown_of_inside ht hb ?_
    intro i s hi hs
    obtain ⟨t, hmem, hp⟩ := task_of_path ht o ⟨"out"⟩ hi hs
    obtain ⟨c, hc, hcp⟩ := changed_obliging hmem hp {}
    exact hall ⟨"out"⟩ Unit obliging () c hc _ hcp
  · intro hl base σ h s c hc p hp
    obtain ⟨t, hmem, htp⟩ := (generate_conduct h m root o base s).changed hc hp
    obtain ⟨i, name, hi, hname, rfl⟩ := path_of_task ht hmem htp
    exact hl.inside ht hi hname

def shop : Snapshot.Document where
  name := "Shop"
  ownedElements := [{ kind := "class", name := "Order" }]

def shopModel : Model := ⟨(shop.entries.map (·.element)).toArray, []⟩

theorem shop_inside : Model.build shop = .ok shopModel ∧
    ∀ (base : Path) (σ : Type) (h : Host Call.Answer σ) (s : σ),
      ∀ c ∈ ((generate shopModel Model.root {} base).run h s).calls, ∀ p, changed? c = some p →
        Path.Inside base p := by
  have names (i : ElementId) (s : String) (hs : entryName? shopModel i = some s) :
      s = "Shop" ∨ s = "order.rb" := by
    match i with
    | 0 => exact .inl (Option.some.inj hs).symm
    | 1 => exact .inr (Option.some.inj hs).symm
    | i + 2 =>
      have he : shopModel.element? (i + 2) = none := Array.getElem?_eq_none (Nat.le_add_left 2 i)
      simp [entryName?, he] at hs
  have hd : Model.build shop = .ok shopModel := rfl
  refine ⟨hd, (generate_inside_iff hd Model.root {}).mpr ⟨?_, ?_, ?_⟩⟩
  · intro i s _ hs
    rcases names i s hs with rfl | rfl <;> decide +kernel
  · intro i s _ hs
    rcases names i s hs with rfl | rfl <;> decide +kernel
  · intro s hs
    rcases names _ s hs with rfl | rfl <;> decide +kernel

/-- A package that is named like the directory above it. -/
def upward : Snapshot.Document where
  name := "Shop"
  ownedElements := [{ kind := "package", name := ".." }]

def upwardModel : Model := ⟨(upward.entries.map (·.element)).toArray, []⟩

/-- Not every run stays inside its base directory: here `out/Shop/..` is created. -/
theorem generate_not_inside : ¬ ∀ (d : Snapshot.Document) (m : Model) (root : ElementId)
    (o : Options) (base : Path) (σ : Type) (h : Host Call.Answer σ) (s : σ),
    Model.build d = .ok m → ∀ c ∈ ((generate m root o base).run h s).calls, ∀ p,
      changed? c = some p → Path.Inside base p := by
  intro hall
  have hmem : Task.directory ⟨"out/Shop/.."⟩ ∈ tasks upwardModel Model.root {} ⟨"out"⟩ := by
    rw [show tasks upwardModel Model.root {} ⟨"out"⟩ =
      [.directory ⟨"out/Shop"⟩, .directory ⟨"out/Shop/.."⟩] from rfl]
    simp
  obtain ⟨c, hc, hp⟩ := changed_obliging hmem rfl {}
  obtain ⟨more, hs, -, hu⟩ := hall upward upwardModel Model.root {} ⟨"out"⟩ Unit obliging () rfl
    c hc _ hp
  have hb : (⟨"out"⟩ : Path).steps = [.name "out"] := by decide +kernel
  have hup : (⟨"out/Shop/.."⟩ : Path).steps = [.name "out", .name "Shop", .up] := by
    decide +kernel
  rw [hup, hb] at hs
  simp only [List.cons_append, List.nil_append, List.cons.injEq, true_and] at hs
  simp [← hs] at hu

end Generate
end ClassScribe
