import Mathlib.Data.List.Basic
import ClassScribe.Path
import ClassScribe.Proofs.Text.Lines

/-! # Steps of joined paths and of parents

A path is text, and two texts can lead to one place. The lemmas here say what joining a name and
taking the parent do to the steps, so that later arguments are about lists of steps alone.
-/
namespace ClassScribe.Path

/-- The steps of segments that follow others. -/
def later (segments : List String) : List Step := (segments.filter (!isIdle ·)).map Step.ofSegment

/-- The steps that a name adds behind a path that is not empty. -/
def added (s : String) : List Step := later (⟨s⟩ : Path).segments

/-- A name that replaces the path it is joined to. -/
def isAbsolute (s : String) : Bool := s.toList.head? == some '/'

@[simp] theorem later_nil : later [] = [] := rfl

@[simp] theorem later_append (xs ys : List String) : later (xs ++ ys) = later xs ++ later ys := by
  simp [later]

theorem later_name {s : String} (h : isIdle s = false) : later [s] = [.ofSegment s] := by
  simp [later, h]

theorem later_cons (s : String) (xs : List String) : later (s :: xs) = later [s] ++ later xs :=
  later_append [s] xs

theorem segments_ne_nil (p : Path) : p.segments ≠ [] := by simp [segments]

theorem segments_slash (a b : String) :
    (⟨a ++ "/" ++ b⟩ : Path).segments = (⟨a⟩ : Path).segments ++ (⟨b⟩ : Path).segments := by
  simp [segments, List.splitOn_append_cons_self]

theorem segments_single {s : String} (h : '/' ∉ s.toList) : (⟨s⟩ : Path).segments = [s] := by
  simp [segments, List.splitOn_eq_singleton h]

theorem segments_intercalate {xs : List String} (hx : ∀ s ∈ xs, '/' ∉ s.toList) (hn : xs ≠ []) :
    (⟨"/".intercalate xs⟩ : Path).segments = xs := by
  have hs : ∀ l ∈ xs.map String.toList, '/' ∉ l := by simpa using hx
  have hm : xs.map String.toList ≠ [] := by simpa using hn
  have h := List.splitOn_intercalate '/' hs hm
  simp only [segments, String.toList_intercalate]
  rw [show "/".toList = ['/'] from rfl, h]
  simp

theorem slash_notMem_segments {p : Path} {s : String} (h : s ∈ p.segments) : '/' ∉ s.toList := by
  obtain ⟨l, hl, rfl⟩ := List.mem_map.mp h
  rw [String.toList_ofList]
  exact Text.notMem_of_mem_splitOn hl

theorem text_eq_intercalate (p : Path) : p.text = "/".intercalate p.segments := by
  apply String.toList_inj.mp
  simp [segments, String.toList_intercalate, Function.comp_def]

/-- A text in which not all is slashes and dots leads somewhere. -/
theorem added_ne_nil {s : String} {c : Char} (hc : c ∈ s.toList) (hslash : c ≠ '/')
    (hdot : c ≠ '.') : added s ≠ [] := by
  intro he
  have hidle : ∀ x ∈ (⟨s⟩ : Path).segments, isIdle x = true := by
    simpa [added, later, List.filter_eq_nil_iff] using he
  have ht := congrArg String.toList (text_eq_intercalate ⟨s⟩)
  simp only [String.toList_intercalate] at ht
  rw [ht] at hc
  rcases Text.mem_of_mem_intercalate hc with h | ⟨l, hl, h⟩
  · exact hslash (by simpa using h)
  · obtain ⟨x, hx, rfl⟩ := List.mem_map.mp hl
    have := hidle x hx
    rw [isIdle, Bool.or_eq_true, decide_eq_true_iff, decide_eq_true_iff] at this
    rcases this with rfl | rfl
    · simp at h
    · exact hdot (by simpa using h)

/-- The steps of the first segment; `alone` says that no segment follows. -/
def start (first : String) (alone : Bool) : List Step :=
  if first = "" then (if alone then [] else [.root]) else [.ofSegment first]

theorem steps_of_segments {p : Path} {first : String} {rest : List String}
    (h : p.segments = first :: rest) : p.steps = start first rest.isEmpty ++ later rest := by
  simp [steps, h, start, later]

theorem text_empty_iff {p : Path} : p.text = "" ↔ p.segments = [""] := by
  constructor
  · intro h
    simp [segments, h]
  · intro h
    rw [text_eq_intercalate, h]
    rfl

theorem steps_eq_nil_iff {p : Path} : p.steps = [] ↔ p.text = "" := by
  rw [text_empty_iff]
  cases h : p.segments with
  | nil => exact absurd h p.segments_ne_nil
  | cons first rest =>
    rw [steps_of_segments h]
    by_cases hf : first = "" <;> cases rest <;> simp [start, hf, later]

theorem text_ne_of_prefix {p q : Path} (h : p.steps <+: q.steps) (hp : p.text ≠ "") :
    q.text ≠ "" := by
  intro hq
  rw [steps_eq_nil_iff.mpr hq, List.prefix_nil, steps_eq_nil_iff] at h
  exact hp h

theorem steps_slash {a : String} (ha : a ≠ "") (b : String) :
    (⟨a ++ "/" ++ b⟩ : Path).steps = (⟨a⟩ : Path).steps ++ added b := by
  cases h : (⟨a⟩ : Path).segments with
  | nil => exact absurd h (segments_ne_nil _)
  | cons first rest =>
    have hs : (⟨a ++ "/" ++ b⟩ : Path).segments = first :: (rest ++ (⟨b⟩ : Path).segments) := by
      rw [segments_slash, h, List.cons_append]
    have hb : (rest ++ (⟨b⟩ : Path).segments).isEmpty = false := by
      simp [segments_ne_nil]
    have hr : first = "" → rest.isEmpty = false := by
      rintro rfl
      cases rest with
      | nil => exact absurd (text_empty_iff.mpr h) ha
      | cons => rfl
    rw [steps_of_segments hs, steps_of_segments h, hb, later_append, ← List.append_assoc]
    by_cases hf : first = ""
    · simp [start, hf, hr hf, added]
    · simp [start, hf, added]

theorem steps_trailing {a : String} (ha : a ≠ "") :
    (⟨a ++ "/"⟩ : Path).steps = (⟨a⟩ : Path).steps := by
  have h := steps_slash ha ""
  simpa [added, segments, later, isIdle] using h

theorem steps_root (b : String) : (⟨"/" ++ b⟩ : Path).steps = .root :: added b := by
  have h : (⟨"/" ++ b⟩ : Path).segments = "" :: (⟨b⟩ : Path).segments := by
    have := segments_slash "" b
    simpa [segments_single] using this
  have hb : (⟨b⟩ : Path).segments.isEmpty = false := by simp [segments_ne_nil]
  rw [steps_of_segments h, hb]
  rfl

theorem join_of_empty {p : Path} {s : String} (hp : p.text = "") (hs : isAbsolute s = false) :
    p.join s = ⟨s⟩ := by
  have hs : ¬ s.toList.head? = some '/' := by simpa [isAbsolute] using hs
  simp [join, hs, hp]

theorem join_absolute {p : Path} {s : String} (hs : isAbsolute s = true) : p.join s = ⟨s⟩ := by
  have hs : s.toList.head? = some '/' := by simpa [isAbsolute] using hs
  simp [join, hs]

theorem join_ne {p : Path} {s : String} (hs : s ≠ "") : (p.join s).text ≠ "" := by
  rw [join]
  split
  · exact hs
  · split <;> simp [hs]

/-- A joined name stands behind a slash, which the path may have at its end already. -/
theorem join_slash {p : Path} {s : String} (hp : p.text ≠ "") (hs : isAbsolute s = false) :
    ∃ a, p.join s = ⟨a ++ "/" ++ s⟩ ∧ (p.text = a ∨ p.text = a ++ "/") := by
  have hs : ¬ s.toList.head? = some '/' := by simpa [isAbsolute] using hs
  by_cases hl : p.text.toList.getLast? = some '/'
  · obtain ⟨front, hf⟩ := List.getLast?_eq_some_iff.mp hl
    have ht : p.text = String.ofList front ++ "/" := by
      apply String.toList_inj.mp
      simp [hf]
    exact ⟨String.ofList front, by simp [join, hs, hl, ← ht], .inr ht⟩
  · exact ⟨p.text, by simp [join, hs, hl, hp], .inl rfl⟩

theorem steps_join {p : Path} {s : String} (hp : p.text ≠ "") (hs : isAbsolute s = false) :
    (p.join s).steps = p.steps ++ added s := by
  obtain ⟨a, hj, ha⟩ := join_slash hp hs
  rw [hj]
  rcases ha with rfl | ha
  · rw [steps_slash hp]
  · have hp : p = ⟨a ++ "/"⟩ := by rw [← ha]
    by_cases hn : a = ""
    · have hroot := steps_root ""
      rw [hp, hn]
      simp only [String.empty_append, steps_root, String.append_empty] at hroot ⊢
      rw [hroot]
      simp [added, segments, later, isIdle]
    · rw [steps_slash hn, hp, steps_trailing hn]

theorem later_dropIdle (xs : List String) : later (dropIdle xs) = later xs := by
  have key : ∀ ys : List String, (ys.dropWhile isIdle).filter (!isIdle ·) = ys.filter (!isIdle ·) := by
    intro ys
    induction ys with
    | nil => rfl
    | cons y ys ih =>
      by_cases hy : isIdle y = true <;> simp [hy, ih]
  simp only [later, dropIdle, List.filter_reverse, key, List.reverse_reverse]

theorem dropIdle_subset {xs : List String} {s : String} (h : s ∈ dropIdle xs) : s ∈ xs := by
  have := (List.dropWhile_suffix isIdle).subset (List.mem_reverse.mp h)
  exact List.mem_reverse.mp this

theorem dropIdle_eq_concat {xs : List String} (h : dropIdle xs ≠ []) :
    ∃ last, isIdle last = false ∧ dropIdle xs = (dropIdle xs).dropLast ++ [last] := by
  have hr : xs.reverse.dropWhile isIdle ≠ [] := by simpa [dropIdle] using h
  refine ⟨(xs.reverse.dropWhile isIdle).head hr, ?_, ?_⟩
  · simpa using List.head_dropWhile_not isIdle hr
  · have hl := List.dropLast_concat_getLast h
    simp only [dropIdle, List.getLast_reverse] at hl ⊢
    exact hl.symm

theorem steps_intercalate {first : String} {above : List String} (hf : '/' ∉ first.toList)
    (ha : ∀ s ∈ above, '/' ∉ s.toList) (hn : above ≠ []) :
    (⟨"/".intercalate (first :: above)⟩ : Path).steps = start first false ++ later above := by
  have hs : (⟨"/".intercalate (first :: above)⟩ : Path).segments = first :: above :=
    segments_intercalate (by simpa using ⟨hf, ha⟩) (by simp)
  rw [steps_of_segments hs, List.isEmpty_eq_false_iff.mpr hn]

theorem steps_first {first : String} (hf : '/' ∉ first.toList) :
    (⟨if first = "" then "/" else first⟩ : Path).steps = start first false := by
  by_cases h : first = ""
  · simp only [h, ↓reduceIte]
    exact steps_root ""
  · rw [if_neg h, steps_of_segments (segments_single hf)]
    simp [start, h]

/-- A parent has all steps but the last, and without a parent there is one step at most. -/
theorem parent?_steps (p : Path) :
    (∀ q, p.parent? = some q → q.steps = p.steps.dropLast ∧ p.steps ≠ []) ∧
      (p.parent? = none → p.steps.length ≤ 1) := by
  cases hp : p.segments with
  | nil => exact absurd hp p.segments_ne_nil
  | cons first rest =>
    have slashless {s : String} (hs : s ∈ first :: rest) : '/' ∉ s.toList :=
      slash_notMem_segments (p := p) (hp ▸ hs)
    have hfirst : '/' ∉ first.toList := slashless (by simp)
    rw [steps_of_segments hp, ← later_dropIdle rest]
    simp only [parent?, hp]
    cases hk : dropIdle rest with
    | nil =>
      by_cases hf : first = ""
      · simp only [hf, ↓reduceIte, start, later_nil, List.append_nil]
        refine ⟨by simp, fun _ => ?_⟩
        split <;> simp
      · simp [hf, start, steps_eq_nil_iff]
    | cons k ks =>
      obtain ⟨last, hlast, hc⟩ := dropIdle_eq_concat (by simp [hk] : dropIdle rest ≠ [])
      have hrest : rest.isEmpty = false := by
        cases rest with
        | nil => simp [dropIdle] at hk
        | cons => rfl
      rw [hk] at hc
      have hsteps : start first rest.isEmpty ++ later (k :: ks) =
          (start first false ++ later (k :: ks).dropLast) ++ [.ofSegment last] := by
        rw [hrest, hc, List.dropLast_concat, later_append, later_name hlast, List.append_assoc]
      rw [hsteps, List.dropLast_concat]
      simp only
      cases ha : dropIdle (k :: ks).dropLast with
      | nil =>
        have hl : later (k :: ks).dropLast = [] := by rw [← later_dropIdle, ha, later_nil]
        simp [hl, steps_first hfirst]
      | cons j js =>
        have hmem {s : String} (hs : s ∈ j :: js) : '/' ∉ s.toList := by
          have h1 : s ∈ (k :: ks).dropLast := dropIdle_subset (ha ▸ hs)
          have h2 : s ∈ dropIdle rest := hk ▸ (List.dropLast_subset _ h1)
          exact slashless (by simp [dropIdle_subset h2])
        have hs := steps_intercalate hfirst (fun s hs => hmem hs) (List.cons_ne_nil j js)
        rw [← ha, later_dropIdle, ha] at hs
        refine ⟨fun q hq => ?_, by simp⟩
        obtain rfl := Option.some.inj hq
        exact ⟨hs, by simp⟩

theorem same_iff {p q : Path} : p.same q = true ↔ p.steps = q.steps := beq_iff_eq

theorem isWithin_iff {p q : Path} : p.isWithin q = true ↔ q.steps <+: p.steps :=
  List.isPrefixOf_iff_prefix

theorem parent_outside {p q : Path} (h : p.parent? = some q) : q.isWithin p = false := by
  obtain ⟨hs, hne⟩ := p.parent?_steps.1 q h
  by_contra hw
  have hlen := (isWithin_iff.mp (by simpa using hw)).length_le
  have := List.length_pos_of_ne_nil hne
  rw [hs, List.length_dropLast] at hlen
  omega

theorem length_steps_le (p : Path) : p.steps.length ≤ p.segments.length := by
  cases h : p.segments with
  | nil => exact absurd h p.segments_ne_nil
  | cons first rest =>
    have hs : (start first rest.isEmpty).length ≤ 1 := by
      rw [start]
      split
      · split <;> simp
      · simp
    have hl : (later rest).length ≤ rest.length := by
      rw [later, List.length_map]
      exact List.length_filter_le _ _
    rw [steps_of_segments h, List.length_append, List.length_cons]
    omega

end ClassScribe.Path
