import Mathlib.Data.List.Induction
import ClassScribe.Proofs.Path.Steps

/-! # Following a path from a place

A path that is read from a place leads on from there, and each step up takes back the name before
it. Names that were followed are taken back by as many steps up, so that two places with the same
steps at the front are led to from each other.
-/
namespace ClassScribe.Path

/-- Take one step from a place. There is nothing above the root, and where no name is known a step
up stays. -/
def follow (place : List Step) : Step → List Step
  | .root => [.root]
  | .here => place
  | .name s => place ++ [.name s]
  | .up =>
    match place.getLast? with
    | some (.name _) => place.dropLast
    | some .root => place
    | _ => place ++ [.up]

variable {place : List Step}

@[simp] theorem follow_name (place : List Step) (s : String) :
    follow place (.name s) = place ++ [.name s] := rfl

@[simp] theorem follow_up (place : List Step) (s : String) :
    follow (place ++ [.name s]) .up = place := by
  simp [follow]

theorem foldl_follow_names (place : List Step) (names : List String) :
    (names.map .name).foldl follow place = place ++ names.map .name := by
  induction names generalizing place with
  | nil => exact (List.append_nil place).symm
  | cons s names ih =>
    rw [List.map_cons, List.foldl_cons, follow_name, ih, List.append_assoc, List.singleton_append]

/-- Steps up take back names, the last first. -/
theorem foldl_follow_up (place : List Step) (names back : List String) :
    (List.replicate back.length .up).foldl follow (place ++ (names ++ back).map .name) =
      place ++ names.map .name := by
  induction back using List.reverseRecOn with
  | nil => rw [List.append_nil]; rfl
  | append_singleton back s ih =>
    have hlast : place ++ (names ++ (back ++ [s])).map .name =
        (place ++ (names ++ back).map .name) ++ [.name s] := by
      simp
    rw [hlast, List.length_append, List.length_singleton, List.replicate_succ, List.foldl_cons,
      follow_up, ih]

/-- Two places below one are led to from each other by what they do not share. -/
theorem foldl_follow_across (place : List Step) (shared back ahead : List String) :
    (List.replicate back.length Step.up ++ ahead.map Step.name).foldl follow
        (place ++ (shared ++ back).map .name) = place ++ (shared ++ ahead).map .name := by
  rw [List.foldl_append, foldl_follow_up, foldl_follow_names, List.map_append, List.append_assoc]

/-- Names without slashes are the steps of the path that joins them. -/
theorem steps_of_names {names : List String} (hs : ∀ s ∈ names, isIdle s = false ∧ '/' ∉ s.toList)
    (hn : names ≠ []) : (⟨"/".intercalate names⟩ : Path).steps = names.map Step.ofSegment := by
  have hseg := segments_intercalate (fun s h => (hs s h).2) hn
  cases names with
  | nil => exact absurd rfl hn
  | cons first rest =>
    obtain ⟨⟨hfirst, -⟩, hrest⟩ := List.forall_mem_cons.mp hs
    have hne : first ≠ "" := by
      rintro rfl
      cases hfirst
    have hkept : rest.filter (!isIdle ·) = rest :=
      List.filter_eq_self.mpr fun s h => by simp [(hrest s h).1]
    rw [steps_of_segments hseg, start, if_neg hne, later, hkept]
    rfl

end ClassScribe.Path
