import Mathlib.Data.List.Basic
import ClassScribe.Text.Blank

/-! # Lines of a text

A text is split at its line breaks. Texts joined by line breaks have the lines of each of them, and
what a comment shows has no line break in it.
-/
namespace ClassScribe.Text

theorem notMem_of_mem_splitOn {x : Char} {xs l : List Char} (h : l ∈ xs.splitOn x) : x ∉ l := by
  induction xs generalizing l with
  | nil =>
    obtain rfl : l = [] := by simpa using h
    simp
  | cons c xs ih =>
    rw [List.splitOn_cons_eq_if_modifyHead] at h
    by_cases hc : c = x
    · subst hc
      simp only [BEq.rfl, ↓reduceIte, List.mem_cons] at h
      rcases h with rfl | h
      · simp
      · exact ih h
    · rw [if_neg (by simpa using hc)] at h
      cases hx : xs.splitOn x with
      | nil => simp [hx] at h
      | cons y ys =>
        rw [hx, List.modifyHead_cons] at h
        rcases List.mem_cons.mp h with rfl | h
        · have hy : x ∉ y := ih (by simp [hx])
          simp [hy, Ne.symm hc]
        · exact ih (by simp [hx, h])

theorem mem_of_mem_splitOn {x c : Char} {xs l : List Char} (h : l ∈ xs.splitOn x) (hc : c ∈ l) :
    c ∈ xs := by
  induction xs generalizing l with
  | nil =>
    obtain rfl : l = [] := by simpa using h
    cases hc
  | cons d xs ih =>
    rw [List.splitOn_cons_eq_if_modifyHead] at h
    split at h
    · rcases List.mem_cons.mp h with rfl | h
      · cases hc
      · exact List.mem_cons_of_mem _ (ih h hc)
    · cases hx : xs.splitOn x with
      | nil => simp [hx] at h
      | cons y ys =>
        rw [hx, List.modifyHead_cons] at h
        rcases List.mem_cons.mp h with rfl | h
        · rcases List.mem_cons.mp hc with rfl | hc
          · exact List.mem_cons_self
          · exact List.mem_cons_of_mem _ (ih (hx ▸ List.mem_cons_self) hc)
        · exact List.mem_cons_of_mem _ (ih (hx ▸ List.mem_cons_of_mem _ h) hc)

theorem mem_of_mem_intercalate {c : Char} {sep : List Char} {xs : List (List Char)}
    (h : c ∈ sep.intercalate xs) : c ∈ sep ∨ ∃ l ∈ xs, c ∈ l := by
  induction xs with
  | nil => simp at h
  | cons l xs ih =>
    cases xs with
    | nil => exact .inr ⟨l, by simp, by simpa using h⟩
    | cons l' xs =>
      rw [List.intercalate_cons_cons, List.mem_append, List.mem_append] at h
      rcases h with (h | h) | h
      · exact .inr ⟨l, List.mem_cons_self, h⟩
      · exact .inl h
      · exact (ih h).imp id fun ⟨k, hk, hc⟩ => ⟨k, List.mem_cons_of_mem _ hk, hc⟩

def lines (s : String) : List String := (splitLines s.toList).map String.ofList

/-- Without a line break. -/
def Unbroken (s : String) : Prop := '\n' ∉ s.toList

instance (s : String) : Decidable (Unbroken s) := inferInstanceAs (Decidable ('\n' ∉ s.toList))

variable {s t : String}

@[simp] theorem unbroken_append : Unbroken (s ++ t) ↔ Unbroken s ∧ Unbroken t := by
  rw [Unbroken, String.toList_append, List.mem_append, not_or]
  rfl

theorem Unbroken.append (hs : Unbroken s) (ht : Unbroken t) : Unbroken (s ++ t) :=
  unbroken_append.mpr ⟨hs, ht⟩

theorem Unbroken.of_subset (hs : Unbroken s) (h : ∀ c ∈ t.toList, c ∈ s.toList) : Unbroken t :=
  fun ht => hs (h _ ht)

theorem Unbroken.intercalate {sep : String} (hsep : Unbroken sep) {xs : List String}
    (h : ∀ s ∈ xs, Unbroken s) : Unbroken (sep.intercalate xs) := by
  intro hb
  rw [String.toList_intercalate] at hb
  rcases mem_of_mem_intercalate hb with hb | ⟨l, hl, hb⟩
  · exact hsep hb
  · obtain ⟨s, hs, rfl⟩ := List.mem_map.mp hl
    exact h s hs hb

theorem lines_unbroken (h : Unbroken s) : lines s = [s] := by
  simp [lines, splitLines, List.splitOn_eq_singleton h]

theorem lines_break (s t : String) : lines (s ++ "\n" ++ t) = lines s ++ lines t := by
  simp [lines, splitLines, List.splitOn_append_cons_self]

theorem lines_intercalate {xs : List String} (h : xs ≠ []) :
    lines ("\n".intercalate xs) = xs.flatMap lines := by
  induction xs with
  | nil => exact absurd rfl h
  | cons s xs ih =>
    cases xs with
    | nil => simp
    | cons t xs =>
      rw [String.intercalate_cons_of_ne_nil (List.cons_ne_nil t xs), lines_break,
        ih (List.cons_ne_nil t xs)]
      rfl

theorem flatMap_lines {xs : List String} (h : ∀ s ∈ xs, Unbroken s) : xs.flatMap lines = xs := by
  induction xs with
  | nil => rfl
  | cons s xs ih =>
    obtain ⟨hs, hxs⟩ := List.forall_mem_cons.mp h
    rw [List.flatMap_cons, lines_unbroken hs, ih hxs, List.singleton_append]

theorem trimEnd_subset {cs : List Char} {c : Char} (h : c ∈ trimEnd cs) : c ∈ cs := by
  have := (List.dropWhile_suffix isBlank).subset (List.mem_reverse.mp h)
  exact List.mem_reverse.mp this

theorem trim_subset {c : Char} (h : c ∈ (trim s).toList) : c ∈ s.toList := by
  rw [trim, String.toList_ofList] at h
  exact (List.dropWhile_suffix isBlank).subset (trimEnd_subset h)

theorem unbroken_of_trimmedLines (h : t ∈ trimmedLines s) : Unbroken t := by
  unfold trimmedLines at h
  split at h
  · cases h
  · obtain ⟨l, hl, rfl⟩ := List.mem_map.mp h
    rw [Unbroken, String.toList_ofList]
    exact fun hb => notMem_of_mem_splitOn hl (trimEnd_subset hb)

end ClassScribe.Text
