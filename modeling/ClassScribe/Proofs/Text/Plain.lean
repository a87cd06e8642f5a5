import ClassScribe.Proofs.Text.Lines

/-! # Plain names

Names without the characters that lines of a source are structured by. A list of names without
blanks can be told from its text.
-/
namespace ClassScribe.Text

def Unspaced (s : String) : Prop := ' ' ∉ s.toList

/-- Without the characters that structure a line. -/
def Plain (s : String) : Prop := ∀ c ∈ s.toList, c ∉ [' ', '\t', '(', '=', '#', '@']

instance (s : String) : Decidable (Plain s) := List.decidableBAll _ s.toList

variable {s : String}

theorem Plain.notMem (h : Plain s) {c : Char} (hc : c ∈ [' ', '\t', '(', '=', '#', '@']) :
    c ∉ s.toList :=
  fun hs => h c hs hc

theorem Plain.unspaced (h : Plain s) : Unspaced s := h.notMem (by decide)

theorem Plain.dropWhile (h : Plain s) (t : List Char) :
    (s.toList ++ t).dropWhile (· != ' ') = t.dropWhile (· != ' ') :=
  List.dropWhile_append_of_pos fun _ hc => bne_iff_ne.mpr fun he => h.unspaced (he ▸ hc)

/-- What stands in front of the first `x` of a text. -/
theorem append_cons_inj {α : Type} {x : α} {as bs cs ds : List α} (ha : x ∉ as) (hb : x ∉ bs)
    (h : as ++ x :: cs = bs ++ x :: ds) : as = bs ∧ cs = ds := by
  induction as generalizing bs with
  | nil =>
    cases bs with
    | nil => exact ⟨rfl, (List.cons.inj h).2⟩
    | cons b bs => exact absurd (List.mem_cons.mpr (.inl (List.cons.inj h).1)) hb
  | cons a as ih =>
    cases bs with
    | nil => exact absurd (List.mem_cons.mpr (.inl (List.cons.inj h).1.symm)) ha
    | cons b bs =>
      obtain ⟨rfl, htail⟩ := List.cons.inj h
      obtain ⟨rfl, hrest⟩ := ih (fun hx => ha (List.mem_cons_of_mem _ hx))
        (fun hx => hb (List.mem_cons_of_mem _ hx)) htail
      exact ⟨rfl, hrest⟩

theorem intercalate_inj {xs ys : List String} (hx : ∀ s ∈ xs, Unspaced s) (hy : ∀ s ∈ ys, Unspaced s)
    (hxs : xs ≠ []) (hys : ys ≠ []) (h : ", ".intercalate xs = ", ".intercalate ys) : xs = ys := by
  have hspace {s : String} {rest : List String} (hr : rest ≠ []) :
      ' ' ∈ (", ".intercalate (s :: rest)).toList := by
    rw [String.intercalate_cons_of_ne_nil hr]
    simp
  induction xs generalizing ys with
  | nil => exact absurd rfl hxs
  | cons x xs ih =>
    obtain ⟨hfirst, hrest⟩ := List.forall_mem_cons.mp hx
    cases ys with
    | nil => exact absurd rfl hys
    | cons y ys =>
      obtain ⟨hfirst', hrest'⟩ := List.forall_mem_cons.mp hy
      by_cases hxs' : xs = [] <;> by_cases hys' : ys = []
      · subst hxs' hys'
        simpa using h
      · subst hxs'
        rw [String.intercalate_singleton] at h
        exact absurd (h ▸ hspace hys') hfirst
      · subst hys'
        rw [String.intercalate_singleton] at h
        exact absurd (h ▸ hspace hxs') hfirst'
      · rw [String.intercalate_cons_of_ne_nil hxs', String.intercalate_cons_of_ne_nil hys'] at h
        have hcomma {s : String} (hs : Unspaced s) : ' ' ∉ s.toList ++ [','] := by
          simpa [Unspaced] using hs
        have hlist : (x.toList ++ [',']) ++ ' ' :: (", ".intercalate xs).toList =
            (y.toList ++ [',']) ++ ' ' :: (", ".intercalate ys).toList := by
          simpa using congrArg String.toList h
        obtain ⟨hname, htail⟩ := append_cons_inj (hcomma hfirst) (hcomma hfirst') hlist
        obtain rfl := String.toList_inj.mp (List.append_cancel_right hname)
        rw [ih hrest hrest' hxs' hys' (String.toList_inj.mp htail)]

end ClassScribe.Text
