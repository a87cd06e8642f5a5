import Mathlib.Data.List.TakeWhile
import ClassScribe.Proofs.Source.Layout

/-! # Comments keep the text

What documentation says can be read from the lines of its comment again. A comment of one line is
the only one with a text in its first line, so the two layouts are told apart by their number of
lines.
-/
namespace ClassScribe

namespace Text

theorem trimEnd_eq_nil_iff {cs : List Char} : trimEnd cs = [] ↔ ∀ c ∈ cs, isBlank c = true := by
  simp [trimEnd, List.dropWhile_eq_nil_iff]

theorem trimBoth_eq_nil_iff {cs : List Char} : trimBoth cs = [] ↔ ∀ c ∈ cs, isBlank c = true := by
  rw [trimBoth, trimEnd_eq_nil_iff]
  constructor
  · intro h
    have hnil : cs.dropWhile isBlank = [] := by
      by_contra hne
      have hhead := List.head_dropWhile_not isBlank hne
      rw [h _ (List.head_mem hne)] at hhead
      cases hhead
    exact List.dropWhile_eq_nil_iff.mp hnil
  · intro h c hc
    exact h c ((List.dropWhile_suffix isBlank).subset hc)

def trimEndText (s : String) : String := String.ofList (trimEnd s.toList)

/-- The lines that a comment shows are those of the text between its ends, each without the white
space at its own end; a blank text has none. -/
theorem trimmedLines_eq (s : String) :
    trimmedLines s = if isBlankText s then [] else (lines (trim s)).map trimEndText := by
  have hblank : isBlankText s = true ↔ trimBoth s.toList = [] := by
    rw [isBlankText, List.all_eq_true, trimBoth_eq_nil_iff]
  unfold trimmedLines
  split
  · rename_i hnil
    rw [if_pos (hblank.mpr hnil)]
  · rename_i hne
    rw [if_neg fun h => hne (hblank.mp h), lines, trim, String.toList_ofList, List.map_map]
    exact List.map_congr_left fun l _ => by simp [trimEndText]

theorem trimmedLines_eq_nil_iff (s : String) : trimmedLines s = [] ↔ isBlankText s = true := by
  rw [trimmedLines_eq]
  split
  · rename_i h
    simp [h]
  · rename_i h
    simp [h, lines, splitLines]

end Text

namespace Source
open Text

variable {unit : String} {depth : Nat}

/-- What stands behind the indentation of each line. A comment of one line shows its text behind the
number sign and a blank; in a longer one, every text is a unit of indentation further in. -/
def readComment (unit : String) (depth : Nat) (added : List String) : List String :=
  match added.map fun l => l.toList.drop (margin unit depth).length with
  | [] => []
  | [cs] => [String.ofList (cs.drop 2)]
  | _ :: rest => rest.map fun cs => String.ofList (cs.drop (2 + unit.length))

/-- A line of a comment begins with its number sign, behind which nothing or a blank follows. -/
theorem sharp_of_commentPhrases {ls : List String} {p : Phrase} (hp : p ∈ commentPhrases ls) :
    p.text unit = "#" ∨ ∃ s, p.text unit = "# " ++ s := by
  have hsharp : "# " = "#" ++ " " := by decide
  rcases mem_commentPhrases hp with rfl | ⟨s, -, rfl | rfl⟩
  · exact .inl (by rw [Phrase.text, String.append_empty])
  · exact .inr ⟨s, by rw [Phrase.text, hsharp, String.append_assoc]⟩
  · exact .inr ⟨unit ++ s, by rw [Phrase.text, String.append_assoc]⟩

theorem layout_comment (unit : String) (depth : Nat) (ls : List String) :
    layout unit depth [.comment ls] =
      (commentPhrases ls).map fun p => margin unit depth ++ p.text unit := by
  rw [layout, rows_cons, rows_nil, List.append_nil, Block.rows, List.map_map]
  apply List.map_congr_left
  intro p hp
  have hne : p.text unit ≠ "" := by
    have hsharp : p.text unit = "#" ∨ ∃ s, p.text unit = "# " ++ s := sharp_of_commentPhrases hp
    rcases hsharp with h | ⟨s, h⟩
    · rw [h]
      decide
    · rw [h]
      exact fun he => absurd (String.append_eq_empty_iff.mp he).1 (by decide)
  exact line_of_ne hne

theorem drop_remark (unit s : String) : String.ofList (((if s.isEmpty then Phrase.remark ""
    else .inset s).text unit).toList.drop (2 + unit.length)) = s := by
  split
  · rename_i hs
    have hsharp : ("#" ++ "").toList.length ≤ 2 + unit.length := by simp; omega
    rw [Phrase.text, List.drop_eq_nil_of_le hsharp, String.isEmpty_iff.mp hs]
  · have hfront : ("# " ++ unit).toList.length = 2 + unit.length := by
      rw [String.length_toList, String.length_append]
      rfl
    rw [Phrase.text, String.toList_append, List.drop_left' hfront, String.ofList_toList]

/-- The texts of a comment are read from its lines. -/
theorem readComment_layout {ls : List String} (h : ls ≠ []) :
    readComment unit depth (layout unit depth [.comment ls]) = ls := by
  have hdrop (p : Phrase) : (margin unit depth ++ p.text unit).toList.drop
      (margin unit depth).length = (p.text unit).toList := by
    rw [String.toList_append]
    exact List.drop_left' String.length_toList
  have htexts : (layout unit depth [.comment ls]).map
      (fun l => l.toList.drop (margin unit depth).length) =
        (commentPhrases ls).map fun p => (p.text unit).toList := by
    rw [layout_comment, List.map_map]
    exact List.map_congr_left fun p _ => hdrop p
  rw [readComment, htexts]
  cases ls with
  | nil => exact absurd rfl h
  | cons s ls =>
    cases ls with
    | nil => simp [commentPhrases, Phrase.text]
    | cons t ls =>
      have hphrases : commentPhrases (s :: t :: ls) = .remark "" ::
          (s :: t :: ls).map fun s => if s.isEmpty then .remark "" else .inset s := rfl
      rw [hphrases, List.map_cons, List.map_map]
      change ((s :: t :: ls).map _).map _ = _
      rw [List.map_map]
      exact List.map_id'' (fun s => drop_remark unit s) _

theorem documentation_eq {o : Options} (ho : o.documentation = true) (text : String) :
    documentation o text =
      if trimmedLines text = [] then [] else [.comment (trimmedLines text)] := by
  unfold documentation
  split
  · rename_i h
    rw [if_pos h]
  · rename_i h
    rw [if_pos ho, if_neg h]

/-- What a comment shows is what its documentation says: the lines of the text between its ends,
each without the white space at its own end. -/
theorem documentation_recovered {w : Writer} {o : Options} (hu : IsPad w.unit)
    (ho : o.documentation = true) (text : String) :
    ∃ added, (w.write (documentation o text)).lines.toList = w.lines.toList ++ added ∧
      readComment w.unit w.depth added =
        (if isBlankText text then [] else (lines (trim text)).map trimEndText) ∧
      (readComment w.unit w.depth added = [] ↔ isBlankText text = true) ∧
      ∀ l ∈ added, Unbroken l ∧
        ∃ s, l = margin w.unit w.depth ++ s ∧ (s = "#" ∨ ∃ t, s = "# " ++ t) := by
  have hwritten : (w.write (documentation o text)).lines.toList =
      w.lines.toList ++ layout w.unit w.depth (documentation o text) := by
    rw [Writer.write_eq]
    simp [Writer.wrote, layout]
  refine ⟨_, hwritten, ?_⟩
  rw [← trimmedLines_eq, ← trimmedLines_eq_nil_iff, documentation_eq ho]
  by_cases hnil : trimmedLines text = []
  · rw [if_pos hnil, hnil, layout, rows_nil, List.map_nil]
    exact ⟨rfl, by simp [readComment], fun l hl => absurd hl List.not_mem_nil⟩
  · rw [if_neg hnil, readComment_layout hnil]
    refine ⟨rfl, Iff.rfl, fun l hl => ?_⟩
    rw [layout_comment] at hl
    obtain ⟨p, hp, rfl⟩ := List.mem_map.mp hl
    obtain ⟨s, hs, hunbroken⟩ :=
      text_of_commentPhrases hu (fun _ ht => unbroken_of_trimmedLines ht) hp
    have hsharp : Unbroken "#" := by decide
    refine ⟨(hu.margin w.depth).unbroken.append ?_, _, rfl, sharp_of_commentPhrases hp⟩
    rw [hs]
    exact hsharp.append hunbroken

def cartRemark : String := " A cart.\r\n\n  Holds items. \n"

/-- Two lines with an empty one in between, written inside a class. -/
theorem cartRemark_recovered : IsPad ({} : Options).indentUnit ∧ ({} : Options).documentation = true ∧
    ∃ added, (Writer.write ⟨({} : Options).indentUnit, 1, #["class Cart"]⟩
        (documentation {} cartRemark)).lines.toList = ["class Cart"] ++ added ∧
      readComment ({} : Options).indentUnit 1 added = ["A cart.", "", "  Holds items."] := by
  have hpad : IsPad ({} : Options).indentUnit := isPad_indentUnit {}
  obtain ⟨added, hlines, hread, -⟩ :=
    documentation_recovered (w := ⟨_, 1, #["class Cart"]⟩) (o := {}) hpad rfl cartRemark
  exact ⟨hpad, rfl, added, hlines, hread.trans (by decide +kernel)⟩

end Source
end ClassScribe
