import Mathlib.Data.List.Chain
import ClassScribe.Proofs.Source.Layout

/-! # Blank lines

A blank line separates what stands before it from what stands behind it, so it is never at an edge:
not of a file, not of the body of a module, a class or a method, and not of what a visibility marker
applies to. This is kept wherever blocks are put together, as long as groups with a blank line
between them have something in them.
-/
namespace ClassScribe.Source

/-- A line, and whether it opens something: it is the header of a module, a class or a method, or a
visibility marker. -/
structure Line where
  opens : Bool
  text : String
  deriving DecidableEq, Repr

namespace Line

def IsEnd (l : Line) : Prop := ∃ pad, IsPad pad ∧ l.text = pad ++ "end"

/-- A blank line is not behind a blank line or an opening, and no end is behind a blank line. -/
def Next (a b : Line) : Prop :=
  (b.text = "" → a.text ≠ "" ∧ a.opens = false) ∧ (a.text = "" → ¬ b.IsEnd)

def blank : Line := ⟨false, ""⟩

theorem blank_not_end : ¬ blank.IsEnd := by
  rintro ⟨pad, -, hpad⟩
  have hend : "end" = "" := (String.append_eq_empty_iff.mp hpad.symm).2
  exact absurd hend (by decide)

theorem next_of_ne {a b : Line} (ha : a.text ≠ "") (hb : b.text ≠ "") : a.Next b :=
  ⟨fun h => absurd h hb, fun h => absurd h ha⟩

end Line

/-- Lines where no blank line is at an edge. -/
structure Tidy (ls : List Line) : Prop where
  chain : ls.IsChain Line.Next
  first : ∀ l ∈ ls.head?, l.text ≠ "" ∧ ¬ l.IsEnd
  last : ∀ l ∈ ls.getLast?, l.text ≠ "" ∧ l.opens = false

namespace Tidy

variable {ls ls' : List Line} {l header ending : Line}

theorem nil : Tidy [] := ⟨.nil, nofun, nofun⟩

theorem singleton (ht : l.text ≠ "") (he : ¬ l.IsEnd) (ho : l.opens = false) : Tidy [l] := by
  refine ⟨List.isChain_singleton _, ?_, ?_⟩ <;> simp [ht, he, ho]

theorem append (h : Tidy ls) (h' : Tidy ls') : Tidy (ls ++ ls') := by
  constructor
  · apply h.chain.append h'.chain
    intro a ha b hb
    exact Line.next_of_ne (h.last a ha).1 (h'.first b hb).1
  · intro l hl
    rw [List.head?_append] at hl
    obtain hl | ⟨-, hl⟩ := Option.or_eq_some_iff.mp hl
    · exact h.first l hl
    · exact h'.first l hl
  · intro l hl
    rw [List.getLast?_append] at hl
    obtain hl | ⟨-, hl⟩ := Option.or_eq_some_iff.mp hl
    · exact h'.last l hl
    · exact h.last l hl

/-- A blank line between two groups that have something in them. -/
theorem separate (h : Tidy ls) (h' : Tidy ls') (hne : ls ≠ []) (hne' : ls' ≠ []) :
    Tidy (ls ++ Line.blank :: ls') := by
  constructor
  · apply h.chain.append
    · apply List.IsChain.cons h'.chain
      intro b hb
      exact ⟨fun hblank => absurd hblank (h'.first b hb).1, fun _ => (h'.first b hb).2⟩
    · intro a ha b hb
      obtain rfl : Line.blank = b := Option.some.inj hb
      exact ⟨fun _ => h.last a ha, fun _ => Line.blank_not_end⟩
  · intro l hl
    rw [List.head?_append_of_ne_nil _ hne] at hl
    exact h.first l hl
  · intro l hl
    rw [List.getLast?_append_of_ne_nil _ (List.cons_ne_nil _ _),
      List.getLast?_cons_of_ne_nil hne'] at hl
    exact h'.last l hl

/-- A header in front of lines that are not left out. -/
theorem cons (h : Tidy ls) (hne : ls ≠ []) (ht : l.text ≠ "") (he : ¬ l.IsEnd) :
    Tidy (l :: ls) := by
  constructor
  · apply List.IsChain.cons h.chain
    intro b hb
    exact Line.next_of_ne ht (h.first b hb).1
  · intro x hx
    obtain rfl : l = x := Option.some.inj hx
    exact ⟨ht, he⟩
  · intro x hx
    rw [List.getLast?_cons_of_ne_nil hne] at hx
    exact h.last x hx

/-- What is between a header and an end can be left out. -/
theorem enclose (h : Tidy ls) (ht : header.text ≠ "") (he : ¬ header.IsEnd)
    (ht' : ending.text ≠ "") (ho : ending.opens = false) : Tidy (header :: ls ++ [ending]) := by
  constructor
  · apply List.IsChain.append
    · apply List.IsChain.cons h.chain
      intro b hb
      exact Line.next_of_ne ht (h.first b hb).1
    · exact List.isChain_singleton ending
    · intro a ha b hb
      obtain rfl : ending = b := Option.some.inj hb
      refine Line.next_of_ne ?_ ht'
      cases ls with
      | nil =>
        obtain rfl : header = a := Option.some.inj ha
        exact ht
      | cons x ls =>
        rw [List.getLast?_cons_cons] at ha
        exact (h.last a ha).1
  · intro x hx
    obtain rfl : header = x := Option.some.inj hx
    exact ⟨ht, he⟩
  · intro x hx
    rw [List.getLast?_concat] at hx
    obtain rfl : ending = x := Option.some.inj hx
    exact ⟨ht', ho⟩

end Tidy

/-- A text with something in it, other than an end. -/
def Worded (s : String) : Prop := ∃ c ∈ s.toList, c ∉ [' ', '\t', 'e', 'n', 'd']

instance (s : String) : Decidable (Worded s) := List.decidableBEx _ s.toList

theorem Worded.front {s : String} (h : Worded s) (t : String) : Worded (s ++ t) := by
  obtain ⟨c, hc, hout⟩ := h
  exact ⟨c, by simp [hc], hout⟩

theorem Worded.back {t : String} (h : Worded t) (s : String) : Worded (s ++ t) := by
  obtain ⟨c, hc, hout⟩ := h
  exact ⟨c, by simp [hc], hout⟩

theorem Worded.ne {s : String} (h : Worded s) : s ≠ "" := by
  rintro rfl
  obtain ⟨c, hc, -⟩ := h
  cases hc

theorem Worded.not_end {s : String} (h : Worded s) (opens : Bool) : ¬ Line.IsEnd ⟨opens, s⟩ := by
  rintro ⟨pad, hpad, hs⟩
  obtain rfl : s = pad ++ "end" := hs
  obtain ⟨c, hc, hout⟩ := h
  rw [String.toList_append, List.mem_append] at hc
  rcases hc with hc | hc
  · rcases hpad c hc with rfl | rfl <;> exact hout (by decide)
  · have hend : c = 'e' ∨ c = 'n' ∨ c = 'd' := by simpa using hc
    rcases hend with rfl | rfl | rfl <;> exact hout (by decide)

theorem Worded.row {unit : String} {p : Phrase} (h : Worded (p.text unit)) (depth : Nat) :
    Worded (Row.line unit ⟨depth, p⟩) := by
  rw [line_of_ne h.ne]
  exact h.back _

theorem Worded.line {s : String} (h : Worded s) (unit : String) (depth : Nat) :
    Worded (Row.line unit ⟨depth, .plain s⟩) := by
  apply Worded.row
  rw [Phrase.text]
  exact h

theorem Tidy.texts {ls : List Line} (h : ∀ l ∈ ls, Worded l.text ∧ l.opens = false) : Tidy ls := by
  induction ls with
  | nil => exact .nil
  | cons l ls ih =>
    obtain ⟨⟨hl, ho⟩, hls⟩ := List.forall_mem_cons.mp h
    exact (Tidy.singleton hl.ne (hl.not_end l.opens) ho).append (ih hls)

mutual

def Block.written (unit : String) (depth : Nat) : Block → List Line
  | .line s => [⟨false, Row.line unit ⟨depth, .plain s⟩⟩]
  | .comment ls => (commentPhrases ls).map fun p => ⟨false, Row.line unit ⟨depth, p⟩⟩
  | .gap => [Line.blank]
  | .scope header body =>
    ⟨true, Row.line unit ⟨depth, .plain header⟩⟩ :: written unit (depth + 1) body ++
      [⟨false, Row.line unit ⟨depth, .plain "end"⟩⟩]
  | .under v body =>
    ⟨true, Row.line unit ⟨depth, .plain v.marker⟩⟩ :: written unit (depth + 1) body

/-- The lines that blocks are written as, with those marked that open something. -/
def written (unit : String) (depth : Nat) : List Block → List Line
  | [] => []
  | b :: rest => b.written unit depth ++ written unit depth rest

end

theorem written_append (unit : String) (depth : Nat) (bs cs : List Block) :
    written unit depth (bs ++ cs) = written unit depth bs ++ written unit depth cs := by
  induction bs with
  | nil => simp [written]
  | cons b bs ih => simp [written, ih]

mutual

theorem Block.written_text (unit : String) (depth : Nat) :
    ∀ b : Block, (b.written unit depth).map Line.text = (b.rows depth).map (·.line unit)
  | .line s => by simp [Block.written, Block.rows]
  | .comment ls => by simp [Block.written, Block.rows, Function.comp_def]
  | .gap => by simp [Block.written, Block.rows, Line.blank, Row.line, Phrase.text]
  | .scope header body => by
    have hbody := written_text unit (depth + 1) body
    rw [layout] at hbody
    simp [Block.written, Block.rows, hbody]
  | .under v body => by
    have hbody := written_text unit (depth + 1) body
    rw [layout] at hbody
    simp [Block.written, Block.rows, hbody]

theorem written_text (unit : String) (depth : Nat) :
    ∀ bs : List Block, (written unit depth bs).map Line.text = layout unit depth bs
  | [] => by simp [written, layout]
  | b :: bs => by
    rw [written, List.map_append, b.written_text unit depth, written_text unit depth bs, layout,
      layout, rows_cons, List.map_append]

end

theorem written_ne_nil {bs : List Block} (h : bs ≠ []) (unit : String) (depth : Nat) :
    written unit depth bs ≠ [] := by
  intro hnil
  apply layout_ne_nil h unit depth
  rw [← written_text, hnil, List.map_nil]

/-- Blocks without a blank line at an edge, wherever they are written. -/
def Spaced (bs : List Block) : Prop := ∀ unit depth, IsPad unit → Tidy (written unit depth bs)

namespace Spaced

variable {bs cs : List Block} {s : String}

theorem nil : Spaced [] := by
  intro unit depth _
  rw [written]
  exact .nil

theorem append (h : Spaced bs) (h' : Spaced cs) : Spaced (bs ++ cs) := by
  intro unit depth hu
  rw [written_append]
  exact (h unit depth hu).append (h' unit depth hu)

theorem flatMap {α : Type} {xs : List α} {f : α → List Block} (h : ∀ x ∈ xs, Spaced (f x)) :
    Spaced (xs.flatMap f) := by
  induction xs with
  | nil => exact nil
  | cons x xs ih =>
    obtain ⟨hx, hxs⟩ := List.forall_mem_cons.mp h
    rw [List.flatMap_cons]
    exact hx.append (ih hxs)

theorem map {α : Type} {xs : List α} {f : α → Block} (h : ∀ x ∈ xs, Spaced [f x]) :
    Spaced (xs.map f) := by
  rw [List.map_eq_flatMap]
  exact flatMap h

theorem line (h : Worded s) : Spaced [.line s] := by
  intro unit depth _
  rw [written, written, List.append_nil, Block.written]
  have hline := h.line unit depth
  exact .singleton hline.ne (hline.not_end false) rfl

theorem comment (ls : List String) : Spaced [.comment ls] := by
  intro unit depth _
  have hsharp : Worded "#" := by decide
  have hsharps : Worded "# " := by decide
  rw [written, written, List.append_nil, Block.written]
  apply Tidy.texts
  intro l hl
  obtain ⟨p, hp, rfl⟩ := List.mem_map.mp hl
  refine ⟨Worded.row ?_ depth, rfl⟩
  rcases mem_commentPhrases hp with rfl | ⟨s, -, rfl | rfl⟩
  · exact hsharp.front ""
  · exact hsharp.front (" " ++ s)
  · exact (hsharps.front unit).front s

theorem scope (h : Spaced bs) (hs : Worded s) : Spaced [.scope s bs] := by
  intro unit depth hu
  have hheader := hs.line unit depth
  have hend : Row.line unit ⟨depth, .plain "end"⟩ ≠ "" := by
    rw [line_of_ne (by rw [Phrase.text]; decide), Phrase.text]
    exact fun h => absurd (String.append_eq_empty_iff.mp h).2 (by decide)
  rw [written, written, List.append_nil, Block.written]
  exact (h unit (depth + 1) hu).enclose hheader.ne (hheader.not_end true) hend rfl

theorem under (v : Visibility) (h : Spaced bs) (hne : bs ≠ []) : Spaced [.under v bs] := by
  intro unit depth hu
  have hv : Worded v.marker := by cases v <;> decide
  have hmarker := hv.line unit depth
  rw [written, written, List.append_nil, Block.written]
  exact (h unit (depth + 1) hu).cons (written_ne_nil hne unit _) hmarker.ne (hmarker.not_end true)

/-- Groups are separated, as long as each has something in it. -/
theorem separated {gs : List (List Block)} (h : ∀ g ∈ gs, g ≠ [] ∧ Spaced g) :
    Spaced (separated gs) := by
  induction gs with
  | nil =>
    rw [separated_nil]
    exact nil
  | cons g gs ih =>
    obtain ⟨⟨hne, hg⟩, hgs⟩ := List.forall_mem_cons.mp h
    cases gs with
    | nil =>
      rw [separated_singleton]
      exact hg
    | cons g' gs =>
      have hrest : Source.separated (g' :: gs) ≠ [] :=
        separated_ne_nil (List.cons_ne_nil _ _) fun g hg => (hgs g hg).1
      intro unit depth hu
      rw [separated_cons_cons, written_append, written, Block.written, List.singleton_append]
      exact (hg unit depth hu).separate (ih hgs unit depth hu) (written_ne_nil hne unit depth)
        (written_ne_nil hrest unit depth)

end Spaced
end ClassScribe.Source
