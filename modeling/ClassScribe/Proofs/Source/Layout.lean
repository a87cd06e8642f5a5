import ClassScribe.Proofs.Text.Lines
import ClassScribe.Source.Render

/-! # The layout of blocks

A writer keeps the depth of indentation as it goes from command to command. What it makes of blocks
can be said without it: rows, each with the depth it is written at. Only the longer comments know
the unit of indentation, so the rows of blocks are the same for every unit.
-/
namespace ClassScribe.Source

/-- What a row shows. The lines of a longer comment have the unit of indentation inside. -/
inductive Phrase where
  | plain (s : String)
  | remark (s : String)
  | inset (s : String)
  deriving DecidableEq, Repr

structure Row where
  depth : Nat
  phrase : Phrase
  deriving DecidableEq, Repr

def Phrase.text (unit : String) : Phrase → String
  | plain s => s
  | remark s => "#" ++ s
  | inset s => "# " ++ unit ++ s

/-- What stands in front of a line. -/
def margin (unit : String) (depth : Nat) : String := String.join (List.replicate depth unit)

def Row.line (unit : String) (r : Row) : String :=
  let s := r.phrase.text unit
  if s.isEmpty then "" else margin unit r.depth ++ s

def commentPhrases : List String → List Phrase
  | [s] => [.remark (" " ++ s)]
  | ls => .remark "" :: ls.map fun s => if s.isEmpty then .remark "" else .inset s

mutual

def Block.rows (depth : Nat) : Block → List Row
  | .line s => [⟨depth, .plain s⟩]
  | .comment ls => (commentPhrases ls).map (⟨depth, ·⟩)
  | .gap => [⟨depth, .plain ""⟩]
  | .scope header body =>
    ⟨depth, .plain header⟩ :: rows (depth + 1) body ++ [⟨depth, .plain "end"⟩]
  | .under v body => ⟨depth, .plain v.marker⟩ :: rows (depth + 1) body

def rows (depth : Nat) : List Block → List Row
  | [] => []
  | b :: rest => b.rows depth ++ rows depth rest

end

/-- The lines that blocks are written as. -/
def layout (unit : String) (depth : Nat) (bs : List Block) : List String :=
  (rows depth bs).map (·.line unit)

variable {unit : String} {depth : Nat}

@[simp] theorem rows_nil (depth : Nat) : rows depth [] = [] := by simp [rows]

@[simp] theorem rows_cons (depth : Nat) (b : Block) (bs : List Block) :
    rows depth (b :: bs) = b.rows depth ++ rows depth bs := by
  simp [rows]

@[simp] theorem rows_append (depth : Nat) (bs cs : List Block) :
    rows depth (bs ++ cs) = rows depth bs ++ rows depth cs := by
  induction bs with
  | nil => simp
  | cons b bs ih => simp [ih]

theorem rows_gap (depth : Nat) : Block.gap.rows depth = [⟨depth, .plain ""⟩] := by simp [Block.rows]

theorem rows_scope (depth : Nat) (header : String) (body : List Block) :
    (Block.scope header body).rows depth =
      ⟨depth, .plain header⟩ :: rows (depth + 1) body ++ [⟨depth, .plain "end"⟩] := by
  simp [Block.rows]

theorem rows_under (depth : Nat) (v : Visibility) (body : List Block) :
    (Block.under v body).rows depth = ⟨depth, .plain v.marker⟩ :: rows (depth + 1) body := by
  simp [Block.rows]

theorem line_of_empty {r : Row} (h : r.phrase.text unit = "") : r.line unit = "" := by
  simp [Row.line, h]

theorem line_of_ne {r : Row} (h : r.phrase.text unit ≠ "") :
    r.line unit = margin unit r.depth ++ r.phrase.text unit := by
  simp [Row.line, h]

/-- A line of a comment is a number sign alone or shows one of the texts. -/
theorem mem_commentPhrases {ls : List String} {p : Phrase} (h : p ∈ commentPhrases ls) :
    p = .remark "" ∨ ∃ s ∈ ls, p = .remark (" " ++ s) ∨ p = .inset s := by
  unfold commentPhrases at h
  split at h
  · exact .inr ⟨_, List.mem_cons_self, .inl (List.mem_singleton.mp h)⟩
  · rcases List.mem_cons.mp h with rfl | h
    · exact .inl rfl
    · obtain ⟨s, hs, rfl⟩ := List.mem_map.mp h
      split
      · exact .inl rfl
      · exact .inr ⟨s, hs, .inr rfl⟩

theorem layout_append (unit : String) (depth : Nat) (bs cs : List Block) :
    layout unit depth (bs ++ cs) = layout unit depth bs ++ layout unit depth cs := by
  simp [layout]

theorem layout_scope (unit : String) (depth : Nat) (header : String) (body : List Block) :
    layout unit depth [.scope header body] = Row.line unit ⟨depth, .plain header⟩ ::
      layout unit (depth + 1) body ++ [Row.line unit ⟨depth, .plain "end"⟩] := by
  rw [layout, rows_cons, rows_nil, List.append_nil, rows_scope, List.map_append, List.map_cons,
    List.map_singleton, layout]

theorem layout_under (unit : String) (depth : Nat) (v : Visibility) (body : List Block) :
    layout unit depth [.under v body] =
      Row.line unit ⟨depth, .plain v.marker⟩ :: layout unit (depth + 1) body := by
  rw [layout, rows_cons, rows_nil, List.append_nil, rows_under, List.map_cons, layout]

theorem layout_gap (unit : String) (depth : Nat) (bs : List Block) :
    layout unit depth (.gap :: bs) = "" :: layout unit depth bs := by
  rw [layout, rows_cons, rows_gap, List.map_append, List.map_singleton,
    line_of_empty (by rw [Phrase.text]), List.singleton_append, layout]

theorem separated_nil : separated [] = [] := by simp [separated]

theorem separated_singleton (g : List Block) : separated [g] = g := by simp [separated]

theorem separated_cons_cons (g h : List Block) (gs : List (List Block)) :
    separated (g :: h :: gs) = g ++ .gap :: separated (h :: gs) := by
  simp [separated, List.intercalate_cons_cons]

theorem intercalate_append {α : Type} {sep : List α} {xs ys : List (List α)} (hx : xs ≠ [])
    (hy : ys ≠ []) :
    sep.intercalate (xs ++ ys) = sep.intercalate xs ++ sep ++ sep.intercalate ys := by
  induction xs with
  | nil => exact absurd rfl hx
  | cons x xs ih =>
    cases xs with
    | nil =>
      rw [List.singleton_append, List.intercalate_cons_of_ne_nil hy, List.intercalate_singleton]
    | cons x' xs =>
      have hrest := ih (List.cons_ne_nil x' xs)
      rw [List.cons_append] at hrest
      rw [List.cons_append, List.cons_append, List.intercalate_cons_cons, hrest,
        List.intercalate_cons_cons]
      simp only [List.append_assoc]

theorem separated_append {gs hs : List (List Block)} (hg : gs ≠ []) (hh : hs ≠ []) :
    separated (gs ++ hs) = separated gs ++ .gap :: separated hs := by
  unfold separated
  rw [intercalate_append hg hh, List.append_assoc, List.singleton_append]

theorem separated_concat {gs : List (List Block)} (hg : gs ≠ []) (g : List Block) :
    separated (gs ++ [g]) = separated gs ++ .gap :: g := by
  rw [separated_append hg (List.cons_ne_nil g []), separated_singleton]

/-- Groups are written one by one, with a blank line between each two. -/
theorem layout_separated (unit : String) (depth : Nat) (gs : List (List Block)) :
    layout unit depth (separated gs) = [""].intercalate (gs.map (layout unit depth)) := by
  induction gs with
  | nil => simp [separated_nil, layout]
  | cons g gs ih =>
    cases gs with
    | nil => rw [separated_singleton, List.map_singleton, List.intercalate_singleton]
    | cons g' gs =>
      rw [separated_cons_cons, layout_append, layout_gap, ih]
      simp only [List.map_cons, List.intercalate_cons_cons, List.append_assoc,
        List.singleton_append]

theorem rows_lines (depth : Nat) (ss : List String) :
    rows depth (ss.map .line) = ss.map (⟨depth, .plain ·⟩) := by
  induction ss with
  | nil => exact rows_nil depth
  | cons s ss ih =>
    rw [List.map_cons, rows_cons, Block.rows, ih]
    rfl

theorem layout_lines {α : Type} (unit : String) (depth : Nat) (f : α → String) (xs : List α) :
    layout unit depth (xs.map fun x => .line (f x)) =
      xs.map fun x => Row.line unit ⟨depth, .plain (f x)⟩ := by
  have hlines : (xs.map fun x => Block.line (f x)) = (xs.map f).map .line := by
    rw [List.map_map]
    rfl
  rw [hlines, layout, rows_lines, List.map_map, List.map_map]
  rfl

/-- What can stand in front of a line. -/
def IsPad (s : String) : Prop := ∀ c ∈ s.toList, c = ' ' ∨ c = '\t'

theorem isPad_indentUnit (o : Options) : IsPad o.indentUnit := by
  intro c hc
  rw [Options.indentUnit] at hc
  split at hc
  · exact .inr (List.mem_singleton.mp hc)
  · rw [String.toList_ofList] at hc
    exact .inl (List.eq_of_mem_replicate hc)

theorem IsPad.margin (h : IsPad unit) (depth : Nat) : IsPad (margin unit depth) := by
  intro c hc
  simp only [Source.margin, String.toList_join, List.mem_flatMap] at hc
  obtain ⟨s, hs, hcs⟩ := hc
  exact h c (List.eq_of_mem_replicate hs ▸ hcs)

theorem IsPad.unbroken {s : String} (h : IsPad s) : Text.Unbroken s := by
  intro hb
  rcases h _ hb with he | he <;> exact absurd he (by decide)

theorem IsPad.isBlank {s : String} (h : IsPad s) : ∀ c ∈ s.toList, Text.isBlank c = true := by
  intro c hc
  rcases h c hc with rfl | rfl <;> decide

theorem toList_sharp (s : String) : ("#" ++ s).toList = '#' :: s.toList := by simp

theorem sharp_ne (s : String) : "#" ++ s ≠ "" := by
  intro h
  have hhead := toList_sharp s
  rw [h] at hhead
  cases hhead

theorem line_of_sharp {p : Phrase} {s : String} (h : p.text unit = "#" ++ s) (depth : Nat) :
    Row.line unit ⟨depth, p⟩ = margin unit depth ++ ("#" ++ s) := by
  rw [line_of_ne (h ▸ sharp_ne s), h]

/-- Every line of a comment begins with a number sign. -/
theorem text_of_commentPhrases (hu : IsPad unit) {ls : List String}
    (hls : ∀ s ∈ ls, Text.Unbroken s) {p : Phrase} (hp : p ∈ commentPhrases ls) :
    ∃ s, p.text unit = "#" ++ s ∧ Text.Unbroken s := by
  have hspace : Text.Unbroken " " := by decide
  have hsharp : "# " = "#" ++ " " := by decide
  rcases mem_commentPhrases hp with rfl | ⟨s, hs, rfl | rfl⟩
  · exact ⟨"", by rw [Phrase.text], by decide⟩
  · exact ⟨" " ++ s, by rw [Phrase.text], hspace.append (hls s hs)⟩
  · refine ⟨" " ++ (unit ++ s), ?_, hspace.append (hu.unbroken.append (hls s hs))⟩
    rw [Phrase.text, hsharp, String.append_assoc, String.append_assoc]

theorem documentation_cases (o : Options) (text : String) : documentation o text = [] ∨
    ∃ ls, documentation o text = [.comment ls] ∧ ∀ s ∈ ls, Text.Unbroken s := by
  unfold documentation
  split
  · exact .inl rfl
  · split
    · exact .inr ⟨_, rfl, fun s hs => Text.unbroken_of_trimmedLines hs⟩
    · exact .inl rfl

theorem Block.rows_ne_nil (depth : Nat) (b : Block) : b.rows depth ≠ [] := by
  cases b with
  | comment ls =>
    rw [Block.rows, ne_eq, List.map_eq_nil_iff]
    unfold commentPhrases
    split <;> exact List.cons_ne_nil _ _
  | _ =>
    rw [Block.rows]
    exact List.cons_ne_nil _ _

theorem layout_ne_nil {bs : List Block} (h : bs ≠ []) (unit : String) (depth : Nat) :
    layout unit depth bs ≠ [] := by
  obtain ⟨b, bs, rfl⟩ := List.exists_cons_of_ne_nil h
  rw [layout, rows_cons, List.map_append]
  exact List.append_ne_nil_of_left_ne_nil (mt List.map_eq_nil_iff.mp (b.rows_ne_nil depth)) _

theorem separated_ne_nil {gs : List (List Block)} (hne : gs ≠ []) (h : ∀ g ∈ gs, g ≠ []) :
    separated gs ≠ [] := by
  cases gs with
  | nil => exact absurd rfl hne
  | cons g gs =>
    have hg := h g List.mem_cons_self
    cases gs with
    | nil => rwa [separated_singleton]
    | cons g' gs =>
      rw [separated_cons_cons]
      exact List.append_ne_nil_of_left_ne_nil hg _

theorem inModules_ne_nil (above : List Block) {inner : List Block} (hi : inner ≠ [])
    (names : List String) : inModules above inner names ≠ [] := by
  unfold inModules
  split
  · exact hi
  · exact List.append_ne_nil_of_right_ne_nil _ (List.cons_ne_nil _ _)
  · exact List.cons_ne_nil _ _

theorem classDefinition_ne_nil (m : Model) (root : ElementId) (o : Options) (e : Element)
    (f : ClassFacts) : classDefinition m root o e f ≠ [] :=
  inModules_ne_nil _ (List.append_ne_nil_of_right_ne_nil _ (List.cons_ne_nil _ _)) _

theorem interfaceFile_ne_nil (o : Options) (e : Element) (ms : Members) :
    interfaceFile o e ms ≠ [] :=
  List.append_ne_nil_of_right_ne_nil _ (List.cons_ne_nil _ _)

namespace Writer

theorem run_append (w : Writer) (xs ys : List Command) : w.run (xs ++ ys) = (w.run xs).run ys := by
  simp [run]

theorem run_cons (w : Writer) (c : Command) (cs : List Command) :
    w.run (c :: cs) = (w.step c).run cs := rfl

/-- A writer after rows were written at its depth. -/
def wrote (w : Writer) (rs : List Row) : Writer :=
  { w with lines := w.lines ++ (rs.map (·.line w.unit)).toArray }

theorem wrote_nil (w : Writer) : w.wrote [] = w := by simp [wrote]

theorem wrote_append (w : Writer) (rs ss : List Row) :
    w.wrote (rs ++ ss) = (w.wrote rs).wrote ss := by
  simp [wrote]

theorem wrote_cons (w : Writer) (r : Row) (rs : List Row) :
    w.wrote (r :: rs) = (w.wrote [r]).wrote rs :=
  wrote_append w [r] rs

theorem step_line (w : Writer) (s : String) :
    w.step (.line s) = w.wrote [⟨w.depth, .plain s⟩] := by
  simp [step, wrote, Row.line, Phrase.text, margin, indentation]

theorem step_blank (w : Writer) : w.step .blank = w.wrote [⟨w.depth, .plain ""⟩] := by
  simp [step, wrote, Row.line, Phrase.text]

theorem commentLines_eq (unit : String) (ls : List String) :
    commentLines unit ls = (commentPhrases ls).map (·.text unit) := by
  have hrow (s : String) : (if s.isEmpty then "#" else "# " ++ unit ++ s) =
      (if s.isEmpty then Phrase.remark "" else .inset s).text unit := by
    by_cases hs : s = "" <;> simp [hs, Phrase.text]
  match ls with
  | [] => rfl
  | [s] => simp [commentLines, commentPhrases, Phrase.text, ← String.append_assoc]
  | s :: t :: ls =>
    refine congrArg ("#" :: ·) ?_
    rw [List.map_map]
    exact List.map_congr_left fun s _ => hrow s

theorem run_lines (w : Writer) (ps : List Phrase) :
    w.run (ps.map fun p => .line (p.text w.unit)) = w.wrote (ps.map (⟨w.depth, ·⟩)) := by
  induction ps generalizing w with
  | nil => exact (wrote_nil w).symm
  | cons p ps ih =>
    have hp : w.step (.line (p.text w.unit)) = w.wrote [⟨w.depth, p⟩] := by
      simp [step, wrote, Row.line, margin, indentation]
    rw [List.map_cons, run_cons, hp, List.map_cons, wrote_cons w _ (ps.map _)]
    exact ih (w.wrote [⟨w.depth, p⟩])

/-- What is written between indenting and outdenting is one level deeper. -/
theorem run_indented {w : Writer} {cs : List Command} {rs : List Row}
    (h : ({ w with depth := w.depth + 1 } : Writer).run cs =
      ({ w with depth := w.depth + 1 } : Writer).wrote rs) :
    w.run (.indent :: cs ++ [.outdent]) = w.wrote rs := by
  have hw : w.step .indent = { w with depth := w.depth + 1 } := rfl
  rw [List.cons_append, run_cons, hw, run_append, h]
  rfl

mutual

/-- Writing a block adds its rows at the depth of the writer and comes back to that depth. -/
theorem run_commands (w : Writer) : ∀ b : Block, w.run (b.commands w.unit) = w.wrote (b.rows w.depth)
  | .line s => by
    rw [Block.commands, Block.rows, run_cons, step_line]
    rfl
  | .comment ls => by
    rw [Block.commands, commentLines_eq, List.map_map, Block.rows]
    exact run_lines w (commentPhrases ls)
  | .gap => by
    rw [Block.commands, Block.rows, run_cons, step_blank]
    rfl
  | .scope header body => by
    let w' := w.wrote [⟨w.depth, .plain header⟩]
    have hbody : w'.run (.indent :: Source.commands w.unit body ++ [.outdent]) =
        w'.wrote (rows (w.depth + 1) body) :=
      run_indented (run_allCommands { w' with depth := w.depth + 1 } body)
    have hcs : (Block.scope header body).commands w.unit =
        .line header :: (.indent :: Source.commands w.unit body ++ [.outdent]) ++ [.line "end"] := by
      simp [Block.commands]
    have hhead : w.run (.line header :: (.indent :: Source.commands w.unit body ++ [.outdent])) =
        w'.wrote (rows (w.depth + 1) body) := by
      rw [run_cons, step_line]
      exact hbody
    rw [hcs, run_append, hhead, run_cons, step_line, rows_scope, wrote_append,
      wrote_cons w _ (rows (w.depth + 1) body)]
    rfl
  | .under v body => by
    let w' := w.wrote [⟨w.depth, .plain v.marker⟩]
    have hbody : w'.run (.indent :: Source.commands w.unit body ++ [.outdent]) =
        w'.wrote (rows (w.depth + 1) body) :=
      run_indented (run_allCommands { w' with depth := w.depth + 1 } body)
    have hcs : (Block.under v body).commands w.unit =
        .line v.marker :: (.indent :: Source.commands w.unit body ++ [.outdent]) := by
      simp [Block.commands]
    rw [hcs, run_cons, step_line, rows_under, wrote_cons w _ (rows (w.depth + 1) body)]
    exact hbody

theorem run_allCommands (w : Writer) :
    ∀ bs : List Block, w.run (Source.commands w.unit bs) = w.wrote (rows w.depth bs)
  | [] => by
    rw [Source.commands, rows_nil, wrote_nil]
    rfl
  | b :: rest => by
    rw [Source.commands, run_append, run_commands w b, rows_cons, wrote_append]
    exact run_allCommands (w.wrote (b.rows w.depth)) rest

end

/-- Commands that never outdent a writer below the depth they find it at. -/
def Stays (w : Writer) (cs : List Command) : Prop :=
  ∀ front back, cs = front ++ .outdent :: back → w.depth < (w.run front).depth

variable {w : Writer} {xs ys : List Command}

theorem stays_nil (w : Writer) : w.Stays [] := by
  intro front back h
  simp at h

theorem stays_of_lines {ss : List String} : w.Stays (ss.map .line) := by
  intro front back h
  have hmem : Command.outdent ∈ ss.map Command.line := h ▸ by simp
  simp at hmem

theorem Stays.append (hx : w.Stays xs) (hy : (w.run xs).Stays ys)
    (hd : w.depth ≤ (w.run xs).depth) : w.Stays (xs ++ ys) := by
  intro front back h
  rcases List.append_eq_append_iff.mp h with ⟨rest, rfl, hys⟩ | ⟨rest, hxs, hrest⟩
  · rw [run_append]
    exact Nat.lt_of_le_of_lt hd (hy rest back hys)
  · cases rest with
    | nil => exact absurd (hy [] back hrest.symm) (Nat.lt_irrefl _)
    | cons c rest =>
      obtain ⟨rfl, rfl⟩ := List.cons_eq_cons.mp hrest
      exact hx front rest hxs

/-- The outdenting that ends an indented part finds the writer one level deeper. -/
theorem Stays.indented (h : ({ w with depth := w.depth + 1 } : Writer).Stays xs)
    (hd : (({ w with depth := w.depth + 1 } : Writer).run xs).depth = w.depth + 1) :
    w.Stays (.indent :: xs ++ [.outdent]) := by
  intro front back hsplit
  cases front with
  | nil => cases hsplit
  | cons c front =>
    have htail : xs ++ [.outdent] = front ++ .outdent :: back := (List.cons_eq_cons.mp hsplit).2
    obtain rfl : .indent = c := (List.cons_eq_cons.mp hsplit).1
    change w.depth < (({ w with depth := w.depth + 1 } : Writer).run front).depth
    rcases List.eq_nil_or_concat back with rfl | ⟨back, c, rfl⟩
    · obtain rfl : xs = front := (List.append_inj' htail rfl).1
      omega
    · rw [List.concat_eq_append, ← List.cons_append, ← List.append_assoc] at htail
      exact Nat.lt_trans (Nat.lt_succ_self _) (h front back (List.append_inj' htail rfl).1)

mutual

theorem stays_commands (w : Writer) : ∀ b : Block, w.Stays (b.commands w.unit)
  | .line s => by
    have hs : w.Stays ([s].map .line) := stays_of_lines
    rw [Block.commands]
    exact hs
  | .comment ls => by
    rw [Block.commands]
    exact stays_of_lines
  | .gap => by
    intro front back h
    have hmem : Command.outdent ∈ Block.gap.commands w.unit := h ▸ by simp
    simp [Block.commands] at hmem
  | .scope header body => by
    let w' := w.step (.line header)
    have hbody : w'.Stays (.indent :: Source.commands w.unit body ++ [.outdent]) :=
      Stays.indented (stays_allCommands { w' with depth := w'.depth + 1 } body)
        (congrArg depth (run_allCommands { w' with depth := w'.depth + 1 } body))
    have hcs : (Block.scope header body).commands w.unit = [header].map .line ++
        ((.indent :: Source.commands w.unit body ++ [.outdent]) ++ ["end"].map .line) := by
      simp [Block.commands]
    have hd : (w'.run (.indent :: Source.commands w.unit body ++ [.outdent])).depth = w'.depth :=
      (congrArg depth (run_indented (run_allCommands { w' with depth := w'.depth + 1 } body))).trans
        rfl
    rw [hcs]
    exact stays_of_lines.append (hbody.append stays_of_lines (Nat.le_of_eq hd.symm)) (Nat.le_refl _)
  | .under v body => by
    let w' := w.step (.line v.marker)
    have hbody : w'.Stays (.indent :: Source.commands w.unit body ++ [.outdent]) :=
      Stays.indented (stays_allCommands { w' with depth := w'.depth + 1 } body)
        (congrArg depth (run_allCommands { w' with depth := w'.depth + 1 } body))
    have hcs : (Block.under v body).commands w.unit = [v.marker].map .line ++
        (.indent :: Source.commands w.unit body ++ [.outdent]) := by
      simp [Block.commands]
    rw [hcs]
    exact stays_of_lines.append hbody (Nat.le_refl _)

theorem stays_allCommands (w : Writer) : ∀ bs : List Block, w.Stays (Source.commands w.unit bs)
  | [] => by
    rw [Source.commands]
    exact stays_nil w
  | b :: rest => by
    have hb := run_commands w b
    have hd : (w.run (b.commands w.unit)).depth = w.depth := (congrArg depth hb).trans rfl
    rw [Source.commands]
    refine (stays_commands w b).append ?_ (Nat.le_of_eq hd.symm)
    rw [hb]
    exact stays_allCommands (w.wrote (b.rows w.depth)) rest

end

theorem write_eq (w : Writer) (bs : List Block) : w.write bs = w.wrote (rows w.depth bs) :=
  run_allCommands w bs

theorem write_append (w : Writer) (bs cs : List Block) :
    w.write (bs ++ cs) = (w.write bs).write cs := by
  rw [write_eq, rows_append, wrote_append, write_eq (w.write bs), write_eq w bs]
  rfl

end Writer

/-- The lines that a writer has at the end of a file. -/
def writtenLines (o : Options) (bs : List Block) : List String :=
  (Writer.write { unit := o.indentUnit } bs).lines.toList

theorem writtenLines_eq (o : Options) (bs : List Block) :
    writtenLines o bs = layout o.indentUnit 0 bs := by
  simp [writtenLines, Writer.write_eq, Writer.wrote, layout]

/-- A file is its lines with a line break between each two. -/
theorem print_written (o : Options) (bs : List Block) :
    print o bs = "\n".intercalate (writtenLines o bs) :=
  rfl

/-- The lines of the file of a class or an interface. -/
def fileLines? (m : Model) (root : ElementId) (o : Options) (i : ElementId) :
    Option (List String) := do
  let e ← m.element? i
  let bs ← blocks? m root o e
  return writtenLines o bs

theorem render?_lines (m : Model) (root : ElementId) (o : Options) (i : ElementId) :
    render? m root o i =
      (fileLines? m root o i).map fun ls => ⟨fileName m i, "\n".intercalate ls⟩ := by
  rw [render?, fileLines?]
  cases m.element? i with
  | none => rfl
  | some e => cases h : blocks? m root o e <;> simp [h, print_written]

theorem print_eq (o : Options) (bs : List Block) :
    print o bs = "\n".intercalate (layout o.indentUnit 0 bs) := by
  rw [print_written, writtenLines_eq]

theorem print_lines (o : Options) (ss : List String) :
    print o (ss.map .line) = "\n".intercalate ss := by
  have hline (s : String) : Row.line o.indentUnit ⟨0, .plain s⟩ = s := by
    by_cases hs : s = "" <;> simp [Row.line, Phrase.text, margin, hs]
  rw [print_eq, layout, rows_lines, List.map_map]
  simp [Function.comp_def, hline]

/-- Groups are printed one by one, with a blank line between each two. -/
theorem print_separated (o : Options) {gs : List (List Block)} (h : ∀ g ∈ gs, g ≠ []) :
    print o (separated gs) = "\n\n".intercalate (gs.map (print o)) := by
  induction gs with
  | nil => simp [separated_nil, print_eq, layout]
  | cons g gs ih =>
    obtain ⟨hg, hgs⟩ := List.forall_mem_cons.mp h
    cases gs with
    | nil => rw [separated_singleton, List.map_singleton, String.intercalate_singleton]
    | cons g' gs =>
      have hrest := layout_ne_nil (separated_ne_nil (List.cons_ne_nil g' gs) hgs) o.indentUnit 0
      have hlayout : layout o.indentUnit 0 (separated (g :: g' :: gs)) =
          layout o.indentUnit 0 g ++ "" :: layout o.indentUnit 0 (separated (g' :: gs)) := by
        rw [separated_cons_cons, layout_append, layout_gap]
      have houter : "\n\n".intercalate ((g :: g' :: gs).map (print o)) =
          print o g ++ "\n\n" ++ "\n\n".intercalate ((g' :: gs).map (print o)) :=
        String.intercalate_cons_cons
      have hbreaks : "\n\n" = "\n" ++ "\n" := by decide
      rw [houter, ← ih hgs, print_eq, hlayout,
        String.intercalate_append_of_ne_nil (layout_ne_nil hg _ 0) (List.cons_ne_nil _ _),
        String.intercalate_cons_of_ne_nil hrest, ← print_eq, ← print_eq, hbreaks,
        String.empty_append, String.append_assoc, String.append_assoc, String.append_assoc]

end ClassScribe.Source
