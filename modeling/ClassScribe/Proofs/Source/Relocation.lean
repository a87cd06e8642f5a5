import Mathlib.Data.List.Induction
import ClassScribe.Proofs.Source.Emitters

/-! # Parts of a source can be moved

What a writer adds for a part of a source depends on its depth only by what stands in front of each
line. So a part is written inside a module as it is written at the margin, and the depth that the
writer comes back to is the least on its way.
-/
namespace ClassScribe.Source

variable {unit : String}

/-- A line some levels further in; an empty line has no indentation. -/
def pushedIn (unit : String) (depth : Nat) (line : String) : String :=
  if line = "" then "" else margin unit depth ++ line

theorem margin_add (unit : String) (m n : Nat) :
    margin unit (m + n) = margin unit m ++ margin unit n := by
  rw [margin, List.replicate_add, String.join_append, ← margin, ← margin]

def Row.deeper (n : Nat) (r : Row) : Row := { r with depth := n + r.depth }

theorem line_deeper (n : Nat) (r : Row) :
    (r.deeper n).line unit = pushedIn unit n (r.line unit) := by
  by_cases hs : r.phrase.text unit = ""
  · have hdeeper : (r.deeper n).line unit = "" := line_of_empty hs
    rw [line_of_empty hs, hdeeper, pushedIn, if_pos rfl]
  · have hne : r.line unit ≠ "" := by
      rw [line_of_ne hs]
      exact fun h => hs (String.append_eq_empty_iff.mp h).2
    have hdeeper : (r.deeper n).line unit = margin unit (n + r.depth) ++ r.phrase.text unit :=
      line_of_ne hs
    rw [pushedIn, if_neg hne, hdeeper, line_of_ne hs, margin_add, String.append_assoc]

mutual

theorem Block.rows_deeper (n depth : Nat) : ∀ b : Block,
    b.rows (n + depth) = (b.rows depth).map (Row.deeper n)
  | .line s => by
    rw [Block.rows, Block.rows]
    rfl
  | .comment ls => by
    rw [Block.rows, Block.rows, List.map_map]
    rfl
  | .gap => by
    rw [Block.rows, Block.rows]
    rfl
  | .scope header body => by
    have hbody := rows_deeper n (depth + 1) body
    rw [← Nat.add_assoc] at hbody
    rw [rows_scope, rows_scope, hbody, List.map_append, List.map_cons]
    rfl
  | .under v body => by
    have hbody := rows_deeper n (depth + 1) body
    rw [← Nat.add_assoc] at hbody
    rw [rows_under, rows_under, hbody, List.map_cons]
    rfl

theorem rows_deeper (n depth : Nat) : ∀ bs : List Block,
    rows (n + depth) bs = (rows depth bs).map (Row.deeper n)
  | [] => by rw [rows_nil, rows_nil, List.map_nil]
  | b :: bs => by
    rw [rows_cons, rows_cons, Block.rows_deeper n depth b, rows_deeper n depth bs, List.map_append]

end

/-- Blocks at a depth are the blocks at the margin, pushed in. -/
theorem layout_pushedIn (unit : String) (depth : Nat) (bs : List Block) :
    layout unit depth bs = (layout unit 0 bs).map (pushedIn unit depth) := by
  have hrows := rows_deeper depth 0 bs
  rw [Nat.add_zero] at hrows
  rw [layout, layout, hrows, List.map_map, List.map_map]
  exact List.map_congr_left fun r _ => line_deeper depth r

namespace Writer

/-- Commands that stay have no depth on their way that is less than the one they begin with. -/
theorem Stays.le {w : Writer} {cs front back : List Command} (h : w.Stays cs)
    (hcs : cs = front ++ back) : w.depth ≤ (w.run front).depth := by
  induction front using List.reverseRecOn generalizing back with
  | nil => exact Nat.le_refl _
  | append_singleton front c ih =>
    have hsplit : cs = front ++ c :: back := by rw [hcs, List.append_assoc, List.singleton_append]
    have hfront : w.depth ≤ (w.run front).depth := ih hsplit
    rw [run_append]
    cases c with
    | indent => exact Nat.le_succ_of_le hfront
    | outdent => exact Nat.le_sub_one_of_lt (h front back hsplit)
    | line s => exact hfront
    | blank => exact hfront

end Writer

theorem Session.mem_depths {w : Writer} {cs : List Command} {d : Nat}
    (h : d ∈ (Session.run ⟨w, []⟩ cs).depths) :
    ∃ front back, cs = front ++ back ∧ d = (w.run front).depth := by
  induction cs using List.reverseRecOn with
  | nil => cases h
  | append_singleton cs c ih =>
    rw [run_append] at h
    rcases List.mem_append.mp h with h | h
    · obtain ⟨front, back, hcs, hd⟩ := ih h
      exact ⟨front, back ++ [c], by rw [hcs, List.append_assoc], hd⟩
    · refine ⟨cs ++ [c], [], (List.append_nil _).symm, ?_⟩
      rw [List.mem_singleton.mp h, writer_run, Writer.run_append]
      rfl

/-- What an emitter makes of a writer. -/
def Emitter.on (e : Emitter Unit) (w : Writer) : Session := (e.run { writer := w }).run.2

/-- What an emitter does to a writer, whatever its depth: it writes some blocks, keeps the lines
that are there, comes back to its depth, has no smaller depth on the way, and adds the lines that a
new writer gets from it, pushed in. -/
structure Relocates (e : Emitter Unit) (bs : List Block) (w : Writer) : Prop where
  blocks : (e.on w).writer = w.write bs
  unit : (e.on w).writer.unit = w.unit
  depth : (e.on w).writer.depth = w.depth
  least : ∀ d ∈ (e.on w).depths, w.depth ≤ d
  lines : (e.on w).writer.lines.toList = w.lines.toList ++
    (e.on { unit := w.unit }).writer.lines.toList.map (pushedIn w.unit w.depth)

theorem Emitter.relocates {e : Emitter Unit} {bs : List Block}
    (h : ∀ s : Session, e.run s = pure ((), s.write bs)) (w : Writer) : Relocates e bs w := by
  have hon (w : Writer) : e.on w = Session.run ⟨w, []⟩ (commands w.unit bs) := by
    rw [on, h]
    rfl
  have hblocks (w : Writer) : (e.on w).writer = w.write bs := by
    rw [hon, Session.writer_run]
    rfl
  have hwrote := w.write_eq bs
  have hnew := Writer.write_eq { unit := w.unit } bs
  constructor
  · exact hblocks w
  · rw [hblocks, hwrote]
    rfl
  · rw [hblocks, hwrote]
    rfl
  · intro d hd
    rw [hon] at hd
    obtain ⟨front, back, hcs, rfl⟩ := Session.mem_depths hd
    exact (Writer.stays_allCommands w bs).le hcs
  · rw [hblocks, hblocks, hwrote, hnew]
    simp only [Writer.wrote, Array.toList_append, List.nil_append]
    congr 1
    exact layout_pushedIn w.unit w.depth bs

/-- Every part of a source is written at any depth as it is written at the margin. -/
theorem emitters_relocate (w : Writer) (o : Options) :
    (∀ text, Relocates (Emitter.documentation o text) (documentation o text) w) ∧
    (∀ as, Relocates (Emitter.accessors o as) (accessors o as) w) ∧
    (∀ stems, Relocates (Emitter.referenceAccessors stems) (referenceAccessors stems) w) ∧
    (∀ statics, Relocates (Emitter.sharedState statics) (sharedState statics) w) ∧
    (∀ as held, Relocates (Emitter.initializer as held) [initializer as held] w) ∧
    (∀ ops, Relocates (Emitter.stubs o ops) (stubs o ops) w) ∧
    (∀ v as ops, Relocates (Emitter.restricted o v as ops) [restricted o v as ops] w) ∧
    Relocates Emitter.textMethod [textMethod] w :=
  ⟨fun text => Emitter.relocates (Emitter.run_documentation · o text) w,
    fun as => Emitter.relocates (Emitter.run_accessors · o as) w,
    fun _ => Emitter.relocates (Emitter.run_line · _) w,
    fun statics => Emitter.relocates (Emitter.run_sharedState · statics) w,
    fun as held => Emitter.relocates (Emitter.run_initializer · as held) w,
    fun ops => Emitter.relocates (Emitter.run_stubs · o ops) w,
    fun v as ops => Emitter.relocates (Emitter.run_restricted · o v as ops) w,
    Emitter.relocates (Emitter.run_method · _ _) w⟩

example : (Emitter.textMethod.on { unit := "  ", depth := 1 }).depths = [1, 2, 2, 1, 1] := rfl

end ClassScribe.Source
