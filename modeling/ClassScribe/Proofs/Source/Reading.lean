import Mathlib.Data.List.Forall2
import ClassScribe.Proofs.Source.Layout

/-! # Reading the body of a class

A body is read line by line, with a visibility that a marker switches for all lines that follow.
What is not a marker, a comment or a blank line belongs to an item, which is read under the
visibility at that point. A reading of blocks is one for every place they can be written at, so
readings are put together as blocks are.
-/
namespace ClassScribe.Source
open Text

/-- What the body of a class or an interface consists of. -/
inductive Item where
  | inclusion (name : String)
  | readers (names : List String)
  | accessors (names : List String)
  | getter (name : String)
  | setter (name : String)
  | constant (name value : String)
  | hiddenConstant (name : String)
  | classVariable (name value : String)
  /-- A method that sets a field for every name, and makes an object of a constant for every held
  reference. -/
  | initializer (names : List String) (held : List (String × String))
  | stub (name : String) (parameters : List String)
  | display
  deriving DecidableEq, Repr

/-- The lines of an item, without their indentation. -/
def Item.texts : Item → List String
  | inclusion n => ["include " ++ n]
  | readers ns => ["attr_reader " ++ symbols ns]
  | accessors ns => ["attr_accessor " ++ symbols ns]
  | getter n => ["def " ++ n, "@" ++ n, "end"]
  | setter n => ["def " ++ n ++ "=(value)", "@" ++ n ++ " = value", "end"]
  | constant n value => [n ++ " = " ++ value]
  | hiddenConstant n => ["private_constant :" ++ n]
  | classVariable n value => ["@@" ++ n ++ " = " ++ value]
  | initializer ns held =>
    signature "initialize" ns :: ns.map (fun n => "@" ++ n ++ " = " ++ n) ++
      held.map (fun h => "@" ++ h.1 ++ " = " ++ h.2 ++ ".new") ++ ["end"]
  | stub n ps => [signature n ps, "# TODO: Implement this method here.", "end"]
  | display =>
    ["def to_s", "\"Your string representation of the object will be written here.\"", "end"]

/-- A line is a text without line breaks behind its indentation. -/
structure Shows (line text : String) : Prop where
  unbroken : Unbroken text
  padded : ∃ pad, IsPad pad ∧ line = pad ++ text

/-- Lines that are read from one visibility to another, and the items among them, each with the
visibility it is read under. -/
inductive Reads : Visibility → List String → List (Visibility × Item) → Visibility → Prop
  | done {v} : Reads v [] [] v
  | blank {v ls xs w} : Reads v ls xs w → Reads v ("" :: ls) xs w
  | comment {v l s ls xs w} : Shows l ("#" ++ s) → Reads v ls xs w → Reads v (l :: ls) xs w
  | marker {v l ls xs w} (u : Visibility) : Shows l u.marker → Reads u ls xs w →
      Reads v (l :: ls) xs w
  | item {v shown ls xs w} (i : Item) : List.Forall₂ Shows shown i.texts → Reads v ls xs w →
      Reads v (shown ++ ls) ((v, i) :: xs) w

theorem Shows.line_unbroken {l s : String} (h : Shows l s) : Unbroken l := by
  obtain ⟨pad, hpad, rfl⟩ := h.padded
  exact hpad.unbroken.append h.unbroken

theorem padded_line {unit : String} (hu : IsPad unit) (depth : Nat) (s : String) :
    ∃ pad, IsPad pad ∧ Row.line unit ⟨depth, .plain s⟩ = pad ++ s := by
  have ht : Phrase.text unit (.plain s) = s := by rw [Phrase.text]
  by_cases h : s = ""
  · rw [line_of_empty (ht.trans h)]
    exact ⟨"", by simp [IsPad], by simp [h]⟩
  · rw [line_of_ne (by rwa [ht]), ht]
    exact ⟨_, hu.margin depth, rfl⟩

theorem shows_line {unit s : String} (hu : IsPad unit) (hs : Unbroken s) (depth : Nat) :
    Shows (Row.line unit ⟨depth, .plain s⟩) s :=
  ⟨hs, padded_line hu depth s⟩

/-- The lines of rows with given texts, each at a depth of its own. -/
theorem lines_rows {unit : String} {R : String → String → Prop} {ts : List String}
    (hR : ∀ depth, ∀ s ∈ ts, R (Row.line unit ⟨depth, .plain s⟩) s) {rs : List Row}
    (h : rs.map Row.phrase = ts.map .plain) : List.Forall₂ R (rs.map (·.line unit)) ts := by
  induction rs generalizing ts with
  | nil =>
    rw [List.map_eq_nil_iff.mp h.symm]
    exact .nil
  | cons r rs ih =>
    cases ts with
    | nil => cases h
    | cons t ts =>
      obtain ⟨hr, hrs⟩ := List.cons_eq_cons.mp h
      obtain ⟨d, p⟩ := r
      obtain rfl : p = .plain t := hr
      exact .cons (hR d t List.mem_cons_self)
        (ih (fun depth s hs => hR depth s (List.mem_cons_of_mem _ hs)) hrs)

theorem shows_rows {unit : String} (hu : IsPad unit) {ts : List String}
    (ht : ∀ s ∈ ts, Unbroken s) {rs : List Row} (h : rs.map Row.phrase = ts.map .plain) :
    List.Forall₂ Shows (rs.map (·.line unit)) ts :=
  lines_rows (fun depth s hs => shows_line hu (ht s hs) depth) h

theorem unbroken_of_shows {shown ts : List String} (h : List.Forall₂ Shows shown ts) :
    ∀ l ∈ shown, Unbroken l := by
  induction h with
  | nil => simp
  | cons hl _ ih => exact List.forall_mem_cons.mpr ⟨hl.line_unbroken, ih⟩

theorem reads_comments {unit : String} (hu : IsPad unit) (depth : Nat) {v : Visibility}
    {ps : List Phrase} (h : ∀ p ∈ ps, ∃ s, p.text unit = "#" ++ s ∧ Unbroken s) :
    Reads v (ps.map fun p => Row.line unit ⟨depth, p⟩) [] v := by
  induction ps with
  | nil => exact .done
  | cons p ps ih =>
    obtain ⟨⟨s, hp, hs⟩, hps⟩ := List.forall_mem_cons.mp h
    exact .comment ⟨Unbroken.append (by decide) hs, _, hu.margin depth, line_of_sharp hp depth⟩
      (ih hps)

namespace Reads

variable {v w z : Visibility} {ls ls' : List String} {xs ys : List (Visibility × Item)}

theorem append (h : Reads v ls xs w) (h' : Reads w ls' ys z) :
    Reads v (ls ++ ls') (xs ++ ys) z := by
  induction h with
  | done => exact h'
  | blank _ ih => exact .blank (ih h')
  | comment hl _ ih => exact .comment hl (ih h')
  | marker u hl _ ih => exact .marker u hl (ih h')
  | item i hi _ ih =>
    rw [List.append_assoc]
    exact .item i hi (ih h')

theorem unbroken (h : Reads v ls xs w) : ∀ l ∈ ls, Unbroken l := by
  induction h with
  | done => simp
  | blank _ ih => exact List.forall_mem_cons.mpr ⟨by decide, ih⟩
  | comment hl _ ih => exact List.forall_mem_cons.mpr ⟨hl.line_unbroken, ih⟩
  | marker u hl _ ih => exact List.forall_mem_cons.mpr ⟨hl.line_unbroken, ih⟩
  | item i hi _ ih =>
    intro l hl
    exact (List.mem_append.mp hl).elim (unbroken_of_shows hi l) (ih l)

end Reads

/-- Blocks that are read in one way, wherever they are written. -/
def Reading (v : Visibility) (bs : List Block) (xs : List (Visibility × Item)) (w : Visibility) :
    Prop :=
  ∀ unit depth, IsPad unit → Reads v (layout unit depth bs) xs w

namespace Reading

variable {v w z : Visibility} {bs cs : List Block} {xs ys : List (Visibility × Item)}

theorem nil (v : Visibility) : Reading v [] [] v := by
  intro unit depth _
  rw [layout, rows_nil]
  exact .done

theorem append (h : Reading v bs xs w) (h' : Reading w cs ys z) :
    Reading v (bs ++ cs) (xs ++ ys) z := by
  intro unit depth hu
  rw [layout_append]
  exact (h unit depth hu).append (h' unit depth hu)

theorem gap (h : Reading v bs xs w) : Reading v (.gap :: bs) xs w := by
  intro unit depth hu
  rw [layout_gap]
  exact .blank (h unit depth hu)

theorem under (u : Visibility) (h : Reading u bs xs w) : Reading v [.under u bs] xs w := by
  intro unit depth hu
  have hm : Unbroken u.marker := by cases u <;> decide
  rw [layout_under]
  exact .marker u (shows_line hu hm depth) (h unit (depth + 1) hu)

/-- An item, from blocks that are written as its lines. -/
theorem item (i : Item) (hi : ∀ s ∈ i.texts, Unbroken s)
    (h : ∀ depth, (rows depth bs).map Row.phrase = i.texts.map .plain) :
    Reading v bs [(v, i)] v := by
  intro unit depth hu
  rw [← List.append_nil (layout unit depth bs)]
  exact .item i (shows_rows hu hi (h depth)) .done

theorem documentation (v : Visibility) (o : Options) (text : String) :
    Reading v (documentation o text) [] v := by
  intro unit depth hu
  rcases documentation_cases o text with h | ⟨ls, h, hls⟩
  · rw [h, layout, rows_nil]
    exact .done
  · rw [h, layout, rows_cons, rows_nil, List.append_nil, Block.rows, List.map_map]
    exact reads_comments hu depth fun p hp => text_of_commentPhrases hu hls hp

theorem separated_append {gs hs : List (List Block)} (h : Reading v (separated gs) xs w)
    (h' : Reading w (separated hs) ys z) : Reading v (separated (gs ++ hs)) (xs ++ ys) z := by
  by_cases hg : gs = []
  · subst hg
    rw [separated_nil] at h
    exact h.append h'
  · by_cases hh : hs = []
    · subst hh
      rw [separated_nil] at h'
      rw [List.append_nil, ← List.append_nil (separated gs)]
      exact h.append h'
    · rw [Source.separated_append hg hh]
      exact h.append h'.gap

theorem line (v : Visibility) {s : String} (i : Item) (hi : i.texts = [s]) (hs : Unbroken s) :
    Reading v [.line s] [(v, i)] v :=
  item i (by simpa [hi] using hs) (by simp [Block.rows, hi])

theorem scope (v : Visibility) {header : String} {inside : List String} (i : Item)
    (hi : i.texts = header :: inside ++ ["end"]) (hs : ∀ s ∈ header :: inside, Unbroken s) :
    Reading v [.scope header (inside.map .line)] [(v, i)] v := by
  refine item i (fun s h => ?_) fun depth => ?_
  · rw [hi] at h
    rcases List.mem_append.mp h with h | h
    · exact hs s h
    · rw [List.mem_singleton.mp h]
      decide
  · rw [rows_cons, rows_nil, List.append_nil, rows_scope, rows_lines, hi]
    simp

theorem method (v : Visibility) {header body : String} (i : Item)
    (hi : i.texts = [header, body, "end"]) (hh : Unbroken header) (hb : Unbroken body) :
    Reading v [method header body] [(v, i)] v := by
  have htexts : i.texts = header :: [body] ++ ["end"] := hi
  exact scope v i htexts (by simp [hh, hb])

/-- Items that are read under one visibility. -/
theorem flatMap {α : Type} {v : Visibility} {f : α → List Block} {g : α → List Item} {as : List α}
    (h : ∀ a ∈ as, Reading v (f a) ((g a).map (v, ·)) v) :
    Reading v (as.flatMap f) ((as.flatMap g).map (v, ·)) v := by
  induction as with
  | nil => exact nil v
  | cons a as ih =>
    obtain ⟨ha, has⟩ := List.forall_mem_cons.mp h
    rw [List.flatMap_cons, List.flatMap_cons, List.map_append]
    exact ha.append (ih has)

theorem map {α : Type} {v : Visibility} {f : α → Block} {g : α → Item} {as : List α}
    (h : ∀ a ∈ as, Reading v [f a] [(v, g a)] v) :
    Reading v (as.map f) ((as.map g).map (v, ·)) v := by
  rw [List.map_eq_flatMap, List.map_eq_flatMap (l := as)]
  exact flatMap h

theorem separated_flatMap {α : Type} {v : Visibility} {f : α → List (List Block)}
    {g : α → List Item} {as : List α}
    (h : ∀ a ∈ as, Reading v (separated (f a)) ((g a).map (v, ·)) v) :
    Reading v (separated (as.flatMap f)) ((as.flatMap g).map (v, ·)) v := by
  induction as with
  | nil =>
    rw [List.flatMap_nil, separated_nil]
    exact nil v
  | cons a as ih =>
    obtain ⟨ha, has⟩ := List.forall_mem_cons.mp h
    rw [List.flatMap_cons, List.flatMap_cons, List.map_append]
    exact ha.separated_append (ih has)

theorem separated_map {α : Type} {v : Visibility} {f : α → List Block} {g : α → Item} {as : List α}
    (h : ∀ a ∈ as, Reading v (f a) [(v, g a)] v) :
    Reading v (separated (as.map f)) ((as.map g).map (v, ·)) v := by
  rw [List.map_eq_flatMap, List.map_eq_flatMap (l := as)]
  refine separated_flatMap fun a ha => ?_
  rw [separated_singleton]
  exact h a ha

/-- What is left out when it has no items. -/
theorem guarded {b : Bool} {v : Visibility} {xs : List Item} (h : Reading v bs (xs.map (v, ·)) v) :
    Reading v (if b then [] else bs) ((if b then [] else xs).map (v, ·)) v := by
  cases b with
  | true => exact nil v
  | false => exact h

theorem separated_guarded {b : Bool} {v : Visibility} {xs : List Item} (hb : b = true → xs = [])
    (h : Reading v bs (xs.map (v, ·)) v) :
    Reading v (separated (if b then [] else [bs])) (xs.map (v, ·)) v := by
  cases b with
  | true =>
    rw [hb rfl, if_pos rfl, separated_nil]
    exact nil v
  | false =>
    rw [if_neg Bool.false_ne_true, separated_singleton]
    exact h

end Reading
end ClassScribe.Source
