import Mathlib.Data.List.DropRight
import ClassScribe.Proofs.Json.Text

/-! # Texts as they are spelled

One value can be spelled in many ways: with blanks between its parts, with escapes in its texts and
with its members in any order. A spelling is a text taken apart into its values and members, with
everything that was written. What is read from the text of a spelling is the value it spells.
-/
namespace ClassScribe.Json

structure Gap where
  chars : List Char
  blank : ∀ c ∈ chars, isSpace c = true

def Gap.none : Gap := ⟨[], nofun⟩

@[simp] theorem skipSpace_gap (g : Gap) (cs : List Char) :
    skipSpace (g.chars ++ cs) = skipSpace cs := by
  rw [skipSpace, List.dropWhile_append_of_pos g.blank, skipSpace]

theorem skipSpace_skipSpace (cs : List Char) : skipSpace (skipSpace cs) = skipSpace cs := by
  rw [skipSpace, skipSpace, List.dropWhile_idempotent]

/-- What can stand behind a value: nothing, a blank, or the end of an item or of a member. -/
def Ends (rest : List Char) : Prop :=
  ∀ c ∈ rest.head?, isSpace c = true ∨ c = ',' ∨ c = ']' ∨ c = '}'

theorem ends_nil : Ends [] := nofun

theorem ends_cons {c : Char} (h : c = ',' ∨ c = ']' ∨ c = '}') (rest : List Char) :
    Ends (c :: rest) := by
  intro d hd
  obtain rfl : c = d := Option.some.inj hd
  exact .inr h

theorem ends_gap (g : Gap) {rest : List Char} (h : Ends rest) : Ends (g.chars ++ rest) := by
  intro c hc
  cases hg : g.chars with
  | nil =>
    rw [hg] at hc
    exact h c hc
  | cons d ds =>
    rw [hg] at hc
    obtain rfl : d = c := Option.some.inj hc
    exact .inl (g.blank d (hg ▸ List.mem_cons_self))

/-- A text in quotes from behind its first quote on. -/
structure Quoted where
  chars : List Char
  /-- None when an escape in it names no character. -/
  text : Option String
  reads : ∀ rest, readText {} (chars ++ rest) = some (text, rest)

def Sketch.isScalar : Sketch → Bool
  | .null => true
  | .flag _ => true
  | .number _ => true
  | .text _ => true
  | _ => false

/-- A value that is neither a list nor a record, as it is written. -/
structure Scalar where
  chars : List Char
  shown : Sketch
  single : shown.isScalar = true
  reads : ∀ fuel rest, Ends rest → readValue (fuel + 1) (chars ++ rest) = (shown, some rest)

theorem readValue_quote {fuel : Nat} {cs rest : List Char} {s : Option String}
    (h : readText {} cs = some (s, rest)) :
    readValue (fuel + 1) ('"' :: cs) = (.text s, some rest) := by
  rw [readValue, skipSpace_of_not (by decide)]
  simp only [h]

def Quoted.scalar (q : Quoted) : Scalar where
  chars := '"' :: q.chars
  shown := .text q.text
  single := rfl
  reads := fun _ rest _ => readValue_quote (q.reads rest)

/-- Every text can be written. -/
def Quoted.of (s : String) : Quoted where
  chars := s.toList.flatMap escapeChar ++ ['"']
  text := some s
  reads := fun rest => by
    have hchars := readText_chars [] s.toList rest
    rw [List.reverse_nil, List.nil_append, String.ofList_toList] at hchars
    rwa [List.append_assoc]

def Scalar.null : Scalar where
  chars := "null".toList
  shown := .null
  single := rfl
  reads := fun fuel rest _ => by simp [readValue, skipSpace, isSpace, word]

def Scalar.flag (b : Bool) : Scalar where
  chars := flagChars b
  shown := .flag b
  single := rfl
  reads := fun fuel rest _ => by
    cases b <;> simp [flagChars, readValue, skipSpace, isSpace, word]

/-- The blanks in front of a value, inside it if it is an empty list or record, and behind it. -/
structure Spacing where
  before : Gap
  inside : Gap
  after : Gap

def Spacing.none : Spacing := ⟨.none, .none, .none⟩

structure Key where
  before : Gap
  quoted : Quoted
  after : Gap

namespace Key

def text (k : Key) : Option String := k.quoted.text

def chars (k : Key) : List Char := k.before.chars ++ '"' :: (k.quoted.chars ++ k.after.chars)

end Key

inductive Spelling where
  | scalar (g : Spacing) (s : Scalar)
  | list (g : Spacing) (items : List Spelling)
  | record (g : Spacing) (members : List (Key × Spelling))

namespace Spelling

mutual

def chars : Spelling → List Char
  | scalar g s => g.before.chars ++ (s.chars ++ g.after.chars)
  | list g items => g.before.chars ++ '[' :: (itemChars g.inside items ++ g.after.chars)
  | record g members => g.before.chars ++ '{' :: (memberChars g.inside members ++ g.after.chars)

/-- Items and what ends them. -/
def itemChars (inside : Gap) : List Spelling → List Char
  | [] => inside.chars ++ [']']
  | [v] => v.chars ++ [']']
  | v :: rest => v.chars ++ ',' :: itemChars inside rest

def memberChars (inside : Gap) : List (Key × Spelling) → List Char
  | [] => inside.chars ++ ['}']
  | [(k, v)] => k.chars ++ ':' :: (v.chars ++ ['}'])
  | (k, v) :: rest => k.chars ++ ':' :: (v.chars ++ ',' :: memberChars inside rest)

end

def text (v : Spelling) : String := String.ofList v.chars

def spacing : Spelling → Spacing
  | scalar g _ => g
  | list g _ => g
  | record g _ => g

mutual

/-- The value that is spelled. -/
def sketch : Spelling → Sketch
  | scalar _ s => s.shown
  | list _ items => .list (itemSketches items) true
  | record _ members => .record (memberSketches members) true

def itemSketches : List Spelling → List Sketch
  | [] => []
  | v :: rest => v.sketch :: itemSketches rest

def memberSketches : List (Key × Spelling) → List (Option String × Sketch)
  | [] => []
  | (k, v) :: rest => (k.text, v.sketch) :: memberSketches rest

end

theorem itemChars_cons_cons (inside : Gap) (v w : Spelling) (rest : List Spelling) :
    itemChars inside (v :: w :: rest) = v.chars ++ ',' :: itemChars inside (w :: rest) := by
  rw [itemChars]
  nofun

theorem memberChars_cons_cons (inside : Gap) (k : Key) (v : Spelling) (m : Key × Spelling)
    (rest : List (Key × Spelling)) : memberChars inside ((k, v) :: m :: rest) =
      k.chars ++ ':' :: (v.chars ++ ',' :: memberChars inside (m :: rest)) := by
  rw [memberChars]
  nofun

theorem readValue_skipSpace (fuel : Nat) (cs : List Char) :
    readValue fuel (skipSpace cs) = readValue fuel cs := by
  cases fuel with
  | zero => rw [readValue, readValue]
  | succ fuel => rw [readValue, readValue, skipSpace_skipSpace]

theorem readItems_skipSpace (fuel : Nat) (cs : List Char) :
    readItems fuel (skipSpace cs) = readItems fuel cs := by
  cases fuel with
  | zero => rw [readItems, readItems]
  | succ fuel => rw [readItems, readItems, readValue_skipSpace]

theorem readMembers_skipSpace (fuel : Nat) (cs : List Char) :
    readMembers fuel (skipSpace cs) = readMembers fuel cs := by
  cases fuel with
  | zero => rw [readMembers, readMembers]
  | succ fuel => rw [readMembers, readMembers, skipSpace_skipSpace]

theorem readValue_gap (g : Gap) (fuel : Nat) (cs : List Char) :
    readValue fuel (g.chars ++ cs) = readValue fuel cs := by
  rw [← readValue_skipSpace, skipSpace_gap, readValue_skipSpace]

theorem readValue_bracket (fuel : Nat) (cs : List Char) :
    readValue fuel (']' :: cs) = (.broken, none) := by
  cases fuel with
  | zero => rw [readValue]
  | succ fuel => simp [readValue, skipSpace_of_not, isSpace, word]

/-- Items that are read to their end are not the end itself. -/
theorem readValue_items {fuel : Nat} {cs rest : List Char} {items : List Sketch}
    (h : readItems fuel cs = (items, true, some rest)) :
    readValue (fuel + 1) ('[' :: cs) = (.list items true, some rest) := by
  rw [readValue, skipSpace_of_not (by decide)]
  simp only []
  split
  · rename_i hend
    rw [← readItems_skipSpace, hend] at h
    cases fuel with
    | zero => simp [readItems] at h
    | succ fuel => simp [readItems, readValue_bracket] at h
  · rw [readItems_skipSpace, h]

theorem readValue_members {fuel : Nat} {cs rest : List Char}
    {members : List (Option String × Sketch)}
    (h : readMembers fuel cs = (members, true, some rest)) :
    readValue (fuel + 1) ('{' :: cs) = (.record members true, some rest) := by
  rw [readValue, skipSpace_of_not (by decide)]
  simp only []
  split
  · rename_i hend
    rw [← readMembers_skipSpace, hend] at h
    cases fuel with
    | zero => simp [readMembers] at h
    | succ fuel => simp [readMembers, skipSpace_of_not, isSpace] at h
  · rw [readMembers_skipSpace, h]

theorem readMembers_key {fuel : Nat} {k : Key} {v : Sketch} {cs rest : List Char}
    (h : readValue fuel cs = (v, some rest)) :
    readMembers (fuel + 1) (k.chars ++ ':' :: cs) =
      match skipSpace rest with
      | '}' :: rest => ([(k.text, v)], true, some rest)
      | ',' :: rest =>
        let (members, closed, rest) := readMembers fuel rest
        ((k.text, v) :: members, closed, rest)
      | _ => ([(k.text, v)], false, none) := by
  have hkey := k.quoted.reads (k.after.chars ++ ':' :: cs)
  rw [readMembers, Key.chars, List.append_assoc, skipSpace_gap, List.cons_append, List.append_assoc,
    skipSpace_of_not (by decide)]
  simp only [hkey, skipSpace_gap]
  rw [skipSpace_of_not (by decide)]
  simp only [h]
  rfl

mutual

/-- The text of a spelling is read to its end, whatever follows. -/
theorem readValue_chars : ∀ (v : Spelling) (fuel : Nat) (rest : List Char), Ends rest →
    2 * v.chars.length < fuel →
      readValue fuel (v.chars ++ rest) = (v.sketch, some (v.spacing.after.chars ++ rest))
  | _, 0, _, _, hfuel => absurd hfuel (Nat.not_lt_zero _)
  | scalar g s, fuel + 1, rest, hrest, _ => by
    rw [chars, List.append_assoc, List.append_assoc, readValue_gap, sketch,
      s.reads fuel _ (ends_gap g.after hrest)]
    rfl
  | list g [], fuel + 1, rest, _, _ => by
    rw [chars, itemChars, List.append_assoc, List.cons_append, List.append_assoc, List.append_assoc,
      readValue_gap, readValue, skipSpace_of_not (by decide)]
    simp only [skipSpace_gap, List.cons_append, List.nil_append]
    rw [skipSpace_of_not (by decide), sketch, itemSketches]
    rfl
  | list g (v :: vs), fuel + 1, rest, _, hfuel => by
    rw [chars, List.length_append, List.length_cons, List.length_append] at hfuel
    have hitems := readItems_itemChars g.inside v vs fuel (g.after.chars ++ rest) (by omega)
    rw [chars, List.append_assoc, List.cons_append, List.append_assoc, readValue_gap, sketch,
      readValue_items hitems]
    rfl
  | record g [], fuel + 1, rest, _, _ => by
    rw [chars, memberChars, List.append_assoc, List.cons_append, List.append_assoc,
      List.append_assoc, readValue_gap, readValue, skipSpace_of_not (by decide)]
    simp only [skipSpace_gap, List.cons_append, List.nil_append]
    rw [skipSpace_of_not (by decide), sketch, memberSketches]
    rfl
  | record g ((k, v) :: ms), fuel + 1, rest, _, hfuel => by
    rw [chars, List.length_append, List.length_cons, List.length_append] at hfuel
    have hmembers := readMembers_memberChars g.inside k v ms fuel (g.after.chars ++ rest) (by omega)
    rw [chars, List.append_assoc, List.cons_append, List.append_assoc, readValue_gap, sketch,
      readValue_members hmembers]
    rfl

theorem readItems_itemChars : ∀ (inside : Gap) (v : Spelling) (vs : List Spelling) (fuel : Nat)
    (rest : List Char), 2 * (itemChars inside (v :: vs)).length ≤ fuel →
      readItems fuel (itemChars inside (v :: vs) ++ rest) =
        (itemSketches (v :: vs), true, some rest)
  | inside, v, [], 0, _, hfuel => by
    rw [itemChars, List.length_append, List.length_singleton] at hfuel
    omega
  | inside, v, w :: vs, 0, _, hfuel => by
    rw [itemChars_cons_cons, List.length_append, List.length_cons] at hfuel
    omega
  | inside, v, [], fuel + 1, rest, hfuel => by
    rw [itemChars, List.length_append, List.length_singleton] at hfuel
    have hvalue := readValue_chars v fuel (']' :: rest) (ends_cons (by simp) rest) (by omega)
    rw [itemChars, List.append_assoc, List.singleton_append, readItems, hvalue]
    simp [skipSpace_of_not, isSpace, itemSketches]
  | inside, v, w :: vs, fuel + 1, rest, hfuel => by
    rw [itemChars_cons_cons, List.length_append, List.length_cons] at hfuel
    have hvalue := readValue_chars v fuel (',' :: (itemChars inside (w :: vs) ++ rest))
      (ends_cons (by simp) _) (by omega)
    have hitems := readItems_itemChars inside w vs fuel rest (by omega)
    rw [itemChars_cons_cons, List.append_assoc, List.cons_append, readItems, hvalue]
    simp [skipSpace_of_not, isSpace, hitems, itemSketches]

theorem readMembers_memberChars : ∀ (inside : Gap) (k : Key) (v : Spelling)
    (ms : List (Key × Spelling)) (fuel : Nat) (rest : List Char),
      2 * (memberChars inside ((k, v) :: ms)).length ≤ fuel →
      readMembers fuel (memberChars inside ((k, v) :: ms) ++ rest) =
        (memberSketches ((k, v) :: ms), true, some rest)
  | inside, k, v, [], 0, _, hfuel => by
    rw [memberChars, List.length_append, List.length_cons] at hfuel
    omega
  | inside, k, v, m :: ms, 0, _, hfuel => by
    rw [memberChars_cons_cons, List.length_append, List.length_cons] at hfuel
    omega
  | inside, k, v, [], fuel + 1, rest, hfuel => by
    rw [memberChars] at hfuel
    simp only [List.length_append, List.length_cons] at hfuel
    have hvalue := readValue_chars v fuel ('}' :: rest) (ends_cons (by simp) rest) (by omega)
    rw [memberChars, List.append_assoc, List.cons_append, List.append_assoc, List.singleton_append,
      readMembers_key hvalue]
    simp [skipSpace_of_not, isSpace, memberSketches]
  | inside, k, v, (l, w) :: ms, fuel + 1, rest, hfuel => by
    rw [memberChars_cons_cons] at hfuel
    simp only [List.length_append, List.length_cons] at hfuel
    have hvalue := readValue_chars v fuel (',' :: (memberChars inside ((l, w) :: ms) ++ rest))
      (ends_cons (by simp) _) (by omega)
    have hmembers := readMembers_memberChars inside l w ms fuel rest (by omega)
    rw [memberChars_cons_cons, List.append_assoc, List.cons_append, List.append_assoc,
      List.cons_append, readMembers_key hvalue]
    simp [skipSpace_of_not, isSpace, hmembers, memberSketches]

end

/-- The text of a spelling shows what is spelled, and nothing behind it. -/
theorem sketch_text (v : Spelling) : Json.sketch v.text = (v.sketch, true) := by
  have hread := readValue_chars v (2 * v.chars.length + 1) [] ends_nil (Nat.lt_succ_self _)
  rw [List.append_nil, List.append_nil] at hread
  have hafter : skipSpace v.spacing.after.chars = [] := by
    have hgap := skipSpace_gap v.spacing.after []
    rwa [List.append_nil] at hgap
  rw [Json.sketch, text, String.toList_ofList, hread]
  simp only [hafter]
  rfl

end Spelling
end ClassScribe.Json
