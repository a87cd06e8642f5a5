import Mathlib.Data.List.Basic
import ClassScribe.Json.Sketch
import ClassScribe.Json.Tree

/-! # Written values are read

What is written as a compact text is read back as a complete sketch. A number is left out: a large
one may be read as a fraction.
-/
namespace ClassScribe.Json

theorem hexUnit?_control : ∀ n < 0x20,
    hexUnit? '0' '0' (hexDigit (n / 16)) (hexDigit n) = some n := by
  decide

/-- A state without an open half. -/
def TextState.whole (cs : List Char) : TextState := ⟨cs, none, true⟩

theorem push_whole (cs : List Char) (c : Char) :
    (TextState.whole cs).push c = .whole (c :: cs) := rfl

theorem unit_whole (cs : List Char) {c : Char} (h : c.toNat < 0x20) :
    (TextState.whole cs).unit c.toNat = .whole (c :: cs) := by
  have hlow : ¬ 0xD800 ≤ c.toNat := by lia
  have hhigh : ¬ 0xDC00 ≤ c.toNat := by lia
  rw [TextState.unit, if_neg (by simp [hlow]), if_neg (by simp [hhigh]), Char.ofNat_toNat,
    push_whole]

theorem readText_simple (cs : List Char) {e c : Char} (h : simpleEscape? e = some c)
    (rest : List Char) : readText (.whole cs) ('\\' :: e :: rest) = readText (.whole (c :: cs)) rest := by
  have hu : e ≠ 'u' := by
    rintro rfl
    cases h
  rw [readText]
  · simp only [h, push_whole]
  · simp [hu]

theorem readText_control (cs : List Char) {c : Char} (h : c.toNat < 0x20) (rest : List Char) :
    readText (.whole cs)
        ('\\' :: 'u' :: '0' :: '0' :: hexDigit (c.toNat / 16) :: hexDigit c.toNat :: rest) =
      readText (.whole (c :: cs)) rest := by
  rw [readText]
  simp only [hexUnit?_control c.toNat h, unit_whole cs h]

theorem readText_plain (cs : List Char) {c : Char} (hq : c ≠ '"') (hb : c ≠ '\\')
    (h : ¬ c.toNat < 0x20) (rest : List Char) :
    readText (.whole cs) (c :: rest) = readText (.whole (c :: cs)) rest := by
  rw [readText]
  · simp only [h, decide_false, Bool.false_or, beq_iff_eq, hb, ↓reduceIte, push_whole]
  all_goals simp [hq, hb]

theorem readText_escapeChar (cs : List Char) (c : Char) (rest : List Char) :
    readText (.whole cs) (escapeChar c ++ rest) = readText (.whole (c :: cs)) rest := by
  have hnumber {e : Char} {n : Nat} (he : simpleEscape? e = some (Char.ofNat n))
      (h : (c.toNat == n) = true) : simpleEscape? e = some c := by
    rw [he, ← beq_iff_eq.mp h, Char.ofNat_toNat]
  unfold escapeChar
  iterate 5
    split
    · exact readText_simple cs (by simp_all [simpleEscape?]) rest
  split
  · rename_i h
    exact readText_simple cs (hnumber (by decide) h) rest
  split
  · rename_i h
    exact readText_simple cs (hnumber (by decide) h) rest
  split
  · rename_i h
    exact readText_control cs h rest
  · exact readText_plain cs (by simp_all) (by simp_all) (by assumption) rest

theorem readText_chars (cs ds : List Char) (rest : List Char) :
    readText (.whole cs) (ds.flatMap escapeChar ++ '"' :: rest) =
      some (some (String.ofList (cs.reverse ++ ds)), rest) := by
  induction ds generalizing cs with
  | nil =>
    rw [List.flatMap_nil, List.nil_append, readText, TextState.finish]
    simp [TextState.whole]
  | cons d ds ih =>
    rw [List.flatMap_cons, List.append_assoc, readText_escapeChar, ih]
    simp

/-- What stands between quotes is read as the text it was written for. -/
theorem readText_quote (s : String) (rest : List Char) :
    ∃ cs, quote s ++ rest = '"' :: cs ∧ readText {} cs = some (some s, rest) := by
  refine ⟨s.toList.flatMap escapeChar ++ '"' :: rest, by simp [quote], ?_⟩
  have hchars := readText_chars [] s.toList rest
  rwa [List.reverse_nil, List.nil_append, String.ofList_toList] at hchars

mutual

/-- Without numbers. -/
def numberless : Json → Bool
  | null => true
  | flag _ => true
  | number _ => false
  | text _ => true
  | list items => numberlessItems items
  | record members => numberlessMembers members

def numberlessItems : List Json → Bool
  | [] => true
  | v :: rest => v.numberless && numberlessItems rest

def numberlessMembers : List (String × Json) → Bool
  | [] => true
  | (_, v) :: rest => v.numberless && numberlessMembers rest

end

@[simp] theorem numberlessMembers_append (xs ys : List (String × Json)) :
    numberlessMembers (xs ++ ys) = (numberlessMembers xs && numberlessMembers ys) := by
  induction xs with
  | nil => simp [numberlessMembers]
  | cons m xs ih => simp [numberlessMembers, ih, Bool.and_assoc]

@[simp] theorem numberlessItems_map {α : Type} {write : α → Json} {xs : List α}
    (h : ∀ x ∈ xs, (write x).numberless = true) : numberlessItems (xs.map write) = true := by
  induction xs with
  | nil => rfl
  | cons x xs ih =>
    obtain ⟨hx, hxs⟩ := List.forall_mem_cons.mp h
    rw [List.map_cons, numberlessItems, hx, ih hxs]
    rfl

mutual

/-- The sketch that a whole value leaves. -/
def sketched : Json → Sketch
  | null => .null
  | flag b => .flag b
  | number n => .number (some (.natural n))
  | text s => .text (some s)
  | list items => .list (sketchedItems items) true
  | record members => .record (sketchedMembers members) true

def sketchedItems : List Json → List Sketch
  | [] => []
  | v :: rest => v.sketched :: sketchedItems rest

def sketchedMembers : List (String × Json) → List (Option String × Sketch)
  | [] => []
  | (k, v) :: rest => (some k, v.sketched) :: sketchedMembers rest

end

theorem skipSpace_of_not {c : Char} (h : isSpace c = false) (cs : List Char) :
    skipSpace (c :: cs) = c :: cs := by
  rw [skipSpace, List.dropWhile_cons_of_neg (by simp [h])]

/-- A value begins with a character of its own, neither space nor the end of a list. -/
theorem compactChars_cons {v : Json} (hv : v.numberless = true) :
    ∃ c cs, v.compactChars = c :: cs ∧ isSpace c = false ∧ c ≠ ']' := by
  cases v with
  | null => exact ⟨_, _, by rw [compactChars]; rfl, by decide⟩
  | flag b => cases b <;> exact ⟨_, _, by rw [compactChars]; rfl, by decide⟩
  | number n => simp [numberless] at hv
  | text s => exact ⟨_, _, by rw [compactChars, quote]; rfl, by decide⟩
  | list items => exact ⟨_, _, by rw [compactChars], by decide⟩
  | record members => exact ⟨_, _, by rw [compactChars], by decide⟩

theorem compactItems_cons (v : Json) (rest : List Json) :
    compactItems (v :: rest) =
      v.compactChars ++ if rest.isEmpty then [']'] else ',' :: compactItems rest := by
  cases rest <;> simp [compactItems]

theorem compactItems_cons_cons (v w : Json) (rest : List Json) :
    compactItems (v :: w :: rest) = v.compactChars ++ ',' :: compactItems (w :: rest) :=
  compactItems_cons v (w :: rest)

theorem compactMembers_cons (k : String) (v : Json) (rest : List (String × Json)) :
    compactMembers ((k, v) :: rest) = quote k ++ ':' :: v.compactChars ++
      if rest.isEmpty then ['}'] else ',' :: compactMembers rest := by
  cases rest <;> simp [compactMembers]

theorem compactMembers_cons_cons (k : String) (v : Json) (m : String × Json)
    (rest : List (String × Json)) : compactMembers ((k, v) :: m :: rest) =
      quote k ++ ':' :: v.compactChars ++ ',' :: compactMembers (m :: rest) :=
  compactMembers_cons k v (m :: rest)

theorem readValue_text (fuel : Nat) (s : String) (rest : List Char) :
    readValue (fuel + 1) (quote s ++ rest) = (.text (some s), some rest) := by
  obtain ⟨cs, hquote, hread⟩ := readText_quote s rest
  rw [hquote, readValue, skipSpace_of_not (by decide)]
  simp only [hread]

theorem readValue_list {fuel : Nat} {c : Char} {cs rest : List Char} {items : List Sketch}
    (hs : isSpace c = false) (hc : c ≠ ']')
    (h : readItems fuel (c :: cs) = (items, true, some rest)) :
    readValue (fuel + 1) ('[' :: c :: cs) = (.list items true, some rest) := by
  rw [readValue, skipSpace_of_not (by decide)]
  simp only [skipSpace_of_not hs]
  split
  · simp_all
  · rw [h]

theorem readValue_record {fuel : Nat} {cs rest : List Char} {members : List (Option String × Sketch)}
    (h : readMembers fuel ('"' :: cs) = (members, true, some rest)) :
    readValue (fuel + 1) ('{' :: '"' :: cs) = (.record members true, some rest) := by
  have hs : isSpace '"' = false := by decide
  rw [readValue, skipSpace_of_not (by decide)]
  simp only [skipSpace_of_not hs]
  split
  · simp_all
  · rw [h]

mutual

/-- A compact text is read to its end, whatever follows. -/
theorem readValue_compactChars : ∀ (v : Json) (fuel : Nat) (rest : List Char),
    v.numberless = true → 2 * v.compactChars.length ≤ fuel →
      readValue fuel (v.compactChars ++ rest) = (v.sketched, some rest)
  | _, 0, _, hv, hfuel => by
    obtain ⟨c, cs, hchars, -⟩ := compactChars_cons hv
    simp [hchars] at hfuel
  | .null, fuel + 1, rest, _, _ => by
    simp [compactChars, readValue, skipSpace, isSpace, word, sketched]
  | .flag true, fuel + 1, rest, _, _ => by
    simp [compactChars, flagChars, readValue, skipSpace, isSpace, word, sketched]
  | .flag false, fuel + 1, rest, _, _ => by
    simp [compactChars, flagChars, readValue, skipSpace, isSpace, word, sketched]
  | .number _, _, _, hv, _ => by simp [numberless] at hv
  | .text s, fuel + 1, rest, _, _ => by
    rw [compactChars, readValue_text, sketched]
  | .list [], fuel + 1, rest, _, _ => by
    simp [compactChars, compactItems, readValue, skipSpace, isSpace, sketched, sketchedItems]
  | .list (v :: vs), fuel + 1, rest, hv, hfuel => by
    rw [numberless] at hv
    rw [compactChars, List.length_cons] at hfuel
    have hitems := readItems_compactItems v vs fuel rest hv (by lia)
    obtain ⟨c, cs, hchars, hs, hc⟩ := compactChars_cons (Bool.and_eq_true_iff.mp hv).1
    rw [compactItems_cons, hchars] at hitems
    rw [compactChars, sketched, compactItems_cons, hchars]
    exact readValue_list hs hc hitems
  | .record [], fuel + 1, rest, _, _ => by
    simp [compactChars, compactMembers, readValue, skipSpace, isSpace, sketched, sketchedMembers]
  | .record ((k, v) :: ms), fuel + 1, rest, hv, hfuel => by
    rw [numberless] at hv
    rw [compactChars, List.length_cons] at hfuel
    have hmembers := readMembers_compactMembers k v ms fuel rest hv (by lia)
    rw [compactMembers_cons] at hmembers
    rw [compactChars, sketched, compactMembers_cons]
    exact readValue_record hmembers

theorem readItems_compactItems : ∀ (v : Json) (vs : List Json) (fuel : Nat) (rest : List Char),
    numberlessItems (v :: vs) = true → 2 * (compactItems (v :: vs)).length ≤ fuel →
      readItems fuel (compactItems (v :: vs) ++ rest) = (sketchedItems (v :: vs), true, some rest)
  | v, vs, 0, _, _, hfuel => by
    rw [compactItems_cons, List.length_append] at hfuel
    split at hfuel <;> simp at hfuel
  | v, [], fuel + 1, rest, hv, hfuel => by
    rw [compactItems, List.length_append, List.length_singleton] at hfuel
    have hvalue := readValue_compactChars v fuel (']' :: rest) (Bool.and_eq_true_iff.mp hv).1 (by lia)
    rw [compactItems, List.append_assoc, readItems, List.singleton_append, hvalue]
    simp [skipSpace_of_not, isSpace, sketchedItems]
  | v, w :: vs, fuel + 1, rest, hv, hfuel => by
    obtain ⟨hv, hvs⟩ := Bool.and_eq_true_iff.mp hv
    rw [compactItems_cons_cons, List.length_append, List.length_cons] at hfuel
    have hvalue := readValue_compactChars v fuel (',' :: (compactItems (w :: vs) ++ rest)) hv (by lia)
    have hitems := readItems_compactItems w vs fuel rest hvs (by lia)
    rw [compactItems_cons_cons, List.append_assoc, readItems, List.cons_append, hvalue]
    simp [skipSpace_of_not, isSpace, hitems, sketchedItems]

theorem readMembers_compactMembers : ∀ (k : String) (v : Json) (ms : List (String × Json))
    (fuel : Nat) (rest : List Char), numberlessMembers ((k, v) :: ms) = true →
      2 * (compactMembers ((k, v) :: ms)).length ≤ fuel →
      readMembers fuel (compactMembers ((k, v) :: ms) ++ rest) =
        (sketchedMembers ((k, v) :: ms), true, some rest)
  | k, v, ms, 0, _, _, hfuel => by
    rw [compactMembers_cons, quote] at hfuel
    simp at hfuel
  | k, v, [], fuel + 1, rest, hv, hfuel => by
    obtain ⟨cs, hquote, hkey⟩ := readText_quote k (':' :: (v.compactChars ++ '}' :: rest))
    rw [compactMembers] at hfuel
    simp only [List.length_append, List.length_cons] at hfuel
    have hvalue := readValue_compactChars v fuel ('}' :: rest) (Bool.and_eq_true_iff.mp hv).1
      (by lia)
    have hchars : compactMembers [(k, v)] ++ rest = '"' :: cs := by
      rw [← hquote]
      simp [compactMembers]
    rw [hchars, readMembers]
    simp [skipSpace_of_not, isSpace, hkey, hvalue, sketchedMembers]
  | k, v, m :: ms, fuel + 1, rest, hv, hfuel => by
    obtain ⟨hv, hms⟩ := Bool.and_eq_true_iff.mp hv
    obtain ⟨cs, hquote, hkey⟩ :=
      readText_quote k (':' :: (v.compactChars ++ ',' :: (compactMembers (m :: ms) ++ rest)))
    rw [compactMembers_cons_cons] at hfuel
    simp only [List.length_append, List.length_cons] at hfuel
    have hvalue := readValue_compactChars v fuel (',' :: (compactMembers (m :: ms) ++ rest)) hv
      (by lia)
    have hmembers := readMembers_compactMembers m.1 m.2 ms fuel rest hms (by lia)
    have hchars : compactMembers ((k, v) :: m :: ms) ++ rest = '"' :: cs := by
      rw [← hquote, compactMembers_cons_cons]
      simp
    rw [hchars, readMembers]
    simp [skipSpace_of_not, isSpace, hkey, hvalue, hmembers, sketchedMembers]

end

/-- The text of a value without numbers is a sketch of the value with nothing behind it. -/
theorem sketch_compact {v : Json} (hv : v.numberless = true) :
    sketch v.compact = (v.sketched, true) := by
  have hread := readValue_compactChars v (2 * v.compactChars.length + 1) [] hv (by lia)
  rw [List.append_nil] at hread
  rw [sketch, compact, String.toList_ofList, hread]
  rfl

end ClassScribe.Json
