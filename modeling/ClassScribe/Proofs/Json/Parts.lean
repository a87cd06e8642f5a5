import ClassScribe.Proofs.Json.Spelling

/-! # Texts are taken apart

Every text that is read to its end is the text of a spelling. A number is the only value whose end
is found by what follows it, so that it is read as the same number only where it could end.
-/
namespace ClassScribe.Json
open Number

theorem readText_escape (t : TextState) {e c : Char} (h : simpleEscape? e = some c)
    (rest : List Char) : readText t ('\\' :: e :: rest) = readText (t.push c) rest := by
  have hu : e ≠ 'u' := by
    rintro rfl
    cases h
  rw [readText]
  · simp only [h]
  · simp [hu]

theorem readText_other (t : TextState) {c : Char} (hq : c ≠ '"')
    (hc : (c.toNat < 0x20 || c == '\\') = false) (rest : List Char) :
    readText t (c :: rest) = readText (t.push c) rest := by
  have hb : c ≠ '\\' := by
    rintro rfl
    simp at hc
  rw [readText]
  · rw [hc, if_neg Bool.false_ne_true]
  all_goals simp [hq, hb]

/-- A text ends at its quote, whatever follows. -/
theorem readText_parts {t : TextState} {cs rest : List Char} {s : Option String}
    (h : readText t cs = some (s, rest)) : ∃ front, cs = front ++ rest ∧
      ∀ rest', readText t (front ++ rest') = some (s, rest') := by
  fun_induction readText t cs with
  | case1 t rest =>
    obtain ⟨rfl, rfl⟩ := Prod.mk.inj (Option.some.inj h)
    exact ⟨['"'], rfl, fun _ => rfl⟩
  | case2 t a b c d cs n hn ih =>
    obtain ⟨front, rfl, hread⟩ := ih h
    refine ⟨'\\' :: 'u' :: a :: b :: c :: d :: front, rfl, fun rest' => ?_⟩
    simp only [List.cons_append]
    rw [readText]
    simp only [hn, hread]
  | case3 => cases h
  | case4 t c cs _ e he ih =>
    obtain ⟨front, rfl, hread⟩ := ih h
    exact ⟨'\\' :: c :: front, rfl, fun rest' => (readText_escape t he _).trans (hread rest')⟩
  | case5 => cases h
  | case6 => cases h
  | case7 t c cs hq _ _ hc ih =>
    obtain ⟨front, rfl, hread⟩ := ih h
    exact ⟨c :: front, rfl, fun rest' =>
      (readText_other t hq (Bool.eq_false_iff.mpr hc) _).trans (hread rest')⟩
  | case8 => cases h

/-- What can stand behind the digits of a number: no digit follows, and no point. -/
def Halts (rest : List Char) : Prop := ∀ c ∈ rest.head?, c.isDigit = false ∧ c ≠ '.'

theorem mem_of_ends {rest : List Char} (h : Ends rest) :
    ∀ c ∈ rest.head?, c ∈ [' ', '\n', '\t', '\r', ',', ']', '}'] := by
  intro c hc
  rcases h c hc with hspace | rfl | rfl | rfl
  · simp only [isSpace, Bool.or_eq_true, beq_iff_eq, or_assoc] at hspace
    rcases hspace with rfl | rfl | rfl | rfl <;> decide
  all_goals decide

theorem halts_of_ends {rest : List Char} (h : Ends rest) : Halts rest := by
  have hall : ∀ c ∈ [' ', '\n', '\t', '\r', ',', ']', '}'], c.isDigit = false ∧ c ≠ '.' := by simp
  exact fun c hc => hall c (mem_of_ends h c hc)

theorem ne_of_isDigit {c d : Char} (hc : c.isDigit = true) (hd : d.isDigit = false) : c ≠ d := by
  rintro rfl
  rw [hc] at hd
  cases hd

theorem takeWhile_digits {ds rest : List Char} (hds : ∀ c ∈ ds, c.isDigit = true)
    (hrest : ∀ c ∈ rest.head?, c.isDigit = false) : (ds ++ rest).takeWhile Char.isDigit = ds := by
  rw [List.takeWhile_append_of_pos hds]
  cases rest with
  | nil => simp
  | cons c rest => simp [hrest c rfl]

theorem dropWhile_digits {ds rest : List Char} (hds : ∀ c ∈ ds, c.isDigit = true)
    (hrest : ∀ c ∈ rest.head?, c.isDigit = false) : (ds ++ rest).dropWhile Char.isDigit = rest := by
  rw [List.dropWhile_append_of_pos hds]
  cases rest with
  | nil => simp
  | cons c rest => simp [hrest c rfl]

/-- The digits of a power behind its sign. -/
def powerDigits (negative : Bool) (cs : List Char) :
    Option (Option (Bool × List Char) × List Char) :=
  let digits := cs.takeWhile Char.isDigit
  if digits.isEmpty then none else some (some (negative, digits), cs.dropWhile Char.isDigit)

theorem powerDigits_append {negative : Bool} {ds rest : List Char} (hne : ds ≠ [])
    (hds : ∀ c ∈ ds, c.isDigit = true) (hrest : Halts rest) :
    powerDigits negative (ds ++ rest) = some (some (negative, ds), rest) := by
  have hstop : ∀ c ∈ rest.head?, c.isDigit = false := fun c hc => (hrest c hc).1
  rw [powerDigits, takeWhile_digits hds hstop, dropWhile_digits hds hstop]
  simp [hne]

theorem powerDigits_parts {negative : Bool} {cs rest : List Char} {p : Option (Bool × List Char)}
    (h : powerDigits negative cs = some (p, rest)) : ∃ ds, cs = ds ++ rest ∧ ds ≠ [] ∧
      (∀ c ∈ ds, c.isDigit = true) ∧ p = some (negative, ds) := by
  rw [powerDigits] at h
  split at h
  · cases h
  · rename_i hne
    obtain ⟨rfl, rfl⟩ := Prod.mk.inj (Option.some.inj h)
    refine ⟨_, List.takeWhile_append_dropWhile.symm, ?_, fun c hc => List.mem_takeWhile_imp hc, rfl⟩
    simpa using hne

section Power

variable {c : Char} {cs : List Char}

theorem readPower_plus (hc : (c == 'e' || c == 'E') = true) (cs : List Char) :
    readPower (c :: '+' :: cs) = powerDigits false cs := by
  rw [readPower, if_pos hc]
  rfl

theorem readPower_minus (hc : (c == 'e' || c == 'E') = true) (cs : List Char) :
    readPower (c :: '-' :: cs) = powerDigits true cs := by
  rw [readPower, if_pos hc]
  rfl

theorem readPower_bare (hc : (c == 'e' || c == 'E') = true)
    (hcs : ∀ d ∈ cs.head?, d ≠ '+' ∧ d ≠ '-') : readPower (c :: cs) = powerDigits false cs := by
  rw [readPower, if_pos hc, powerDigits]
  · rintro r rfl
    exact (hcs '+' rfl).1 rfl
  · rintro r rfl
    exact (hcs '-' rfl).2 rfl

theorem readPower_none (h : ∀ c ∈ cs.head?, (c == 'e' || c == 'E') = false) :
    readPower cs = some (none, cs) := by
  cases cs with
  | nil => rfl
  | cons c cs =>
    unfold readPower
    exact if_neg (Bool.eq_false_iff.mp (h c rfl))

theorem sign_cases (cs : List Char) : (∃ r, cs = '+' :: r) ∨ (∃ r, cs = '-' :: r) ∨
    ∀ d ∈ cs.head?, d ≠ '+' ∧ d ≠ '-' := by
  cases cs with
  | nil => exact .inr (.inr nofun)
  | cons c cs =>
    by_cases hplus : c = '+'
    · exact .inl ⟨cs, by rw [hplus]⟩
    · by_cases hminus : c = '-'
      · exact .inr (.inl ⟨cs, by rw [hminus]⟩)
      · refine .inr (.inr fun d hd => ?_)
        obtain rfl : c = d := Option.some.inj hd
        exact ⟨hplus, hminus⟩

end Power

/-- A power ends behind its digits, and where there is none, nothing that begins one follows. -/
theorem readPower_parts {cs rest : List Char} {p : Option (Bool × List Char)}
    (h : readPower cs = some (p, rest)) : ∃ front, cs = front ++ rest ∧
      ∀ rest', Ends rest' →
        Halts (front ++ rest') ∧ readPower (front ++ rest') = some (p, rest') := by
  by_cases hmark : ∃ c ∈ cs.head?, (c == 'e' || c == 'E') = true
  · obtain ⟨c, hc, hpower⟩ := hmark
    obtain ⟨cs, rfl⟩ : ∃ r, cs = c :: r := List.head?_eq_some_iff.mp hc
    have hhalts (front : List Char) : Halts (c :: front) := by
      intro d hd
      obtain rfl : c = d := Option.some.inj hd
      simp only [Bool.or_eq_true, beq_iff_eq] at hpower
      rcases hpower with rfl | rfl <;> decide
    rcases sign_cases cs with ⟨r, rfl⟩ | ⟨r, rfl⟩ | hsign
    · rw [readPower_plus hpower] at h
      obtain ⟨ds, rfl, hne, hds, rfl⟩ := powerDigits_parts h
      refine ⟨c :: '+' :: ds, rfl, fun rest' hrest => ⟨hhalts _, ?_⟩⟩
      exact (readPower_plus hpower _).trans (powerDigits_append hne hds (halts_of_ends hrest))
    · rw [readPower_minus hpower] at h
      obtain ⟨ds, rfl, hne, hds, rfl⟩ := powerDigits_parts h
      refine ⟨c :: '-' :: ds, rfl, fun rest' hrest => ⟨hhalts _, ?_⟩⟩
      exact (readPower_minus hpower _).trans (powerDigits_append hne hds (halts_of_ends hrest))
    · rw [readPower_bare hpower hsign] at h
      obtain ⟨ds, rfl, hne, hds, rfl⟩ := powerDigits_parts h
      obtain ⟨e, ds, rfl⟩ := List.exists_cons_of_ne_nil hne
      have hdigit := hds e List.mem_cons_self
      refine ⟨c :: e :: ds, rfl, fun rest' hrest => ⟨hhalts _, ?_⟩⟩
      have hbare : ∀ d ∈ (e :: ds ++ rest').head?, d ≠ '+' ∧ d ≠ '-' := by
        intro d hd
        obtain rfl : e = d := Option.some.inj hd
        exact ⟨ne_of_isDigit hdigit (by decide), ne_of_isDigit hdigit (by decide)⟩
      exact (readPower_bare hpower hbare).trans
        (powerDigits_append hne hds (halts_of_ends hrest))
  · rw [readPower_none fun c hc => Bool.eq_false_iff.mpr fun h => hmark ⟨c, hc, h⟩] at h
    obtain ⟨rfl, rfl⟩ := Prod.mk.inj (Option.some.inj h)
    have hall : ∀ c ∈ [' ', '\n', '\t', '\r', ',', ']', '}'], (c == 'e' || c == 'E') = false := by
      simp
    exact ⟨[], rfl, fun rest' hrest => ⟨halts_of_ends hrest,
      readPower_none fun c hc => hall c (mem_of_ends hrest c hc)⟩⟩

theorem readPart_none {cs : List Char} (h : ∀ c ∈ cs.head?, c ≠ '.') :
    readPart cs = some (none, cs) := by
  unfold readPart
  split
  · exact absurd rfl (h '.' rfl)
  · rfl

theorem readPart_parts {cs rest : List Char} {p : Option (List Char)}
    (h : readPart cs = some (p, rest)) : ∃ front, cs = front ++ rest ∧
      ∀ rest', Halts rest' → (∀ c ∈ (front ++ rest').head?, c.isDigit = false) ∧
        readPart (front ++ rest') = some (p, rest') := by
  by_cases hpoint : '.' ∈ cs.head?
  · obtain ⟨cs, rfl⟩ : ∃ r, cs = '.' :: r := List.head?_eq_some_iff.mp hpoint
    rw [readPart] at h
    split at h
    · cases h
    · rename_i hne
      obtain ⟨rfl, rfl⟩ := Prod.mk.inj (Option.some.inj h)
      have hds : ∀ c ∈ cs.takeWhile Char.isDigit, c.isDigit = true :=
        fun c hc => List.mem_takeWhile_imp hc
      refine ⟨'.' :: cs.takeWhile Char.isDigit, ?_, fun rest' hrest => ⟨?_, ?_⟩⟩
      · rw [List.cons_append, List.takeWhile_append_dropWhile]
      · intro c hc
        obtain rfl : '.' = c := Option.some.inj hc
        decide
      · have hstop : ∀ c ∈ rest'.head?, c.isDigit = false := fun c hc => (hrest c hc).1
        rw [List.cons_append, readPart, takeWhile_digits hds hstop, dropWhile_digits hds hstop,
          if_neg hne]
  · have hnone {xs : List Char} (hx : '.' ∉ xs.head?) : readPart xs = some (none, xs) :=
      readPart_none fun c hc he => hx (he ▸ hc)
    rw [hnone hpoint] at h
    obtain ⟨rfl, rfl⟩ := Prod.mk.inj (Option.some.inj h)
    exact ⟨[], rfl, fun rest' hrest =>
      ⟨fun c hc => (hrest c hc).1, hnone fun hc => (hrest '.' hc).2 rfl⟩⟩

/-- A number is read as far as it goes, if what follows is not more of it. -/
theorem readNumber_parts {negative : Bool} {cs rest : List Char} {n : Option Numeral}
    (h : readNumber negative cs = some (n, rest)) : ∃ front, cs = front ++ rest ∧ front ≠ [] ∧
      ∀ rest', Ends rest' → readNumber negative (front ++ rest') = some (n, rest') := by
  simp only [readNumber] at h
  split at h
  · cases h
  · rename_i hwhole
    obtain ⟨⟨part, middle⟩, hpart, h⟩ := Option.bind_eq_some_iff.mp h
    obtain ⟨⟨power, last⟩, hpower, h⟩ := Option.bind_eq_some_iff.mp h
    obtain ⟨rfl, rfl⟩ := Prod.mk.inj (Option.some.inj h)
    obtain ⟨point, hmiddle, hpoint⟩ := readPart_parts hpart
    obtain ⟨mark, hlast, hmark⟩ := readPower_parts hpower
    have hds : ∀ c ∈ cs.takeWhile Char.isDigit, c.isDigit = true :=
      fun c hc => List.mem_takeWhile_imp hc
    refine ⟨cs.takeWhile Char.isDigit ++ (point ++ mark), ?_, ?_, fun rest' hrest => ?_⟩
    · rw [List.append_assoc, List.append_assoc, ← hlast, ← hmiddle,
        List.takeWhile_append_dropWhile]
    · simp only [Bool.or_eq_true, not_or, List.isEmpty_iff] at hwhole
      exact List.append_ne_nil_of_left_ne_nil hwhole.1 _
    · obtain ⟨hhalts, hread⟩ := hmark rest' hrest
      obtain ⟨hstop, hbehind⟩ := hpoint _ hhalts
      simp only [List.append_assoc, readNumber, takeWhile_digits hds hstop,
        dropWhile_digits hds hstop, if_neg hwhole, hbehind, hread, Option.bind_eq_bind,
        Option.bind_some]
      rfl

theorem exists_gap (cs : List Char) : ∃ g : Gap, cs = g.chars ++ skipSpace cs :=
  ⟨⟨cs.takeWhile isSpace, fun _ hc => List.mem_takeWhile_imp hc⟩,
    List.takeWhile_append_dropWhile.symm⟩

theorem word_parts {w cs rest : List Char} {v v' : Sketch} (h : word w v cs = (v', some rest)) :
    v' = v ∧ cs = w ++ rest := by
  rw [word] at h
  split at h
  · rename_i hw
    obtain ⟨rfl, hrest⟩ := Prod.mk.inj h
    obtain rfl := Option.some.inj hrest
    exact ⟨rfl, (List.prefix_iff_eq_append.mp (List.isPrefixOf_iff_prefix.mp hw)).symm⟩
  · cases h

theorem readValue_minus {fuel : Nat} {cs rest : List Char} {n : Option Numeral}
    (h : readNumber true cs = some (n, rest)) :
    readValue (fuel + 1) ('-' :: cs) = (.number n, some rest) := by
  rw [readValue, skipSpace_of_not (by decide)]
  simp only [h]

theorem readValue_digit {fuel : Nat} {c : Char} {cs rest : List Char} {n : Option Numeral}
    (hc : c.isDigit = true) (h : readNumber false (c :: cs) = some (n, rest)) :
    readValue (fuel + 1) (c :: cs) = (.number n, some rest) := by
  have hne {d : Char} (hd : d.isDigit = false) : c ≠ d := ne_of_isDigit hc hd
  have hspace : isSpace c = false := by
    simp [isSpace, hne]
  rw [readValue, skipSpace_of_not hspace]
  simp only []
  split <;> simp_all

section Scalars

variable {cs rest : List Char}

theorem exists_quoted {s : Option String} (h : readText {} cs = some (s, rest)) :
    ∃ q : Quoted, cs = q.chars ++ rest ∧ q.text = s := by
  obtain ⟨front, hcs, hread⟩ := readText_parts h
  exact ⟨⟨front, s, hread⟩, hcs, rfl⟩

theorem exists_minus {n : Option Numeral} (h : readNumber true cs = some (n, rest)) :
    ∃ s : Scalar, '-' :: cs = s.chars ++ rest ∧ s.shown = .number n := by
  obtain ⟨front, hcs, -, hread⟩ := readNumber_parts h
  exact ⟨⟨'-' :: front, .number n, rfl, fun _ rest' hrest => readValue_minus (hread rest' hrest)⟩,
    by rw [hcs]; rfl, rfl⟩

theorem exists_number {c : Char} {n : Option Numeral} (hc : c.isDigit = true)
    (h : readNumber false (c :: cs) = some (n, rest)) :
    ∃ s : Scalar, c :: cs = s.chars ++ rest ∧ s.shown = .number n := by
  obtain ⟨front, hcs, hne, hread⟩ := readNumber_parts h
  obtain ⟨d, front, rfl⟩ := List.exists_cons_of_ne_nil hne
  obtain rfl : c = d := (List.cons.inj hcs).1
  exact ⟨⟨c :: front, .number n, rfl, fun _ rest' hrest => readValue_digit hc (hread rest' hrest)⟩,
    hcs, rfl⟩

theorem exists_word {v : Sketch} (s : Scalar) (h : word s.chars s.shown cs = (v, some rest)) :
    ∃ s : Scalar, cs = s.chars ++ rest ∧ s.shown = v := by
  obtain ⟨hv, hcs⟩ := word_parts h
  exact ⟨s, hcs, hv.symm⟩

end Scalars

namespace Spelling

/-- What was read up to `rest` is spelled, and blanks may be added to it. -/
def Spells (cs rest : List Char) (v : Sketch) : Prop :=
  ∃ front, cs = front ++ rest ∧ ∀ after : Gap, ∃ s : Spelling,
    s.chars = front ++ after.chars ∧ s.sketch = v

/-- A value is spelled together with the blanks behind it. -/
theorem Spells.with_gap {cs rest : List Char} {v : Sketch} (h : Spells cs rest v) :
    ∃ s : Spelling, cs = s.chars ++ skipSpace rest ∧ s.sketch = v := by
  obtain ⟨front, rfl, hspell⟩ := h
  obtain ⟨after, hafter⟩ := exists_gap rest
  obtain ⟨s, hchars, hsketch⟩ := hspell after
  refine ⟨s, ?_, hsketch⟩
  rw [hchars, List.append_assoc, ← hafter]

theorem exists_key {cs ds middle rest : List Char} {key : Option String}
    (hquote : skipSpace cs = '"' :: ds) (hkey : readText {} ds = some (key, middle))
    (hcolon : skipSpace middle = ':' :: rest) :
    ∃ k : Key, cs = k.chars ++ ':' :: rest ∧ k.text = key := by
  obtain ⟨before, hbefore⟩ := exists_gap cs
  obtain ⟨q, rfl, rfl⟩ := exists_quoted hkey
  obtain ⟨behind, hbehind⟩ := exists_gap middle
  refine ⟨⟨before, q, behind⟩, ?_, rfl⟩
  rw [hbefore, hquote, hbehind, hcolon, Key.chars]
  simp

theorem spells_scalar (g : Gap) {cs rest : List Char} {v : Sketch}
    (h : ∃ s : Scalar, cs = s.chars ++ rest ∧ s.shown = v) : Spells (g.chars ++ cs) rest v := by
  obtain ⟨s, rfl, rfl⟩ := h
  refine ⟨g.chars ++ s.chars, by simp, fun after => ⟨.scalar ⟨g, .none, after⟩ s, ?_, ?_⟩⟩
  · rw [chars, List.append_assoc]
  · rw [sketch]

theorem spells_list (g inside : Gap) (items : List Spelling) (rest : List Char) :
    Spells (g.chars ++ '[' :: (itemChars inside items ++ rest)) rest
      (.list (itemSketches items) true) := by
  refine ⟨g.chars ++ '[' :: itemChars inside items, by simp, fun after =>
    ⟨.list ⟨g, inside, after⟩ items, ?_, ?_⟩⟩
  · rw [chars, List.append_assoc, List.cons_append]
  · rw [sketch]

theorem spells_record (g inside : Gap) (members : List (Key × Spelling)) (rest : List Char) :
    Spells (g.chars ++ '{' :: (memberChars inside members ++ rest)) rest
      (.record (memberSketches members) true) := by
  refine ⟨g.chars ++ '{' :: memberChars inside members, by simp, fun after =>
    ⟨.record ⟨g, inside, after⟩ members, ?_, ?_⟩⟩
  · rw [chars, List.append_assoc, List.cons_append]
  · rw [sketch]

/-- Items that were read up to `rest`, at least one. -/
def SpellsItems (cs rest : List Char) (items : List Sketch) : Prop :=
  ∃ v vs, (∀ inside, cs = itemChars inside (v :: vs) ++ rest) ∧ itemSketches (v :: vs) = items

def SpellsMembers (cs rest : List Char) (members : List (Option String × Sketch)) : Prop :=
  ∃ k v ms, (∀ inside, cs = memberChars inside ((k, v) :: ms) ++ rest) ∧
    memberSketches ((k, v) :: ms) = members

section Brackets

variable {fuel : Nat} {cs rest : List Char} {v : Sketch}

/-- A list is spelled if its items are. -/
theorem spells_bracket (g : Gap) (hitems : ∀ {rest items closed},
      readItems fuel cs = (items, closed, some rest) → closed = true ∧ SpellsItems cs rest items)
    (h : readValue (fuel + 1) ('[' :: cs) = (v, some rest)) :
    Spells (g.chars ++ '[' :: cs) rest v := by
  obtain ⟨inside, hinside⟩ := exists_gap cs
  rw [readValue, skipSpace_of_not (by decide)] at h
  simp only [] at h
  split at h
  · rename_i tail hend
    obtain ⟨rfl, hrest⟩ := Prod.mk.inj h
    obtain rfl := Option.some.inj hrest
    have hlist := spells_list g inside [] tail
    rwa [itemChars, List.append_assoc, List.singleton_append, ← hend, ← hinside] at hlist
  · rw [readItems_skipSpace] at h
    rcases hread : readItems fuel cs with ⟨items, closed, tail⟩
    rw [hread] at h
    obtain ⟨rfl, rfl⟩ := Prod.mk.inj h
    -- the blanks in front of the first item are its own
    obtain ⟨rfl, w, ws, hchars, rfl⟩ := hitems hread
    rw [hchars .none]
    exact spells_list g .none (w :: ws) rest

theorem spells_brace (g : Gap) (hmembers : ∀ {rest members closed},
      readMembers fuel cs = (members, closed, some rest) →
        closed = true ∧ SpellsMembers cs rest members)
    (h : readValue (fuel + 1) ('{' :: cs) = (v, some rest)) :
    Spells (g.chars ++ '{' :: cs) rest v := by
  obtain ⟨inside, hinside⟩ := exists_gap cs
  rw [readValue, skipSpace_of_not (by decide)] at h
  simp only [] at h
  split at h
  · rename_i tail hend
    obtain ⟨rfl, hrest⟩ := Prod.mk.inj h
    obtain rfl := Option.some.inj hrest
    have hrecord := spells_record g inside [] tail
    rwa [memberChars, List.append_assoc, List.singleton_append, ← hend, ← hinside] at hrecord
  · rw [readMembers_skipSpace] at h
    rcases hread : readMembers fuel cs with ⟨members, closed, tail⟩
    rw [hread] at h
    obtain ⟨rfl, rfl⟩ := Prod.mk.inj h
    obtain ⟨rfl, k, w, ms, hchars, rfl⟩ := hmembers hread
    rw [hchars .none]
    exact spells_record g .none ((k, w) :: ms) rest

end Brackets

mutual

/-- A value that is read to its end is spelled. -/
theorem readValue_parts : ∀ (fuel : Nat) {cs rest : List Char} {v : Sketch},
    readValue fuel cs = (v, some rest) → Spells cs rest v
  | 0, cs, rest, v, h => by
    rw [readValue] at h
    cases h
  | fuel + 1, cs, rest, v, h => by
    obtain ⟨g, hg⟩ := exists_gap cs
    rw [readValue] at h
    rw [hg]
    generalize skipSpace cs = ds at h
    split at h
    · split at h
      · rename_i hread
        obtain ⟨rfl, hrest⟩ := Prod.mk.inj h
        obtain rfl := Option.some.inj hrest
        obtain ⟨q, rfl, rfl⟩ := exists_quoted hread
        exact spells_scalar g ⟨q.scalar, rfl, rfl⟩
      · cases h
    · refine spells_bracket g (readItems_parts fuel) ?_
      rw [readValue, skipSpace_of_not (by decide)]
      exact h
    · refine spells_brace g (readMembers_parts fuel) ?_
      rw [readValue, skipSpace_of_not (by decide)]
      exact h
    · split at h
      · rename_i hread
        obtain ⟨rfl, hrest⟩ := Prod.mk.inj h
        obtain rfl := Option.some.inj hrest
        exact spells_scalar g (exists_minus hread)
      · cases h
    · split at h
      · rename_i hdigit
        split at h
        · rename_i hread
          obtain ⟨rfl, hrest⟩ := Prod.mk.inj h
          obtain rfl := Option.some.inj hrest
          exact spells_scalar g (exists_number hdigit hread)
        · cases h
      · split at h
        · exact spells_scalar g (exists_word .null h)
        · split at h
          · exact spells_scalar g (exists_word (.flag true) h)
          · exact spells_scalar g (exists_word (.flag false) h)
    · cases h

theorem readItems_parts : ∀ (fuel : Nat) {cs rest : List Char} {items : List Sketch}
    {closed : Bool},
    readItems fuel cs = (items, closed, some rest) → closed = true ∧ SpellsItems cs rest items
  | 0, cs, rest, items, closed, h => by
    rw [readItems] at h
    cases h
  | fuel + 1, cs, rest, items, closed, h => by
    rw [readItems] at h
    split at h
    · cases h
    · rename_i value middle hread
      obtain ⟨v, rfl, rfl⟩ := (readValue_parts fuel hread).with_gap
      split at h
      · rename_i tail hend
        obtain ⟨rfl, hpair⟩ := Prod.mk.inj h
        obtain ⟨rfl, hrest⟩ := Prod.mk.inj hpair
        obtain rfl := Option.some.inj hrest
        refine ⟨rfl, v, [], fun inside => ?_, by rw [itemSketches, itemSketches]⟩
        rw [itemChars, hend, List.append_assoc, List.singleton_append]
      · rename_i tail hend
        rcases hitems : readItems fuel tail with ⟨items, closed, last⟩
        rw [hitems] at h
        obtain ⟨rfl, hpair⟩ := Prod.mk.inj h
        obtain ⟨rfl, rfl⟩ := Prod.mk.inj hpair
        obtain ⟨rfl, w, ws, htail, rfl⟩ := readItems_parts fuel hitems
        refine ⟨rfl, v, w :: ws, fun inside => ?_, by rw [itemSketches]⟩
        rw [itemChars_cons_cons, hend, htail inside, List.append_assoc, List.cons_append]
      · cases h

theorem readMembers_parts : ∀ (fuel : Nat) {cs rest : List Char}
    {members : List (Option String × Sketch)} {closed : Bool},
    readMembers fuel cs = (members, closed, some rest) →
      closed = true ∧ SpellsMembers cs rest members
  | 0, cs, rest, members, closed, h => by
    rw [readMembers] at h
    cases h
  | fuel + 1, cs, rest, members, closed, h => by
    rw [readMembers] at h
    split at h
    · rename_i ds hquote
      split at h
      · cases h
      · rename_i key middle hkey
        split at h
        · rename_i ds hcolon
          obtain ⟨k, rfl, rfl⟩ := exists_key hquote hkey hcolon
          split at h
          · cases h
          · rename_i value middle hread
            obtain ⟨v, rfl, rfl⟩ := (readValue_parts fuel hread).with_gap
            split at h
            · rename_i tail hend
              obtain ⟨rfl, hpair⟩ := Prod.mk.inj h
              obtain ⟨rfl, hrest⟩ := Prod.mk.inj hpair
              obtain rfl := Option.some.inj hrest
              refine ⟨rfl, k, v, [], fun inside => ?_, by rw [memberSketches, memberSketches]⟩
              rw [memberChars, hend]
              simp
            · rename_i tail hend
              rcases hmembers : readMembers fuel tail with ⟨members, closed, last⟩
              rw [hmembers] at h
              obtain ⟨rfl, hpair⟩ := Prod.mk.inj h
              obtain ⟨rfl, rfl⟩ := Prod.mk.inj hpair
              obtain ⟨rfl, l, w, ms, htail, rfl⟩ := readMembers_parts fuel hmembers
              refine ⟨rfl, k, v, (l, w) :: ms, fun inside => ?_, by rw [memberSketches]⟩
              rw [memberChars_cons_cons, hend, htail inside]
              simp
            · cases h
        · cases h
    · cases h

end

/-- A text that is read to its end, with nothing but blanks behind it, is the text of a spelling. -/
theorem exists_spelling {t : String} {v : Sketch} (h : Json.sketch t = (v, true)) :
    ∃ s : Spelling, s.text = t ∧ s.sketch = v := by
  rw [Json.sketch] at h
  split at h
  · rename_i value rest hread
    obtain ⟨rfl, hspace⟩ := Prod.mk.inj h
    obtain ⟨s, hchars, hsketch⟩ := (readValue_parts _ hread).with_gap
    refine ⟨s, ?_, hsketch⟩
    rw [List.isEmpty_iff.mp hspace, List.append_nil] at hchars
    rw [text, ← hchars, String.ofList_toList]
  · cases h

end Spelling
end ClassScribe.Json
