import ClassScribe.Proofs.Source.Body
import ClassScribe.Proofs.Text.Plain

/-! # The only reading of plain names

A name can look like something else: a constant may be named so that its line is a comment. In a
body whose names are free of the characters that structure a line, the two lines that an item
begins with tell its kind, its lines tell its names, and there is one reading.
-/
namespace ClassScribe

namespace Source
open Text

/-- The names in an item are plain, and not empty where a line begins with them. -/
def Item.Plain : Item → Prop
  | inclusion n => Text.Plain n
  | readers ns => ∀ n ∈ ns, Unspaced n
  | accessors ns => ∀ n ∈ ns, Unspaced n
  | getter n => Text.Plain n
  | setter n => Text.Plain n ∧ n ≠ ""
  | constant n _ => Text.Plain n ∧ n ≠ ""
  | hiddenConstant n => Text.Plain n
  | classVariable n _ => Text.Plain n
  | initializer ns held => (∀ n ∈ ns, Text.Plain n) ∧ ∀ h ∈ held, Unspaced h.1
  | stub n ps => Text.Plain n ∧ ∀ p ∈ ps, Text.Plain p
  | display => True

inductive Item.Kind where
  | inclusion
  | readers
  | accessors
  | getter
  | setter
  | constant
  | hiddenConstant
  | classVariable
  | initializer
  | stub
  | display
  deriving DecidableEq, Repr

def Item.kind : Item → Item.Kind
  | inclusion _ => .inclusion
  | readers _ => .readers
  | accessors _ => .accessors
  | getter _ => .getter
  | setter _ => .setter
  | constant _ _ => .constant
  | hiddenConstant _ => .hiddenConstant
  | classVariable _ _ => .classVariable
  | initializer _ _ => .initializer
  | stub _ _ => .stub
  | display => .display

/-- The kind of a method, from its header and the line that follows. -/
def methodKind (header second : List Char) : Item.Kind :=
  if '=' ∈ header then .setter
  else if second.head? = some '#' then .stub
  else if second.head? = some '"' then .display
  else if '@' ∈ second ∧ ' ' ∉ second then .getter
  else .initializer

/-- The kind of an item, from the two lines it begins with. The words that lines begin with differ
in their first letter, or else in their sixth. -/
def kindOf (first second : List Char) : Item.Kind :=
  if (first.dropWhile (· != ' ')).take 2 = [' ', '='] then
    if first.head? = some '@' then .classVariable else .constant
  else if first.head? = some 'd' then methodKind first second
  else if first.head? = some 'i' then .inclusion
  else if first.head? = some 'p' then .hiddenConstant
  else if first[5]? = some 'r' then .readers
  else .accessors

theorem take_one_ne {x : Char} {s : List Char} (h : x ∉ s) : s.take 1 ≠ [x] := by
  cases s <;> simp_all [eq_comm]

theorem take_one_append {s : List Char} (hs : s ≠ []) (t : List Char) :
    (s ++ t).take 1 = s.take 1 := by
  cases s with
  | nil => exact absurd rfl hs
  | cons c s => rfl

theorem take_one_symbols (ns : List String) : (symbols ns).toList.take 1 ≠ ['='] := by
  cases ns with
  | nil => simp [symbols]
  | cons n ns => cases ns <;> simp [symbols, String.intercalate_cons_cons]

theorem notMem_signature {n : String} {ps : List String} (hn : Plain n) (hp : ∀ p ∈ ps, Plain p) :
    '=' ∉ (signature n ps).toList := by
  have hn := hn.notMem (c := '=') (by decide)
  have hps : '=' ∉ (", ".intercalate ps).toList := by
    intro h
    rw [String.toList_intercalate] at h
    rcases mem_of_mem_intercalate h with h | ⟨l, hl, h⟩
    · simp at h
    · obtain ⟨p, hmem, rfl⟩ := List.mem_map.mp hl
      exact (hp p hmem).notMem (by decide) h
  rw [signature]
  split
  · simp [hn]
  · simpa [hn] using hps

theorem kindOf_method {header second : List Char} (h : header.take 1 ≠ ['=']) :
    kindOf ("def ".toList ++ header) second = methodKind ("def ".toList ++ header) second := by
  simp [kindOf, h]

theorem kindOf_signature {n : String} {ps : List String} (hn : Plain n) (hp : ∀ p ∈ ps, Plain p)
    {second : List Char} : kindOf (signature n ps).toList second =
      if second.head? = some '#' then .stub
      else if second.head? = some '"' then .display
      else if '@' ∈ second ∧ ' ' ∉ second then .getter
      else .initializer := by
  have heq := notMem_signature hn hp
  rw [signature, String.append_assoc, String.toList_append] at heq ⊢
  rw [kindOf_method (take_one_ne fun h => heq (List.mem_append_right _ h)), methodKind, if_neg heq]

theorem kindOf_texts {i : Item} (hi : i.Plain) (r : List String) :
    kindOf ((i.texts ++ r).getD 0 "").toList ((i.texts ++ r).getD 1 "").toList = i.kind := by
  cases i with
  | inclusion n =>
    have heq := hi.notMem (c := '=') (by decide)
    simp [Item.texts, kindOf, Item.kind, take_one_ne heq]
  | readers ns => simp [Item.texts, kindOf, Item.kind, take_one_symbols ns]
  | accessors ns => simp [Item.texts, kindOf, Item.kind, take_one_symbols ns]
  | getter n =>
    have heq := hi.notMem (c := '=') (by decide)
    have hspace := hi.notMem (c := ' ') (by decide)
    change kindOf ("def " ++ n).toList ("@" ++ n).toList = .getter
    rw [String.toList_append, kindOf_method (take_one_ne heq)]
    simp [methodKind, heq, hspace]
  | setter n =>
    have heq := hi.1.notMem (c := '=') (by decide)
    have hne : n.toList ≠ [] := by simpa using hi.2
    change kindOf ("def " ++ n ++ "=(value)").toList _ = .setter
    rw [String.append_assoc, String.toList_append, kindOf_method]
    · simp [methodKind]
    · rw [String.toList_append, take_one_append hne]
      exact take_one_ne heq
  | constant n v =>
    have hat := hi.1.notMem (c := '@') (by decide)
    have hhead (t : List Char) : (n.toList ++ t).head? ≠ some '@' := by
      intro h
      cases hl : n.toList with
      | nil => exact hi.2 (by simpa using hl)
      | cons c l => simp_all
    change kindOf (n ++ " = " ++ v).toList _ = .constant
    rw [String.append_assoc, String.toList_append, kindOf, hi.1.dropWhile, if_neg (hhead _)]
    simp
  | hiddenConstant n => simp [Item.texts, kindOf, Item.kind]
  | classVariable n v =>
    have hn : Plain n := hi
    simp [Item.texts, kindOf, Item.kind, hn.dropWhile]
  | initializer ns held =>
    change kindOf (signature "initialize" ns).toList _ = .initializer
    rw [kindOf_signature (by simp [Plain]) hi.1]
    -- the second line sets a first name or a first reference, or else is the end
    cases ns with
    | cons n ns => simp [Item.texts]
    | nil => cases held <;> simp [Item.texts]
  | stub n ps =>
    change kindOf (signature n ps).toList "# TODO: Implement this method here.".toList = .stub
    rw [kindOf_signature hi.1 hi.2]
    exact if_pos (by simp)
  | display => simp [Item.texts, kindOf, Item.kind, methodKind]

theorem assignment_inj {n n' value value' : String} (hn : Unspaced n) (hn' : Unspaced n')
    (h : n ++ " = " ++ value = n' ++ " = " ++ value') : n = n' ∧ value = value' := by
  have hlist := congrArg String.toList h
  rw [String.append_assoc, String.append_assoc, String.toList_append, String.toList_append] at hlist
  obtain ⟨hname, hrest⟩ := append_cons_inj (x := ' ') hn hn' (by simpa using hlist)
  exact ⟨String.toList_inj.mp hname, String.toList_inj.mp (by simpa using hrest)⟩

theorem symbols_inj {ns ns' : List String} (hn : ∀ n ∈ ns, Unspaced n)
    (hn' : ∀ n ∈ ns', Unspaced n) (h : symbols ns = symbols ns') : ns = ns' := by
  have hunspaced {ns : List String} (hn : ∀ n ∈ ns, Unspaced n) :
      ∀ s ∈ ns.map (":" ++ ·), Unspaced s := by
    intro s hs
    obtain ⟨n, hmem, rfl⟩ := List.mem_map.mp hs
    simpa [Unspaced] using hn n hmem
  have hempty {n : String} {ns : List String} : symbols (n :: ns) ≠ symbols [] := by
    intro h
    have hlist := congrArg String.toList h
    cases ns <;> simp [symbols, String.intercalate_cons_cons] at hlist
  cases ns with
  | nil =>
    cases ns' with
    | nil => rfl
    | cons n ns' => exact absurd h.symm hempty
  | cons n ns =>
    cases ns' with
    | nil => exact absurd h hempty
    | cons n' ns' =>
      have hmap := intercalate_inj (hunspaced hn) (hunspaced hn') (by simp) (by simp) h
      exact List.map_injective_iff.mpr (fun _ _ => (String.append_right_inj _).mp) hmap

theorem signature_inj {n n' : String} {ps ps' : List String} (hn : Plain n) (hn' : Plain n')
    (hp : ∀ p ∈ ps, Plain p) (hp' : ∀ p ∈ ps', Plain p) (h : signature n ps = signature n' ps') :
    n = n' ∧ ps = ps' := by
  have hparen {n : String} (hn : Plain n) : '(' ∉ n.toList := hn.notMem (by decide)
  -- with a parenthesis at the end there is one behind the name in either case
  let inside (ps : List String) : List Char :=
    if ps.isEmpty then [] else (", ".intercalate ps).toList ++ [')', '(']
  have hform (n : String) (ps : List String) :
      (signature n ps ++ "(").toList = "def ".toList ++ (n.toList ++ '(' :: inside ps) := by
    cases ps <;> simp [signature, inside]
  have hlist := congrArg (fun s => (s ++ "(").toList) h
  simp only [hform] at hlist
  obtain ⟨hname, hrest⟩ :=
    append_cons_inj (hparen hn) (hparen hn') (List.append_cancel_left hlist)
  refine ⟨String.toList_inj.mp hname, ?_⟩
  cases ps with
  | nil =>
    cases ps' with
    | nil => rfl
    | cons p' ps' => simp [inside] at hrest
  | cons p ps =>
    cases ps' with
    | nil => simp [inside] at hrest
    | cons p' ps' =>
      refine intercalate_inj (fun p h => (hp p h).unspaced) (fun p h => (hp' p h).unspaced)
        (List.cons_ne_nil _ _) (List.cons_ne_nil _ _) (String.toList_inj.mp ?_)
      exact List.append_cancel_right hrest

theorem held_inj {held held' : List (String × String)} (hh : ∀ x ∈ held, Unspaced x.1)
    (hh' : ∀ x ∈ held', Unspaced x.1) {r r' : List String}
    (h : held.map (fun x => "@" ++ x.1 ++ " = " ++ x.2 ++ ".new") ++ "end" :: r =
      held'.map (fun x => "@" ++ x.1 ++ " = " ++ x.2 ++ ".new") ++ "end" :: r') : held = held' := by
  have hend (x : String × String) : "@" ++ x.1 ++ " = " ++ x.2 ++ ".new" ≠ "end" := by
    intro he
    simpa using congrArg String.toList he
  have hat {s : String} (hs : Unspaced s) : Unspaced ("@" ++ s) := by simpa [Unspaced] using hs
  induction held generalizing held' with
  | nil =>
    cases held' with
    | nil => rfl
    | cons x' held' => exact absurd (List.cons.inj h).1.symm (hend x')
  | cons x held ih =>
    cases held' with
    | nil => exact absurd (List.cons.inj h).1 (hend x)
    | cons x' held' =>
      obtain ⟨hx, hheld⟩ := List.forall_mem_cons.mp hh
      obtain ⟨hx', hheld'⟩ := List.forall_mem_cons.mp hh'
      obtain ⟨hfirst, hrest⟩ := List.cons.inj h
      have hassign (x : String × String) : "@" ++ x.1 ++ " = " ++ x.2 ++ ".new" =
        "@" ++ x.1 ++ " = " ++ (x.2 ++ ".new") := String.append_assoc ..
      obtain ⟨hmember, hconstant⟩ := assignment_inj (hat hx) (hat hx')
        ((hassign x).symm.trans (hfirst.trans (hassign x')))
      have hmember := (String.append_right_inj _).mp hmember
      have hconstant := (String.append_left_inj _).mp hconstant
      rw [Prod.ext hmember hconstant, ih hheld hheld' hrest]

/-- The lines of an item are not the beginning of those of another one. -/
theorem texts_inj {i j : Item} (hi : i.Plain) (hj : j.Plain) {r r' : List String}
    (h : i.texts ++ r = j.texts ++ r') : i = j := by
  have hkind : i.kind = j.kind := by rw [← kindOf_texts hi r, h, kindOf_texts hj]
  cases i <;> cases j <;> try cases hkind
  all_goals obtain ⟨hfirst, hrest⟩ := List.cons.inj h
  case inclusion.inclusion => rw [(String.append_right_inj _).mp hfirst]
  case readers.readers => rw [symbols_inj hi hj ((String.append_right_inj _).mp hfirst)]
  case accessors.accessors => rw [symbols_inj hi hj ((String.append_right_inj _).mp hfirst)]
  case getter.getter => rw [(String.append_right_inj _).mp hfirst]
  case setter.setter =>
    rw [(String.append_right_inj _).mp ((String.append_left_inj _).mp hfirst)]
  case constant.constant =>
    obtain ⟨rfl, rfl⟩ := assignment_inj hi.1.unspaced hj.1.unspaced hfirst
    rfl
  case hiddenConstant.hiddenConstant => rw [(String.append_right_inj _).mp hfirst]
  case classVariable.classVariable n _ n' _ =>
    have hat {n : String} (hn : Plain n) : Unspaced ("@@" ++ n) := by
      simpa [Unspaced] using hn.unspaced
    obtain ⟨hname, rfl⟩ := assignment_inj (hat hi) (hat hj) hfirst
    rw [(String.append_right_inj _).mp hname]
  case initializer.initializer ns held ns' held' =>
    have hname : Plain "initialize" := by simp [Plain]
    obtain ⟨-, rfl⟩ := signature_inj hname hname hi.1 hj.1 hfirst
    have hheld : held.map (fun x => "@" ++ x.1 ++ " = " ++ x.2 ++ ".new") ++ "end" :: r =
        held'.map (fun x => "@" ++ x.1 ++ " = " ++ x.2 ++ ".new") ++ "end" :: r' := by
      simpa using hrest
    rw [held_inj hi.2 hj.2 hheld]
  case stub.stub =>
    obtain ⟨rfl, rfl⟩ := signature_inj hi.1 hj.1 hi.2 hj.2 hfirst
    rfl
  case display.display => rfl

def unindent (l : String) : List Char := l.toList.dropWhile fun c => c == ' ' || c == '\t'

/-- A text that shows where the indentation in front of it ends. -/
def Solid (s : String) : Prop := s ≠ "" ∧ ∀ c ∈ s.toList.head?, c ≠ ' ' ∧ c ≠ '\t'

theorem unindent_padded {pad s : String} (hpad : IsPad pad) (hs : Solid s) :
    unindent (pad ++ s) = s.toList := by
  obtain ⟨hne, hhead⟩ := hs
  rw [unindent, String.toList_append,
    List.dropWhile_append_of_pos fun c hc => by simpa using hpad c hc]
  cases hl : s.toList with
  | nil => exact absurd (String.toList_eq_nil_iff.mp hl) hne
  | cons c cs =>
    have hc := hhead c (by simp [hl])
    exact List.dropWhile_cons_of_neg (by simpa using hc)

theorem Shows.unindent {l s : String} (h : Shows l s) (hs : Solid s) : unindent l = s.toList := by
  obtain ⟨pad, hpad, rfl⟩ := h.padded
  exact unindent_padded hpad hs

theorem solid_append {s : String} (hs : Solid s) (t : String) : Solid (s ++ t) := by
  obtain ⟨hne, hhead⟩ := hs
  have hlist : s.toList ≠ [] := by simpa using hne
  refine ⟨by simp [hne], fun c hc => hhead c ?_⟩
  rwa [String.toList_append, List.head?_append_of_ne_nil _ hlist] at hc

theorem solid_signature (n : String) (ps : List String) : Solid (signature n ps) := by
  rw [signature, String.append_assoc]
  exact solid_append (by simp [Solid]) _

theorem solid_texts {i : Item} (hi : i.Plain) : ∀ s ∈ i.texts, Solid s := by
  cases i with
  | constant n v =>
    have hn : Solid n := by
      refine ⟨hi.2, fun c hc => ?_⟩
      have hc := hi.1 c (List.mem_of_mem_head? hc)
      simp_all
    simpa [Item.texts] using solid_append (solid_append hn _) _
  | initializer ns held =>
    intro s hs
    simp only [Item.texts, List.mem_append, List.mem_cons, List.mem_map, List.not_mem_nil,
      or_false] at hs
    rcases hs with ((rfl | ⟨n, -, rfl⟩) | ⟨x, -, rfl⟩) | rfl
    · exact solid_signature _ ns
    · simp [Solid]
    · simp [Solid]
    · simp [Solid]
  | stub n ps => exact List.forall_mem_cons.mpr ⟨solid_signature n ps, by simp [Solid]⟩
  | _ => simp [Item.texts, Solid]

/-- What a line of a body is: blank, a comment, a marker or the first line of an item. -/
inductive LineKind where
  | blank
  | comment
  | marker
  | item
  deriving DecidableEq, Repr

def lineKind (l : String) : LineKind :=
  if unindent l = [] then .blank
  else if (unindent l).head? = some '#' then .comment
  else if ' ' ∈ unindent l then .item
  else .marker

theorem lineKind_empty : lineKind "" = .blank := by decide

theorem lineKind_comment {l s : String} (h : Shows l ("#" ++ s)) : lineKind l = .comment := by
  have hl := h.unindent (solid_append (by simp [Solid]) s)
  simp [lineKind, hl]

theorem marker_inj {u u' : Visibility} (h : u.marker = u'.marker) : u = u' := by
  have hmarker (u : Visibility) : Visibility.ofMarker? u.marker = some u := by cases u <;> decide
  exact Option.some.inj (by rw [← hmarker u, h, hmarker u'])

theorem unindent_marker {l : String} {u : Visibility} (h : Shows l u.marker) :
    unindent l = u.marker.toList :=
  h.unindent (by cases u <;> simp [Solid, Visibility.marker])

theorem lineKind_marker {l : String} {u : Visibility} (h : Shows l u.marker) :
    lineKind l = .marker := by
  rw [lineKind, unindent_marker h]
  cases u <;> simp [Visibility.marker]

/-- An item begins with a line in which a blank stands, and which is no comment. -/
theorem texts_cons {i : Item} (hi : i.Plain) : ∃ s rest, i.texts = s :: rest ∧ ' ' ∈ s.toList ∧
    s.toList.head? ≠ some '#' := by
  have hsignature (n : String) (ps : List String) : ' ' ∈ (signature n ps).toList ∧
      (signature n ps).toList.head? ≠ some '#' := by
    simp [signature]
  cases i with
  | constant n v =>
    have hsharp := hi.1.notMem (c := '#') (by decide)
    refine ⟨_, _, rfl, by simp, fun h => ?_⟩
    cases hl : n.toList <;> simp_all
  | initializer ns held => exact ⟨_, _, rfl, hsignature _ ns⟩
  | stub n ps => exact ⟨_, _, rfl, hsignature n ps⟩
  | _ => exact ⟨_, _, rfl, by simp, by simp⟩

theorem lineKind_item {i : Item} (hi : i.Plain) {shown : List String}
    (h : List.Forall₂ Shows shown i.texts) : ∃ l rest, shown = l :: rest ∧ lineKind l = .item := by
  obtain ⟨s, rest, htexts, hspace, hsharp⟩ := texts_cons hi
  have hs : Solid s := solid_texts hi s (by simp [htexts])
  rw [htexts] at h
  cases h with
  | cons hl _ =>
    refine ⟨_, _, rfl, ?_⟩
    have hne : s ≠ "" := hs.1
    simp [lineKind, hl.unindent hs, hspace, hsharp, hne]

theorem map_unindent {shown ts : List String} (h : List.Forall₂ Shows shown ts)
    (ht : ∀ s ∈ ts, Solid s) : shown.map unindent = ts.map String.toList := by
  induction h with
  | nil => rfl
  | cons hl _ ih =>
    obtain ⟨hs, hts⟩ := List.forall_mem_cons.mp ht
    rw [List.map_cons, List.map_cons, hl.unindent hs, ih hts]

/-- What an item is shown as tells the item, and where it ends. -/
theorem shown_inj {i j : Item} (hi : i.Plain) (hj : j.Plain) {shown shown' ls ls' : List String}
    (h : List.Forall₂ Shows shown i.texts) (h' : List.Forall₂ Shows shown' j.texts)
    (hls : shown ++ ls = shown' ++ ls') : i = j ∧ ls = ls' := by
  have htexts : i.texts ++ ls.map (String.ofList ∘ unindent) =
      j.texts ++ ls'.map (String.ofList ∘ unindent) := by
    have hmap := congrArg (List.map (String.ofList ∘ unindent)) hls
    have hshown {k : Item} (hk : k.Plain) {shown : List String}
        (h : List.Forall₂ Shows shown k.texts) :
        shown.map (String.ofList ∘ unindent) = k.texts := by
      rw [← List.map_map, map_unindent h (solid_texts hk), List.map_map]
      simp [Function.comp_def]
    rwa [List.map_append, List.map_append, hshown hi h, hshown hj h'] at hmap
  obtain rfl := texts_inj hi hj htexts
  have hlength : shown.length = shown'.length := h.length_eq.trans h'.length_eq.symm
  exact ⟨rfl, (List.append_inj hls hlength).2⟩

namespace Reads

variable {v w w' : Visibility} {l : String} {ls : List String} {xs ys : List (Visibility × Item)}

theorem of_nil (h : Reads v [] xs w) (hx : ∀ x ∈ xs, x.2.Plain) : xs = [] ∧ w = v := by
  generalize hl : ([] : List String) = none at h
  cases h with
  | done => exact ⟨rfl, rfl⟩
  | item i hi h =>
    obtain ⟨l, rest, rfl, -⟩ := lineKind_item (hx _ List.mem_cons_self) hi
    cases hl
  | _ => cases hl

/-- The first line says what a reading does first. -/
theorem of_cons (h : Reads v (l :: ls) xs w) (hx : ∀ x ∈ xs, x.2.Plain) :
    match lineKind l with
    | .blank => Reads v ls xs w
    | .comment => Reads v ls xs w
    | .marker => ∃ u : Visibility, Shows l u.marker ∧ Reads u ls xs w
    | .item => ∃ i shown rest ys, l :: ls = shown ++ rest ∧ List.Forall₂ Shows shown i.texts ∧
        xs = (v, i) :: ys ∧ Reads v rest ys w := by
  generalize hall : l :: ls = all at h
  cases h with
  | done => cases hall
  | blank h =>
    obtain ⟨rfl, rfl⟩ := List.cons.inj hall
    rw [lineKind_empty]
    exact h
  | comment hl h =>
    obtain ⟨rfl, rfl⟩ := List.cons.inj hall
    rw [lineKind_comment hl]
    exact h
  | marker u hl h =>
    obtain ⟨rfl, rfl⟩ := List.cons.inj hall
    rw [lineKind_marker hl]
    exact ⟨u, hl, h⟩
  | item i hi h =>
    obtain ⟨l', rest, rfl, hkind⟩ := lineKind_item (hx _ List.mem_cons_self) hi
    obtain ⟨rfl, -⟩ := List.cons.inj hall
    rw [hkind]
    exact ⟨i, _, _, _, rfl, hi, rfl, h⟩

/-- Lines are read in one way, as far as names are plain. -/
theorem unique (h : Reads v ls xs w) (h' : Reads v ls ys w') (hx : ∀ x ∈ xs, x.2.Plain)
    (hy : ∀ y ∈ ys, y.2.Plain) : ys = xs ∧ w' = w := by
  induction h generalizing ys with
  | done => exact h'.of_nil hy
  | blank h ih =>
    have hrest := h'.of_cons hy
    rw [lineKind_empty] at hrest
    exact ih hrest hx hy
  | comment hl h ih =>
    have hrest := h'.of_cons hy
    rw [lineKind_comment hl] at hrest
    exact ih hrest hx hy
  | marker u hl h ih =>
    have hrest := h'.of_cons hy
    rw [lineKind_marker hl] at hrest
    obtain ⟨u', hl', hrest⟩ := hrest
    have hmarker := (unindent_marker hl).symm.trans (unindent_marker hl')
    obtain rfl := marker_inj (String.toList_inj.mp hmarker)
    exact ih hrest hx hy
  | item i hi h ih =>
    obtain ⟨hplain, hxs⟩ := List.forall_mem_cons.mp hx
    obtain ⟨l, rest, hshown, hkind⟩ := lineKind_item hplain hi
    rw [hshown] at h'
    have hrest := h'.of_cons hy
    rw [hkind] at hrest
    obtain ⟨j, shown', rest', ys', hall, hj, rfl, hrest⟩ := hrest
    obtain ⟨hplain', hys⟩ := List.forall_mem_cons.mp hy
    obtain ⟨rfl, rfl⟩ := shown_inj hplain hplain' hi hj (by rw [hshown]; exact hall)
    obtain ⟨rfl, rfl⟩ := ih hrest hxs hys
    exact ⟨rfl, rfl⟩

end Reads
end Source

open Text

def Attribute.Plain (a : Attribute) : Prop := Text.Plain a.name ∧ a.name ≠ ""

def Operation.Plain (op : Operation) : Prop :=
  Text.Plain op.name ∧ ∀ p ∈ op.parameters, Text.Plain p.name

structure Members.Plain (ms : Members) : Prop where
  attributes : ∀ a ∈ ms.attributes, a.Plain
  operations : ∀ op ∈ ms.operations, op.Plain

/-- The names of elements, members and parameters are plain, and attributes have one. -/
def Model.Plain (m : Model) : Prop :=
  ∀ e ∈ m.elements, Text.Plain e.name ∧ ∀ ms ∈ e.kind.members?, ms.Plain

instance (a : Attribute) : Decidable a.Plain := inferInstanceAs (Decidable (_ ∧ _))

instance (op : Operation) : Decidable op.Plain := inferInstanceAs (Decidable (_ ∧ _))

instance (ms : Members) : Decidable ms.Plain :=
  decidable_of_iff ((∀ a ∈ ms.attributes, a.Plain) ∧ ∀ op ∈ ms.operations, op.Plain)
    ⟨fun h => ⟨h.1, h.2⟩, fun h => ⟨h.attributes, h.operations⟩⟩

instance (m : Model) : Decidable m.Plain := inferInstanceAs (Decidable (∀ e ∈ m.elements, _ ∧ _))

theorem Model.Plain.name {m : Model} (h : m.Plain) (i : ElementId) : Text.Plain (m.name i) := by
  cases he : m.element? i with
  | none => simp [Model.name, he, Text.Plain]
  | some e =>
    rw [Generate.name_of_element he]
    exact (h e (Array.mem_of_getElem? he)).1

theorem Model.Plain.stem {m : Model} (h : m.Plain) (i : ElementId) :
    Unspaced (Text.stem (m.name i)) := by
  rw [Text.stem, Unspaced, String.toList_ofList]
  exact fun hs => (h.name i).unspaced (mem_of_mem_stemChars (by decide) hs)

namespace Source

theorem plain_accessorItems (o : Options) {as : List Attribute} (h : ∀ a ∈ as, a.Plain) :
    ∀ x ∈ accessorItems o as, x.Plain := by
  have hnames (p : Attribute → Bool) : ∀ n ∈ (as.filter p).map (·.name), Unspaced n := by
    intro n hn
    obtain ⟨a, ha, rfl⟩ := List.mem_map.mp hn
    exact (h a (List.mem_of_mem_filter ha)).1.unspaced
  intro x hx
  rcases cases_accessorItems hx with ⟨-, p, rfl | rfl⟩ | ⟨-, a, ha, rfl | rfl⟩
  · exact hnames p
  · exact hnames p
  · exact (h a ha).1
  · exact h a ha

theorem plain_sharedItems {as : List Attribute} (h : ∀ a ∈ as, a.Plain) :
    ∀ x ∈ sharedItems as, x.Plain := by
  intro x hx
  obtain ⟨a, ha, rfl | rfl | rfl⟩ := cases_sharedItems hx
  · exact h a ha
  · exact (h a ha).1
  · exact (h a ha).1

theorem plain_stubItems {ops : List Operation} (h : ∀ op ∈ ops, op.Plain) :
    ∀ x ∈ stubItems ops, x.Plain := by
  intro x hx
  obtain ⟨op, hop, rfl⟩ := List.mem_map.mp hx
  obtain ⟨hname, hparameters⟩ := h op hop
  refine ⟨hname, fun p hp => ?_⟩
  obtain ⟨q, hq, rfl⟩ := List.mem_map.mp hp
  exact hparameters q (List.mem_of_mem_filter hq)

theorem plain_classItems {m : Model} (hm : m.Plain) {ms : Members} (hms : ms.Plain)
    (root i : ElementId) (o : Options) :
    ∀ x ∈ classItems m root o (ClassFacts.of m root i ms), x.2.Plain := by
  let f := ClassFacts.of m root i ms
  have hinstance : ∀ a ∈ f.instanceAttributes, a.Plain :=
    fun a ha => hms.attributes a (List.mem_of_mem_filter ha)
  have hstems : ∀ h ∈ f.held, Unspaced h.stem := by
    intro h hh
    obtain ⟨j, -, rfl⟩ := List.mem_map.mp hh
    exact hm.stem j
  intro x hx
  obtain ⟨s, -, hx⟩ := mem_classItems hx
  rcases cases_items hx with ⟨v, hx⟩ | ⟨v, hx⟩ | ⟨-, hx⟩ | ⟨-, hx⟩ | ⟨j, hx⟩ | hx | hx
  · exact plain_accessorItems o (fun a ha => hinstance a (List.mem_of_mem_filter ha)) _ hx
  · exact plain_stubItems (fun op hop => hms.operations op (List.mem_of_mem_filter hop)) _ hx
  · rw [hx]
    intro n hn
    obtain ⟨h, hh, rfl⟩ := List.mem_map.mp hn
    exact hstems h hh
  · exact plain_sharedItems (fun a ha => hms.attributes a (List.mem_of_mem_filter ha)) _ hx
  · rw [hx]
    exact hm.name j
  · rw [hx]
    refine ⟨fun n hn => ?_, fun y hy => ?_⟩
    · obtain ⟨a, ha, rfl⟩ := List.mem_map.mp hn
      exact (hinstance a ha).1
    · obtain ⟨h, hh, rfl⟩ := List.mem_map.mp hy
      exact hstems h hh
  · rw [hx]
    exact trivial

theorem plain_interfaceItems {ms : Members} (hms : ms.Plain) :
    ∀ x ∈ interfaceItems ms, x.2.Plain := by
  intro x hx
  obtain ⟨v, -, hx⟩ := List.mem_flatMap.mp hx
  obtain ⟨y, hy, rfl⟩ := List.mem_map.mp hx
  exact plain_stubItems (fun op hop => hms.operations op (List.mem_of_mem_filter hop)) y hy

end Source
end ClassScribe
