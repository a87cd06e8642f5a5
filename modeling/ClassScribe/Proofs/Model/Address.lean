import Mathlib.Data.List.Lex
import ClassScribe.Proofs.Model.Nodes

/-! # Addresses in a snapshot

An address leads from the root of a snapshot down to one of its nodes: each of its numbers says
which of the owned elements comes next, and only packages own any. The order of the addresses is
preorder, in which an element comes before all that it owns, so the number of a node is the number
of addresses in front of its own.
-/
namespace ClassScribe
namespace Snapshot

abbrev Address := List Nat

namespace Element

/-- The element at an address below another one. -/
def at? (e : Element) : Address → Option Element
  | [] => some e
  | k :: a => if isPackageKind e.kind then e.ownedElements[k]?.bind fun x => x.at? a else none

/-- How many elements are registered from an element on before the one at an address. -/
def offset (e : Element) : Address → Nat
  | [] => 0
  | k :: a => 1 + countAll (e.ownedElements.take k) + e.ownedElements[k]?.elim 0 fun x => x.offset a

/-- The names on the way to an address, both ends included. -/
def namesTo (e : Element) : Address → List String
  | [] => [e.name]
  | k :: a => e.name :: e.ownedElements[k]?.elim [] fun x => x.namesTo a

end Element

variable {e n x : Element} {es : List Element} {a b : Address} {j k : Nat}

theorem at?_cons (h : e.at? (k :: a) = some n) :
    isPackageKind e.kind = true ∧ ∃ x, e.ownedElements[k]? = some x ∧ x.at? a = some n := by
  rw [Element.at?] at h
  split at h
  · rename_i hk
    obtain ⟨x, hx, hn⟩ := Option.bind_eq_some_iff.mp h
    exact ⟨hk, x, hx, hn⟩
  · cases h

theorem at?_append (h : e.at? a = some x) (b : Address) : e.at? (a ++ b) = x.at? b := by
  induction a generalizing e with
  | nil =>
    obtain rfl := Option.some.inj h
    rfl
  | cons k a ih =>
    obtain ⟨hk, y, hy, hx⟩ := at?_cons h
    rw [List.cons_append, Element.at?, if_pos hk, hy]
    exact ih hx

theorem count_eq (e : Element) :
    e.count = 1 + if isPackageKind e.kind then countAll e.ownedElements else 0 := by
  cases e
  rw [Element.count]

theorem countAll_append (es fs : List Element) :
    countAll (es ++ fs) = countAll es + countAll fs := by
  induction es with
  | nil => exact (Nat.zero_add _).symm
  | cons e es ih => rw [List.cons_append, countAll, countAll, ih, Nat.add_assoc]

theorem countAll_take_succ (h : es[k]? = some x) :
    countAll (es.take (k + 1)) = countAll (es.take k) + x.count := by
  rw [List.take_add_one, h, countAll_append]
  rfl

theorem countAll_take_mono (es : List Element) {k l : Nat} (h : k ≤ l) :
    countAll (es.take k) ≤ countAll (es.take l) := by
  obtain ⟨rest, hr⟩ := List.take_prefix_take_left h (l := es)
  rw [← hr, countAll_append]
  exact Nat.le_add_right _ _

theorem countAll_take_le (es : List Element) (k : Nat) : countAll (es.take k) ≤ countAll es := by
  conv_rhs => rw [← List.take_append_drop k es, countAll_append]
  exact Nat.le_add_right _ _

/-- Every number below the count falls to one of the elements. -/
theorem exists_of_lt_countAll (h : j < countAll es) : ∃ k x, es[k]? = some x ∧
    countAll (es.take k) ≤ j ∧ j < countAll (es.take k) + x.count := by
  induction es generalizing j with
  | nil => cases h
  | cons e es ih =>
    by_cases hj : j < e.count
    · exact ⟨0, e, rfl, Nat.zero_le _, (Nat.zero_add e.count).symm ▸ hj⟩
    · rw [countAll] at h
      obtain ⟨k, x, hx, hle, hlt⟩ := ih (j := j - e.count) (by omega)
      refine ⟨k + 1, x, hx, ?_, ?_⟩
      · rw [List.take_succ_cons, countAll]
        omega
      · rw [List.take_succ_cons, countAll]
        omega

theorem offset_cons (h : e.ownedElements[k]? = some x) (a : Address) :
    e.offset (k :: a) = 1 + countAll (e.ownedElements.take k) + x.offset a := by
  rw [Element.offset, h]
  rfl

/-- What is at an address is registered with all below it before the whole is done. -/
theorem offset_add_count_le (h : e.at? a = some n) : e.offset a + n.count ≤ e.count := by
  induction a generalizing e with
  | nil =>
    obtain rfl := Option.some.inj h
    exact (Nat.zero_add e.count).le
  | cons k a ih =>
    obtain ⟨hk, x, hx, hn⟩ := at?_cons h
    have hin := ih hn
    have hx' := countAll_take_succ hx
    have hall := countAll_take_le e.ownedElements (k + 1)
    rw [offset_cons hx, count_eq e, if_pos hk]
    omega

theorem offset_lt_count (h : e.at? a = some n) : e.offset a < e.count := by
  have hle := offset_add_count_le h
  rw [count_eq n] at hle
  omega

theorem offset_append (h : e.at? a = some x) (b : Address) :
    e.offset (a ++ b) = e.offset a + x.offset b := by
  induction a generalizing e with
  | nil =>
    obtain rfl := Option.some.inj h
    exact (Nat.zero_add _).symm
  | cons k a ih =>
    obtain ⟨-, y, hy, hx⟩ := at?_cons h
    rw [List.cons_append, offset_cons hy, offset_cons hy, ih hx]
    omega

/-- The order of the addresses is that of the offsets. -/
theorem offset_lt_of_lt {n' : Element} (ha : e.at? a = some n) (hb : e.at? b = some n')
    (h : a < b) : e.offset a < e.offset b := by
  induction a generalizing e b with
  | nil =>
    cases b with
    | nil => exact absurd h (List.lt_irrefl _)
    | cons l b =>
      obtain ⟨-, y, hy, -⟩ := at?_cons hb
      rw [offset_cons hy, Element.offset]
      omega
  | cons k a ih =>
    cases b with
    | nil => exact absurd h (List.not_lt_nil _)
    | cons l b =>
      obtain ⟨-, x, hx, hxa⟩ := at?_cons ha
      obtain ⟨-, y, hy, hyb⟩ := at?_cons hb
      rw [offset_cons hx, offset_cons hy]
      rcases List.cons_lt_cons_iff.mp h with hkl | ⟨rfl, hab⟩
      · have hin := offset_lt_count hxa
        have hsucc := countAll_take_succ hx
        have hmono := countAll_take_mono e.ownedElements (show k + 1 ≤ l from hkl)
        omega
      · obtain rfl := Option.some.inj (hx.symm.trans hy)
        have hrest := ih hxa hyb hab
        omega

/-- No number is left out. -/
theorem exists_offset (h : j < e.count) : ∃ a n, e.at? a = some n ∧ e.offset a = j := by
  induction j using Nat.strongRecOn generalizing e with
  | ind j ih =>
    cases j with
    | zero => exact ⟨[], e, rfl, rfl⟩
    | succ j =>
      by_cases hk : isPackageKind e.kind = true
      · rw [count_eq, if_pos hk] at h
        have hbelow : j < countAll e.ownedElements := by omega
        obtain ⟨k, x, hx, hle, hlt⟩ := exists_of_lt_countAll hbelow
        obtain ⟨a, n, hn, ha⟩ := ih (j - countAll (e.ownedElements.take k)) (by omega) (e := x)
          (by omega)
        refine ⟨k :: a, n, ?_, ?_⟩
        · rw [Element.at?, if_pos hk, hx]
          exact hn
        · rw [offset_cons hx, ha]
          omega
      · rw [count_eq, if_neg hk] at h
        omega

theorem entries_eq (parent next : ElementId) (qualifier : String) (e : Element) :
    e.entries parent next qualifier =
      e.entry parent next (qualifier ++ "." ++ e.name) (siblingIds (next + 1) e.ownedElements) ::
        if isPackageKind e.kind then
          entriesAll next (next + 1) (qualifier ++ "." ++ e.name) e.ownedElements else [] := by
  cases e
  rw [Element.entries]

theorem length_siblingIds (next : ElementId) (es : List Element) :
    (siblingIds next es).length = es.length := by
  induction es generalizing next with
  | nil => rfl
  | cons e es ih => exact congrArg (· + 1) (ih (next + e.count))

theorem siblingIds_getElem? (next : ElementId) (h : es[k]? = some x) :
    (siblingIds next es)[k]? = some (next + countAll (es.take k)) := by
  induction es generalizing k next with
  | nil => cases h
  | cons e es ih =>
    cases k with
    | zero => rfl
    | succ k =>
      rw [siblingIds, List.getElem?_cons_succ, ih (next + e.count) h, List.take_succ_cons, countAll,
        Nat.add_assoc]

theorem entriesAll_getElem? {parent next : ElementId} (hp : parent < next) (qualifier : String)
    (h : es[k]? = some x) (hj : j < x.count) :
    (entriesAll parent next qualifier es)[countAll (es.take k) + j]? =
      (x.entries parent (next + countAll (es.take k)) qualifier)[j]? := by
  induction es generalizing k next with
  | nil => cases h
  | cons e es ih =>
    have hlen : (e.entries parent next qualifier).length = e.count :=
      (e.entries_block parent next qualifier hp).2.1
    rw [entriesAll]
    cases k with
    | zero =>
      obtain rfl := Option.some.inj h
      rw [List.take_zero, countAll, Nat.zero_add, Nat.add_zero,
        List.getElem?_append_left (hlen ▸ hj)]
    | succ k =>
      have hnext : parent < next + e.count := Nat.lt_add_right _ hp
      have hrest := ih hnext h
      have hsub : e.count + countAll (es.take k) + j - e.count = countAll (es.take k) + j := by lia
      rw [List.take_succ_cons, countAll, List.getElem?_append_right (by lia), hlen, hsub, hrest,
        Nat.add_assoc]

/-- What is registered for a node below an element with the number `next`: its parent is the node
one step above it, and it owns the siblings that follow it. -/
theorem entries_below (h : e.at? (k :: a) = some n) (next : ElementId) (above : List String) :
    ∃ j, e.offset (k :: a) = j + 1 ∧
      (entriesAll next (next + 1) (".".intercalate (above ++ [e.name])) e.ownedElements)[j]? =
        some (n.entry (next + e.offset (k :: a).dropLast) (next + e.offset (k :: a))
          (".".intercalate (above ++ e.namesTo (k :: a)))
          (siblingIds (next + e.offset (k :: a) + 1) n.ownedElements)) := by
  induction a generalizing e k next above with
  | nil =>
    obtain ⟨-, x, hx, hn⟩ := at?_cons h
    obtain rfl := Option.some.inj hn
    have hoffset : e.offset [k] = countAll (e.ownedElements.take k) + 1 := by
      rw [offset_cons hx, Nat.add_comm 1]
      rfl
    have hnames : e.namesTo [k] = [e.name] ++ [x.name] := by
      rw [Element.namesTo, hx]
      rfl
    have hnumber : next + 1 + countAll (e.ownedElements.take k) = next + e.offset [k] := by lia
    have hparent : next = next + e.offset [k].dropLast := rfl
    have habove : above ++ [e.name] ≠ [] := List.append_ne_nil_of_right_ne_nil _ (by simp)
    have hentry := entriesAll_getElem? (j := 0) (Nat.lt_succ_self next)
      (".".intercalate (above ++ [e.name])) hx (by rw [count_eq]; lia)
    refine ⟨_, hoffset, ?_⟩
    rw [← Nat.add_zero (countAll _), hentry, entries_eq, List.getElem?_cons_zero, hnumber, hnames,
      ← List.append_assoc, intercalate_concat habove, ← hparent]
  | cons l a ih =>
    obtain ⟨-, x, hx, hn⟩ := at?_cons h
    obtain ⟨j, hj, hbelow⟩ := ih hn (next + 1 + countAll (e.ownedElements.take k))
      (above ++ [e.name])
    have hoffset : e.offset (k :: l :: a) =
        1 + countAll (e.ownedElements.take k) + x.offset (l :: a) := offset_cons hx _
    have hnames : e.namesTo (k :: l :: a) = [e.name] ++ x.namesTo (l :: a) := by
      rw [Element.namesTo, hx]
      rfl
    have habove : above ++ [e.name] ≠ [] := List.append_ne_nil_of_right_ne_nil _ (by simp)
    have hnumber : next + e.offset (k :: l :: a) =
        next + 1 + countAll (e.ownedElements.take k) + x.offset (l :: a) := by lia
    have hparent : next + e.offset (k :: l :: a).dropLast =
        next + 1 + countAll (e.ownedElements.take k) + x.offset (l :: a).dropLast := by
      rw [List.dropLast_cons_cons, offset_cons hx]
      lia
    refine ⟨countAll (e.ownedElements.take k) + (j + 1), by lia, ?_⟩
    have hentry := entriesAll_getElem? (Nat.lt_succ_self next)
      (".".intercalate (above ++ [e.name])) hx (hj ▸ offset_lt_count hn)
    rw [hentry, hnumber, hparent, hnames, ← List.append_assoc, ← hbelow, entries_eq,
      intercalate_concat habove, List.getElem?_cons_succ,
      if_pos (at?_cons hn).1]

namespace Document

variable {d : Document}

/-- The root package as an element. -/
def top (d : Document) : Element where
  kind := "package"
  id := d.id
  name := d.name
  documentation := d.documentation
  ownedElements := d.ownedElements

/-- The node at an address. -/
def at? (d : Document) (a : Address) : Option Element := d.top.at? a

/-- The number of the node at an address. -/
def number (d : Document) (a : Address) : ElementId := d.top.offset a

/-- The entry for the node at an address. -/
def entryAt (d : Document) (a : Address) (n : Element) : Entry :=
  if a = [] then d.rootEntry
  else n.entry (d.number a.dropLast) (d.number a) (".".intercalate (d.top.namesTo a))
    (siblingIds (d.number a + 1) n.ownedElements)

theorem entries_number (h : d.at? a = some n) : d.entries[d.number a]? = some (d.entryAt a n) := by
  cases a with
  | nil => rfl
  | cons k a =>
    obtain ⟨j, hj, hbelow⟩ := entries_below h Model.root []
    have hroot (i : ElementId) : Model.root + i = i := Nat.zero_add i
    simp only [hroot, List.nil_append, String.intercalate_singleton] at hbelow
    rw [entries, number, hj, List.getElem?_cons_succ, entryAt, if_neg (List.cons_ne_nil k a)]
    exact hbelow

theorem at?_child (h : d.at? a = some n) (hk : isPackageKind n.kind = true)
    (hx : n.ownedElements[k]? = some x) : d.at? (a ++ [k]) = some x := by
  rw [at?, at?_append h, Element.at?, if_pos hk, hx]
  rfl

theorem number_child (h : d.at? a = some n) (hx : n.ownedElements[k]? = some x) :
    d.number (a ++ [k]) = d.number a + 1 + countAll (n.ownedElements.take k) := by
  have hoffset : n.offset [k] = 1 + countAll (n.ownedElements.take k) := offset_cons hx []
  rw [number, offset_append h, hoffset, ← Nat.add_assoc]
  rfl

theorem length_entries (d : Document) : d.entries.length = d.top.count := by
  have hlen := (entriesAll_block Model.root 1 d.name (by decide) d.ownedElements).2.1
  rw [entries, List.length_cons, hlen, count_eq, Nat.add_comm]
  rfl

theorem number_lt (h : d.at? a = some n) : d.number a < d.entries.length :=
  d.length_entries ▸ offset_lt_count h

theorem exists_number (h : j < d.entries.length) : ∃ a n, d.at? a = some n ∧ d.number a = j :=
  exists_offset (d.length_entries ▸ h)

theorem number_lt_iff {n' : Element} (ha : d.at? a = some n) (hb : d.at? b = some n') :
    d.number a < d.number b ↔ a < b := by
  constructor
  · intro h
    rcases lt_trichotomy a b with hab | rfl | hba
    · exact hab
    · exact absurd h (Nat.lt_irrefl _)
    · exact absurd h (Nat.lt_asymm (offset_lt_of_lt hb ha hba))
  · exact offset_lt_of_lt ha hb

theorem number_inj {n' : Element} (ha : d.at? a = some n) (hb : d.at? b = some n')
    (h : d.number a = d.number b) : a = b := by
  rcases lt_trichotomy a b with hab | rfl | hba
  · exact absurd h (Nat.ne_of_lt (offset_lt_of_lt ha hb hab))
  · rfl
  · exact absurd h (Nat.ne_of_gt (offset_lt_of_lt hb ha hba))

end Document
end Snapshot
end ClassScribe
