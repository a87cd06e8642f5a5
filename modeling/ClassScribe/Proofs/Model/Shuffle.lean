import Mathlib.Data.List.Induction
import Mathlib.Logic.Equiv.Basic
import ClassScribe.Proofs.Model.Address
import ClassScribe.Proofs.Model.Reference

/-! # Documents in another order

A document is shuffled when each element has what it owns in another order, and nothing else is
changed. Every node then has another address, but the same names lead to it, so a reference means
a node of the one document exactly when it means the moved node of the other.
-/
namespace ClassScribe
namespace Snapshot

/-- An element without what it owns. -/
def Element.unowned (e : Element) : Element := { e with ownedElements := [] }

/-- Two elements that are the same but for the order in which each element in them has what it
owns. -/
inductive Element.Shuffled : Element → Element → Prop
  | intro {e e' : Element} {es : List Element} : e'.unowned = e.unowned →
      List.Forall₂ Element.Shuffled e.ownedElements es → es.Perm e'.ownedElements → Shuffled e e'

/-- The address a node is moved to, when the element at an address `a` has what it owned in place
`k` in place `s a k`. -/
def moved (s : Address → Equiv.Perm Nat) : Address → Address
  | [] => []
  | k :: a => s [] k :: moved (fun b => s (k :: b)) a

namespace Document

/-- The root package is shuffled. -/
structure Shuffled (d d' : Document) : Prop where
  relationships : d'.relationships = d.relationships
  top : d.top.Shuffled d'.top

/-- Every node of the one document is at the moved address in the other. -/
structure Reordered (s : Address → Equiv.Perm Nat) (d d' : Document) : Prop where
  relationships : d'.relationships = d.relationships
  nodes : ∀ a, (d'.at? (moved s a)).map Element.unowned = (d.at? a).map Element.unowned

end Document

variable {s : Address → Equiv.Perm Nat} {d d' : Document} {e e' n : Element} {a b : Address}
  {k : Nat}

theorem moved_concat (s : Address → Equiv.Perm Nat) (a : Address) (k : Nat) :
    moved s (a ++ [k]) = moved s a ++ [s a k] := by
  induction a generalizing s with
  | nil => rfl
  | cons l a ih => exact congrArg (s [] l :: ·) (ih fun b => s (l :: b))

theorem dropLast_moved (s : Address → Equiv.Perm Nat) (a : Address) :
    (moved s a).dropLast = moved s a.dropLast := by
  induction a using List.reverseRecOn with
  | nil => rfl
  | append_singleton a k => rw [moved_concat, List.dropLast_concat, List.dropLast_concat]

theorem moved_injective (s : Address → Equiv.Perm Nat) : Function.Injective (moved s) := by
  intro a b h
  induction a generalizing s b with
  | nil =>
    cases b with
    | nil => rfl
    | cons l b => cases h
  | cons k a ih =>
    cases b with
    | nil => cases h
    | cons l b =>
      obtain ⟨hk, hrest⟩ := List.cons.inj h
      obtain rfl := (s []).injective hk
      rw [ih _ hrest]

theorem moved_surjective (s : Address → Equiv.Perm Nat) : Function.Surjective (moved s) := by
  intro b
  induction b generalizing s with
  | nil => exact ⟨[], rfl⟩
  | cons l b ih =>
    obtain ⟨a, rfl⟩ := ih fun b => s ((s []).symm l :: b)
    refine ⟨(s []).symm l :: a, ?_⟩
    rw [moved, Equiv.apply_symm_apply]

/-- Leave the first place as it is. -/
def shifted (p : Equiv.Perm Nat) : Equiv.Perm Nat where
  toFun
    | 0 => 0
    | k + 1 => p k + 1
  invFun
    | 0 => 0
    | k + 1 => p.symm k + 1
  left_inv := by
    intro k
    cases k with
    | zero => rfl
    | succ k => exact congrArg (· + 1) (p.symm_apply_apply k)
  right_inv := by
    intro k
    cases k with
    | zero => rfl
    | succ k => exact congrArg (· + 1) (p.apply_symm_apply k)

theorem exists_places {α : Type} {xs ys : List α} (h : xs.Perm ys) :
    ∃ p : Equiv.Perm Nat, ∀ k : Nat, ys[p k]? = xs[k]? := by
  induction h with
  | nil => exact ⟨Equiv.refl _, fun _ => rfl⟩
  | cons x _ ih =>
    obtain ⟨p, hp⟩ := ih
    refine ⟨shifted p, fun k => ?_⟩
    cases k with
    | zero => rfl
    | succ k => exact hp k
  | swap x y xs =>
    refine ⟨Equiv.swap 0 1, fun k => ?_⟩
    match k with
    | 0 => rfl
    | 1 => rfl
    | k + 2 =>
      rw [Equiv.swap_apply_of_ne_of_ne (by omega) (by omega)]
      rfl
  | trans _ _ ih ih' =>
    obtain ⟨p, hp⟩ := ih
    obtain ⟨p', hp'⟩ := ih'
    exact ⟨p.trans p', fun k => (hp' (p k)).trans (hp k)⟩

theorem sizeOf_lt_of_owned {x : Element} (h : x ∈ e.ownedElements) : sizeOf x < sizeOf e := by
  have hmem := List.sizeOf_lt_of_mem h
  cases e
  simp at *
  omega

theorem Element.Shuffled.refl (e : Element) : e.Shuffled e := by
  induction hsize : sizeOf e using Nat.strongRecOn generalizing e with
  | ind size ih =>
    subst hsize
    refine .intro rfl (List.forall₂_same.mpr ?_) (List.Perm.refl _)
    intro x hx
    exact ih (sizeOf x) (sizeOf_lt_of_owned hx) x rfl

/-- What is shuffled has been moved in some way. -/
theorem Element.Shuffled.exists_moved (h : e.Shuffled e') :
    ∃ s, ∀ a, (e'.at? (moved s a)).map unowned = (e.at? a).map unowned := by
  induction hsize : sizeOf e using Nat.strongRecOn generalizing e e' with
  | ind size ih =>
    subst hsize
    obtain ⟨hsame, hall, hperm⟩ := h
    have hkind : e'.kind = e.kind := (congrArg Element.kind hsame :)
    obtain ⟨hlen, hall⟩ := List.forall₂_iff_get.mp hall
    obtain ⟨p, hp⟩ := exists_places hperm
    have below (k : Nat) : ∃ s, ∀ a,
        ((e'.ownedElements[p k]?.bind fun x => x.at? (moved s a)).map unowned) =
          ((e.ownedElements[k]?.bind fun x => x.at? a).map unowned) := by
      rw [hp]
      by_cases hk : k < e.ownedElements.length
      · have hk' := hlen ▸ hk
        obtain ⟨s, hs⟩ := ih _ (sizeOf_lt_of_owned (List.getElem_mem hk))
          (hall k hk hk') rfl
        refine ⟨s, fun a => ?_⟩
        rw [List.getElem?_eq_getElem hk, List.getElem?_eq_getElem hk']
        exact hs a
      · refine ⟨fun _ => Equiv.refl _, fun a => ?_⟩
        rw [List.getElem?_eq_none (by omega), List.getElem?_eq_none (by omega)]
        rfl
    choose s hs using below
    refine ⟨fun | [] => p | k :: a => s k a, fun a => ?_⟩
    cases a with
    | nil => exact congrArg some hsame
    | cons k a =>
      rw [moved, at?, at?, hkind]
      split
      · exact hs k a
      · rfl

theorem Document.Shuffled.exists_reordered (h : d.Shuffled d') : ∃ s, Reordered s d d' := by
  obtain ⟨s, hs⟩ := h.top.exists_moved
  exact ⟨s, h.relationships, hs⟩

theorem at?_prefix (h : e.at? (a ++ b) = some n) : ∃ x, e.at? a = some x ∧ x.at? b = some n := by
  induction a generalizing e with
  | nil => exact ⟨e, rfl, h⟩
  | cons k a ih =>
    obtain ⟨hk, y, hy, hn⟩ := at?_cons h
    obtain ⟨x, hx, hxn⟩ := ih hn
    refine ⟨x, ?_, hxn⟩
    rw [Element.at?, if_pos hk, hy]
    exact hx

theorem namesTo_concat (h : e.at? (a ++ [k]) = some n) :
    e.namesTo (a ++ [k]) = e.namesTo a ++ [n.name] := by
  induction a generalizing e with
  | nil =>
    obtain ⟨-, x, hx, hn⟩ := at?_cons h
    obtain rfl := Option.some.inj hn
    have hlast : e.namesTo [k] = [e.name, x.name] := by
      rw [Element.namesTo, hx]
      rfl
    exact hlast
  | cons l a ih =>
    obtain ⟨-, x, hx, hn⟩ := at?_cons h
    have hrest := ih hn
    rw [List.cons_append, Element.namesTo, hx, Element.namesTo, hx]
    exact congrArg (e.name :: ·) hrest

namespace Document

theorem nodes_number (h : d.at? a = some n) :
    d.nodes[d.number a]? = some ⟨n.id, n.name, ".".intercalate (d.top.namesTo a)⟩ := by
  rw [← (entries_node d).1, List.getElem?_map, entries_number h]
  cases a with
  | nil =>
    obtain rfl := Option.some.inj h
    rw [Element.namesTo, String.intercalate_singleton]
    rfl
  | cons k a => rfl

theorem length_nodes (d : Document) : d.nodes.length = d.entries.length := by
  rw [← (entries_node d).1, List.length_map]

/-- A reference can mean the node at an address: it is its key, or all the names that lead to it. -/
def Names (d : Document) (r : String) (a : Address) : Prop :=
  ∃ n, d.at? a = some n ∧ (r = n.id.getD n.name ∨ r = ".".intercalate (d.top.namesTo a))

variable {r : String} {i : ElementId}

theorem means_iff_names : d.Means r i ↔ ∃ a, d.number a = i ∧ d.Names r a := by
  constructor
  · rintro ⟨n, hn, hr⟩
    have hi : i < d.entries.length := by
      rw [← length_nodes]
      exact (List.getElem?_eq_some_iff.mp hn).1
    obtain ⟨a, x, hx, rfl⟩ := exists_number hi
    rw [nodes_number hx] at hn
    obtain rfl := Option.some.inj hn
    exact ⟨a, rfl, x, hx, hr⟩
  · rintro ⟨a, rfl, n, hn, hr⟩
    exact ⟨_, nodes_number hn, hr⟩

/-- No explicit id is given at two addresses. -/
theorem nodup_explicitIds : (explicitIds d.nodes).Nodup ↔ ∀ a b n n' x, d.at? a = some n →
    d.at? b = some n' → n.id = some x → n'.id = some x → a = b := by
  rw [explicitIds, List.Nodup, List.pairwise_filterMap, List.pairwise_iff_getElem]
  constructor
  · intro h a b n n' x hn hn' hx hx'
    have ha := List.getElem?_eq_some_iff.mp (nodes_number hn)
    have hb := List.getElem?_eq_some_iff.mp (nodes_number hn')
    obtain ⟨ha, han⟩ := ha
    obtain ⟨hb, hbn⟩ := hb
    rcases Nat.lt_trichotomy (d.number a) (d.number b) with hlt | heq | hlt
    · exact absurd rfl (h _ _ ha hb hlt x (by rw [han, hx]) x (by rw [hbn, hx']))
    · exact number_inj hn hn' heq
    · exact absurd rfl (h _ _ hb ha hlt x (by rw [hbn, hx']) x (by rw [han, hx]))
  · rintro h i j hi hj hij x hx _ hx' rfl
    obtain ⟨a, n, hn, rfl⟩ := exists_number (d.length_nodes ▸ hi)
    obtain ⟨b, n', hn', rfl⟩ := exists_number (d.length_nodes ▸ hj)
    have ha := (List.getElem?_eq_some_iff.mp (nodes_number hn)).2
    have hb := (List.getElem?_eq_some_iff.mp (nodes_number hn')).2
    rw [ha] at hx
    rw [hb] at hx'
    obtain rfl := h a b n n' x hn hn' hx hx'
    exact Nat.lt_irrefl _ hij

namespace Reordered

variable (h : Reordered s d d')
include h

theorem node (hn : d.at? a = some n) :
    ∃ n', d'.at? (moved s a) = some n' ∧ n'.unowned = n.unowned := by
  have hnodes := h.nodes a
  rw [hn, Option.map_some] at hnodes
  exact Option.map_eq_some_iff.mp hnodes

theorem node_back (hn : d'.at? (moved s a) = some n) :
    ∃ n', d.at? a = some n' ∧ n'.unowned = n.unowned := by
  have hnodes := h.nodes a
  rw [hn, Option.map_some] at hnodes
  exact Option.map_eq_some_iff.mp hnodes.symm

theorem namesTo (hn : d.at? a = some n) : d'.top.namesTo (moved s a) = d.top.namesTo a := by
  induction a using List.reverseRecOn generalizing n with
  | nil =>
    have hnodes := h.nodes []
    have htop : d'.top.name = d.top.name :=
      (congrArg Element.name (Option.some.inj hnodes) :)
    rw [moved, Element.namesTo, Element.namesTo, htop]
  | append_singleton a k ih =>
    obtain ⟨x, hx, -⟩ := at?_prefix hn
    obtain ⟨n', hn', hsame⟩ := h.node hn
    have hname : n'.name = n.name := (congrArg Element.name hsame :)
    rw [moved_concat] at hn' ⊢
    rw [namesTo_concat hn, namesTo_concat hn', ih hx, hname]

theorem names_iff {r : String} : d'.Names r (moved s a) ↔ d.Names r a := by
  constructor
  · rintro ⟨n, hn, hr⟩
    obtain ⟨n', hn', hsame⟩ := h.node_back hn
    have hkey : n'.id.getD n'.name = n.id.getD n.name :=
      (congrArg (fun e : Element => e.id.getD e.name) hsame :)
    rw [h.namesTo hn', ← hkey] at hr
    exact ⟨n', hn', hr⟩
  · rintro ⟨n, hn, hr⟩
    obtain ⟨n', hn', hsame⟩ := h.node hn
    have hkey : n'.id.getD n'.name = n.id.getD n.name :=
      (congrArg (fun e : Element => e.id.getD e.name) hsame :)
    rw [← h.namesTo hn, ← hkey] at hr
    exact ⟨n', hn', hr⟩

end Reordered
end Document
end Snapshot
end ClassScribe
