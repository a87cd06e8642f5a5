import ClassScribe.Proofs.Json.Members

/-! # Unions as records

A variant of a union is read in two stages: the tag is found and the other members are buffered,
then they are read. This comes to reading one record that has the tag as a field of its own.
-/
namespace ClassScribe.Json

variable {ρ : Type} {tag kind : String} {s : Shape Datum Checked ρ} {n : Nat} {r r' : ρ}

/-- The field of a tag that has to be `kind`. -/
def tagField (tag kind : String) : Field Datum Checked ρ :=
  ⟨tag, .required, fun d => do
    let name ← Datum.asText d
    if name = kind then return id else .error (.unknownVariant name [kind])⟩

/-- A variant of a union as a record of its own. -/
def tagged (tag kind : String) (s : Shape Datum Checked ρ) : Shape Datum Checked ρ :=
  { s with fields := tagField tag kind :: s.fields }

theorem read_tagField {d : Datum} {put : ρ → ρ} :
    (tagField tag kind).read d = .ok put ↔ Datum.asText d = .ok kind ∧ put = id := by
  constructor
  · intro h
    obtain ⟨name, hname, h⟩ := of_bind h
    split at h
    · rename_i hkind
      exact ⟨hkind ▸ hname, (Except.ok.inj h).symm⟩
    · cases h
  · rintro ⟨hname, rfl⟩
    change (Datum.asText d >>= _) = _
    rw [hname]
    exact if_pos rfl

theorem apart_tagField (f : Field Datum Checked ρ) : (tagField tag kind).Apart f := by
  intro v w put put' hput _ r
  rw [(read_tagField.mp hput).2]
  rfl

theorem tagged_field?_tag : (tagged tag kind s).field? tag = some (tagField tag kind) := by
  rw [Shape.field?, tagged]
  exact List.find?_cons_of_pos (beq_self_eq_true tag)

theorem tagged_field?_of_ne {name : String} (h : name ≠ tag) :
    (tagged tag kind s).field? name = s.field? name := by
  rw [Shape.field?, tagged]
  exact List.find?_cons_of_neg fun hname => h (beq_iff_eq.mp hname).symm

namespace Taken

variable {form : Spelling → Datum} {given given' : List String} {members : List (Key × Spelling)}

/-- A required field that is not given yet is among the members. -/
theorem exists_member (h : Taken form s given r members r') {f : Field Datum Checked ρ}
    (hf : f ∈ s.fields) (hr : f.presence = .required) (hnew : f.name ∉ given) :
    ∃ m ∈ members, m.1.text = some f.name := by
  induction h with
  | done hmissing => exact absurd (Shape.missing?_eq_none_iff.mp hmissing f hf hr) hnew
  | skip hkey hfield _ ih =>
    obtain ⟨m, hm, hname⟩ := ih hnew
    exact ⟨m, List.mem_cons_of_mem _ hm, hname⟩
  | @take _ _ _ name _ _ _ _ _ hkey _ _ _ _ ih =>
    by_cases hname : f.name = name
    · exact ⟨_, List.mem_cons_self, hname ▸ hkey⟩
    · obtain ⟨m, hm, hm'⟩ := ih (List.not_mem_cons_of_ne_of_not_mem hname hnew)
      exact ⟨m, List.mem_cons_of_mem _ hm, hm'⟩

theorem tagged (h : Taken form s given r members r')
    (hmembers : ∀ m ∈ members, m.1.text ≠ some tag) :
    Taken form (tagged tag kind s) (tag :: given) r members r' := by
  induction h with
  | done hmissing =>
    refine .done (Shape.missing?_eq_none_iff.mpr fun f hf hr => ?_)
    rcases List.mem_cons.mp hf with hf | hf
    · rw [hf]
      exact List.mem_cons_self
    · exact List.mem_cons_of_mem _ (Shape.missing?_eq_none_iff.mp hmissing f hf hr)
  | skip hkey hfield _ ih =>
    obtain ⟨hne, hmembers⟩ := List.forall_mem_cons.mp hmembers
    have hname := fun heq => hne (hkey.trans (congrArg some heq))
    exact .skip hkey ((tagged_field?_of_ne hname).trans hfield) (ih hmembers)
  | take hkey hfield hnew hread _ ih =>
    obtain ⟨hne, hmembers⟩ := List.forall_mem_cons.mp hmembers
    have hname := fun heq => hne (hkey.trans (congrArg some heq))
    refine .take hkey ((tagged_field?_of_ne hname).trans hfield) ?_ hread (ih hmembers).swap
    exact List.not_mem_cons_of_ne_of_not_mem hname hnew

/-- Behind its tag, a variant is read as what it is without it. -/
theorem untagged (hs : s.field? tag = none)
    (h : Taken form (Json.tagged tag kind s) given' r members r')
    (hgiven : ∀ name, name ∈ given' ↔ name = tag ∨ name ∈ given) :
    (∀ m ∈ members, m.1.text ≠ some tag) ∧ Taken form s given r members r' := by
  have hfields : ∀ f ∈ s.fields, f.name ≠ tag := by
    simpa [Shape.field?] using hs
  induction h generalizing given with
  | done hmissing =>
    refine ⟨by simp, .done (Shape.missing?_eq_none_iff.mpr fun f hf hr => ?_)⟩
    have hname := Shape.missing?_eq_none_iff.mp hmissing f (List.mem_cons_of_mem _ hf) hr
    exact ((hgiven f.name).mp hname).resolve_left (hfields f hf)
  | @skip _ _ _ name _ _ _ hkey hfield _ ih =>
    have hname : name ≠ tag := by
      rintro rfl
      rw [tagged_field?_tag] at hfield
      cases hfield
    obtain ⟨hmembers, h⟩ := ih hgiven
    rw [tagged_field?_of_ne hname] at hfield
    refine ⟨List.forall_mem_cons.mpr ⟨?_, hmembers⟩, .skip hkey hfield h⟩
    exact fun heq => hname (Option.some.inj (hkey.symm.trans heq))
  | @take taken _ _ name _ _ _ _ _ hkey hfield hnew hread _ ih =>
    obtain ⟨hname, hnew⟩ := not_or.mp ((hgiven name).not.mp hnew)
    have hbehind : ∀ name', name' ∈ name :: taken ↔ name' = tag ∨ name' ∈ name :: given := by
      intro name'
      rw [List.mem_cons, List.mem_cons, hgiven, or_left_comm]
    obtain ⟨hmembers, h⟩ := ih hbehind
    rw [tagged_field?_of_ne hname] at hfield
    refine ⟨List.forall_mem_cons.mpr ⟨?_, hmembers⟩, .take hkey hfield hnew hread h⟩
    exact fun heq => hname (Option.some.inj (hkey.symm.trans heq))

end Taken

section Union

open Spelling (memberSketches itemSketches bufferedMember)

variable {u : Union} {v : Spelling} {d : Datum}

theorem readVariant_iff : readVariant u v.sketch = .ok kind ↔
    v.sketch = .text (some kind) ∧ u.variants.contains kind = true := by
  constructor
  · intro h
    unfold readVariant at h
    split at h
    · rename_i name hv
      split at h
      · rename_i hname
        obtain rfl := Except.ok.inj h
        exact ⟨hv, hname⟩
      · cases h
    · exact absurd h wrong_ne_ok
  · rintro ⟨hv, hkind⟩
    rw [hv, readVariant, if_pos hkind]

theorem orMalformed_eq_ok {α : Type} {x : Option α} {a : α} :
    orMalformed x = .ok a ↔ x = some a := by
  cases x <;> simp [orMalformed, malformed]

/-- Members that can be buffered, none of which is the tag. -/
def Bufferable (tag : String) (n : Nat) (members : List (Key × Spelling)) : Prop :=
  ∀ m ∈ members, m.1.text ≠ some tag ∧ m.1.text.isSome ∧ m.2.Buffers n

theorem unionMembers_some {members : List (Key × Spelling)} {buffered : List (Datum × Datum)}
    {name : String} : unionMembers u n true (some name) buffered (memberSketches members) =
      .ok (kind, d) ↔ Bufferable u.tag n members ∧ kind = name ∧
        d = .record (buffered.reverse ++ members.map (bufferedMember n)) := by
  induction members generalizing buffered with
  | nil =>
    rw [memberSketches, unionMembers, List.map_nil, List.append_nil]
    constructor
    · intro h
      obtain ⟨rfl, rfl⟩ := Prod.mk.inj (Except.ok.inj h)
      exact ⟨fun m hm => absurd hm List.not_mem_nil, rfl, rfl⟩
    · rintro ⟨-, rfl, rfl⟩
      rfl
  | cons m members ih =>
    obtain ⟨k, w⟩ := m
    rw [memberSketches, Bufferable, List.forall_mem_cons, List.map_cons]
    constructor
    · intro h
      cases hkey : k.text with
      | none =>
        rw [hkey] at h
        cases h
      | some key =>
        rw [hkey, unionMembers] at h
        split at h
        · cases h
        · rename_i hne
          obtain ⟨d', hd, h⟩ := of_bind h
          obtain ⟨hmembers, hname, hdatum⟩ := ih.mp h
          have hbuffer := orMalformed_eq_ok.mp hd
          refine ⟨⟨⟨fun heq => hne (Option.some.inj heq), rfl, ?_⟩, hmembers⟩, hname, ?_⟩
          · exact Option.isSome_of_eq_some hbuffer
          · rw [hdatum, bufferedMember, hkey, Spelling.buffered_of_buffer? hbuffer]
            simp
    · rintro ⟨⟨⟨hne, hkey, hv⟩, hmembers⟩, hname, hdatum⟩
      obtain ⟨key, hkey⟩ := Option.isSome_iff_exists.mp hkey
      rw [hkey, unionMembers, if_neg fun heq => hne (hkey.trans (congrArg some heq)),
        Spelling.buffer?_of_buffers hv]
      refine ih.mpr ⟨hmembers, hname, ?_⟩
      rw [hdatum, bufferedMember, hkey]
      simp

theorem unionMembers_none {members : List (Key × Spelling)} {buffered : List (Datum × Datum)} :
    unionMembers u n true none buffered (memberSketches members) = .ok (kind, d) ↔
      ∃ front k v back, members = front ++ (k, v) :: back ∧ k.text = some u.tag ∧
        readVariant u v.sketch = .ok kind ∧ Bufferable u.tag n (front ++ back) ∧
        d = .record (buffered.reverse ++ (front ++ back).map (bufferedMember n)) := by
  constructor
  · intro h
    induction members generalizing buffered with
    | nil => cases h
    | cons m members ih =>
      obtain ⟨k, w⟩ := m
      rw [memberSketches] at h
      cases hkey : k.text with
      | none =>
        rw [hkey] at h
        cases h
      | some key =>
        rw [hkey, unionMembers] at h
        split at h
        · rename_i htag
          obtain ⟨name, hname, h⟩ := of_bind h
          obtain ⟨hmembers, rfl, hdatum⟩ := unionMembers_some.mp h
          exact ⟨[], k, w, members, rfl, htag ▸ hkey, hname, hmembers, hdatum⟩
        · rename_i hne
          obtain ⟨d', hd, h⟩ := of_bind h
          obtain ⟨front, k', v, back, rfl, htag, hkind, hmembers, hdatum⟩ := ih h
          have hbuffer := orMalformed_eq_ok.mp hd
          have hm : k.text ≠ some u.tag ∧ k.text.isSome ∧ w.Buffers n := by
            rw [hkey]
            exact ⟨fun heq => hne (Option.some.inj heq), rfl, Option.isSome_of_eq_some hbuffer⟩
          refine ⟨(k, w) :: front, k', v, back, rfl, htag, hkind,
            List.forall_mem_cons.mpr ⟨hm, hmembers⟩, ?_⟩
          rw [hdatum, List.cons_append, List.map_cons, bufferedMember, hkey,
            Spelling.buffered_of_buffer? hbuffer]
          simp
  · rintro ⟨front, k, v, back, rfl, htag, hkind, hmembers, hdatum⟩
    induction front generalizing buffered with
    | nil =>
      rw [List.nil_append, memberSketches, htag, unionMembers, if_pos rfl, hkind]
      exact unionMembers_some.mpr ⟨hmembers, rfl, hdatum⟩
    | cons m front ih =>
      obtain ⟨k', w⟩ := m
      obtain ⟨⟨hne, hkey, hw⟩, hmembers⟩ := List.forall_mem_cons.mp hmembers
      obtain ⟨key, hkey⟩ := Option.isSome_iff_exists.mp hkey
      rw [List.cons_append, memberSketches, hkey, unionMembers,
        if_neg fun heq => hne (hkey.trans (congrArg some heq)), Spelling.buffer?_of_buffers hw]
      refine ih hmembers ?_
      rw [hdatum, List.cons_append, List.map_cons, bufferedMember, hkey]
      simp

theorem read_tagField_buffered {put : ρ → ρ} : (tagField tag kind).read (v.buffered n) = .ok put ↔
    v.sketch = .text (some kind) ∧ put = id := by
  rw [read_tagField, asText_buffered]

/-- The tag may stand at any place among the members. -/
theorem taken_tagged_iff (hs : s.field? tag = none) (ha : s.fields.Pairwise Field.Apart)
    {members : List (Key × Spelling)} :
    Taken (Spelling.buffered n) (tagged tag kind s) [] s.blank members r ↔
      ∃ front k v back, members = front ++ (k, v) :: back ∧ k.text = some tag ∧
        v.sketch = .text (some kind) ∧ (∀ m ∈ front ++ back, m.1.text ≠ some tag) ∧
        Taken (Spelling.buffered n) s [] s.blank (front ++ back) r := by
  have htagged : (tagged tag kind s).fields.Pairwise Field.Apart :=
    List.pairwise_cons.mpr ⟨fun f _ => apart_tagField f, ha⟩
  constructor
  · intro h
    obtain ⟨⟨k, v⟩, hm, hkey⟩ := h.exists_member List.mem_cons_self rfl List.not_mem_nil
    change k.text = some tag at hkey
    obtain ⟨front, back, rfl⟩ := List.append_of_mem hm
    -- the tag is brought to the front, where it is read first
    have hfront := h.perm htagged List.perm_middle
    cases hfront with
    | skip hkey' hfield _ =>
      obtain rfl := Option.some.inj (hkey.symm.trans hkey')
      rw [tagged_field?_tag] at hfield
      cases hfield
    | take hkey' hfield _ hread h =>
      obtain rfl := Option.some.inj (hkey.symm.trans hkey')
      obtain rfl := Option.some.inj (tagged_field?_tag.symm.trans hfield)
      obtain ⟨hv, rfl⟩ := read_tagField_buffered.mp hread
      have hgiven : ∀ name, name ∈ [tag] ↔ name = tag ∨ name ∈ [] := by simp
      obtain ⟨hmembers, h⟩ := h.untagged hs hgiven
      exact ⟨front, k, v, back, rfl, hkey, hv, hmembers, h⟩
  · rintro ⟨front, k, v, back, rfl, hkey, hv, hmembers, h⟩
    refine Taken.perm htagged List.perm_middle.symm ?_
    have hread : (tagField tag kind).read (v.buffered n) = .ok (id : ρ → ρ) :=
      read_tagField_buffered.mpr ⟨hv, rfl⟩
    exact .take hkey tagged_field?_tag List.not_mem_nil hread (h.tagged hmembers)

theorem readUnion_record (hs : s.field? u.tag = none) (ha : s.fields.Pairwise Field.Apart)
    {g : Spacing} {members : List (Key × Spelling)} :
    (∃ d, readUnion n u (Spelling.record g members).sketch = .ok (kind, d) ∧
      Datum.asRecord .tooLong s d = .ok r) ↔
      u.variants.contains kind = true ∧ (Spelling.record g members).Buffers n ∧
        Taken (Spelling.buffered (n - 1)) (tagged u.tag kind s) [] s.blank members r := by
  rw [Spelling.sketch, readUnion, Spelling.buffers_record, taken_tagged_iff hs ha]
  by_cases hn : n = 0
  · simp [hn, malformed]
  rw [if_neg hn, and_iff_right hn]
  constructor
  · rintro ⟨d, hd, hr⟩
    obtain ⟨front, k, v, back, rfl, hkey, hkind, hmembers, rfl⟩ := unionMembers_none.mp hd
    obtain ⟨hv, hcontains⟩ := readVariant_iff.mp hkind
    refine ⟨hcontains, fun m hm => ?_, front, k, v, back, rfl, hkey, hv, fun m hm => ?_, ?_⟩
    · rcases List.mem_cons.mp (List.perm_middle.subset hm) with hm | hm
      · rw [hm]
        exact ⟨Option.isSome_of_eq_some hkey, buffers_of_text hv⟩
      · exact (hmembers m hm).2
    · exact (hmembers m hm).1
    · exact (readMembers_iff fun m hm => (hmembers m hm).2.1).mp hr
  · rintro ⟨hcontains, hbuffers, front, k, v, back, rfl, hkey, hv, hmembers, h⟩
    have hrest : Bufferable u.tag (n - 1) (front ++ back) := fun m hm =>
      ⟨hmembers m hm, hbuffers m (List.perm_middle.symm.subset (List.mem_cons_of_mem _ hm))⟩
    refine ⟨_, unionMembers_none.mpr ⟨front, k, v, back, rfl, hkey,
      readVariant_iff.mpr ⟨hv, hcontains⟩, hrest, rfl⟩, ?_⟩
    exact (readMembers_iff fun m hm => (hrest m hm).2.1).mpr h

theorem readUnion_list {g : Spacing} {items : List Spelling} :
    (∃ d, readUnion n u (Spelling.list g items).sketch = .ok (kind, d) ∧
      Datum.asRecord .tooLong s d = .ok r) ↔
      u.variants.contains kind = true ∧ (Spelling.list g items).Buffers n ∧
        Listed (Spelling.buffered (n - 1)) (tagged u.tag kind s).fields s.blank items r := by
  rw [Spelling.sketch, Spelling.buffers_list]
  cases items with
  | nil =>
    rw [itemSketches, readUnion]
    refine iff_of_false ?_ ?_
    · rintro ⟨d, hd, -⟩
      split at hd <;> cases hd
    · rintro ⟨-, -, h⟩
      cases h with
      | absent hpresence => cases hpresence
  | cons v items =>
    rw [itemSketches, readUnion]
    by_cases hn : n = 0
    · simp [hn, malformed]
    rw [if_neg hn, and_iff_right hn, List.forall_mem_cons]
    constructor
    · rintro ⟨d, hd, hr⟩
      obtain ⟨name, hname, hd⟩ := of_bind hd
      obtain ⟨ds, hds, hd⟩ := of_bind hd
      obtain ⟨rfl, rfl⟩ := Prod.mk.inj (Except.ok.inj hd)
      obtain ⟨hv, hcontains⟩ := readVariant_iff.mp hname
      obtain ⟨hitems, rfl⟩ := Spelling.bufferItems?_eq_some.mp (orMalformed_eq_ok.mp hds)
      rw [Datum.asRecord] at hr
      have htag : (tagField u.tag name).read (v.buffered (n - 1)) = .ok (id : ρ → ρ) :=
        read_tagField_buffered.mpr ⟨hv, rfl⟩
      have hrest := readItems_iff.mp hr
      exact ⟨hcontains, ⟨buffers_of_text hv, hitems⟩, .item htag hrest⟩
    · rintro ⟨hcontains, ⟨-, hitems⟩, h⟩
      cases h with
      | item hread h =>
        obtain ⟨hv, rfl⟩ := read_tagField_buffered.mp hread
        refine ⟨.list (items.map (·.buffered (n - 1))), ?_, ?_⟩
        · rw [readVariant_iff.mpr ⟨hv, hcontains⟩,
            Spelling.bufferItems?_eq_some.mpr ⟨hitems, rfl⟩]
          rfl
        · rw [Datum.asRecord]
          exact readItems_iff.mpr h

theorem readUnion_of_scalar {v : Sketch} (h : v.isScalar = true) :
    readUnion n u v = wrong (.titled u.title) v := by
  cases v <;> first | rfl | cases h

/-- Reading a union and then one of its variants is reading that variant with its tag. -/
theorem readUnion_iff (hs : s.field? u.tag = none) (ha : s.fields.Pairwise Field.Apart) :
    (∃ d, readUnion n u v.sketch = .ok (kind, d) ∧ Datum.asRecord .tooLong s d = .ok r) ↔
      u.variants.contains kind = true ∧ v.Buffers n ∧
        Recorded (Spelling.buffered (n - 1)) (tagged u.tag kind s) r v := by
  cases v with
  | scalar g v =>
    refine iff_of_false ?_ fun h => h.2.2
    rintro ⟨d, hd, -⟩
    rw [Spelling.sketch, readUnion_of_scalar v.single] at hd
    exact wrong_ne_ok hd
  | list g items => exact readUnion_list
  | record g members => exact readUnion_record hs ha

end Union

end ClassScribe.Json
