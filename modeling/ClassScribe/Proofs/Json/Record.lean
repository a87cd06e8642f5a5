import ClassScribe.Json.Record
import ClassScribe.Proofs.Json.Text
import ClassScribe.Proofs.Record.Fills

/-! # Records from JSON

A record is read back from members that fill its fields. Whatever the notation of a record, what is
read is put together from the values of its fields, and only from those.
-/
namespace ClassScribe.Json

mutual

/-- How many levels of lists and records a value consists of. -/
def depth : Json → Nat
  | list items => depthItems items + 1
  | record members => depthMembers members + 1
  | _ => 0

def depthItems : List Json → Nat
  | [] => 0
  | v :: rest => max v.depth (depthItems rest)

def depthMembers : List (String × Json) → Nat
  | [] => 0
  | (_, v) :: rest => max v.depth (depthMembers rest)

end

theorem depth_list_le {items : List Json} {n : Nat} :
    (list items).depth ≤ n + 1 ↔ ∀ v ∈ items, v.depth ≤ n := by
  rw [depth, Nat.add_le_add_iff_right]
  induction items with
  | nil => simp [depthItems]
  | cons v rest ih => rw [depthItems, List.forall_mem_cons, Nat.max_le, ih]

/-- Members whose values have at most `n` levels. -/
def Within (n : Nat) (members : List (String × Json)) : Prop := ∀ m ∈ members, m.2.depth ≤ n

theorem depth_record_le {members : List (String × Json)} {n : Nat} :
    (record members).depth ≤ n + 1 ↔ Within n members := by
  rw [depth, Nat.add_le_add_iff_right, Within]
  induction members with
  | nil => simp [depthMembers]
  | cons m rest ih => rw [depthMembers, List.forall_mem_cons, Nat.max_le, ih]

section Within

variable {n : Nat} {members others : List (String × Json)} {key s : String}

@[simp] theorem within_nil : Within n [] := nofun

@[simp] theorem within_append : Within n (members ++ others) ↔ Within n members ∧ Within n others :=
  List.forall_mem_append

@[simp] theorem within_text : Within n ((key, .text s) :: members) ↔ Within n members := by
  simp [Within, depth]

@[simp] theorem within_flag {b : Bool} : Within n ((key, .flag b) :: members) ↔ Within n members := by
  simp [Within, depth]

end Within

variable {ρ α : Type}

theorem meets : source.Meets sketched :=
  ⟨fun s => by rw [sketched]; rfl, fun b => by rw [sketched]; rfl⟩

theorem recordMembers_of_fills {s : Shape Sketch Reader ρ} (hs : (s.fields.map (·.name)).Nodup)
    {fields : List (Field Sketch Reader ρ)} {members : List (String × Json)} {r r' : ρ}
    (h : Fills sketched fields members r r') {given : List String} (ha : Ahead s given fields) :
    recordMembers s true given r (sketchedMembers members) = .ok r' := by
  induction h generalizing given with
  | done =>
    rw [sketchedMembers, recordMembers, ha.missing?]
    rfl
  | @given f fields v put members r r' hread _ ih =>
    have hnew : given.contains f.name = false := by simpa using ha.fresh f List.mem_cons_self
    rw [sketchedMembers, recordMembers, ha.field? hs]
    simp only [hnew, hread]
    exact ih (ha.given_cons hs)
  | absent hf _ ih => exact ih (ha.absent hf)

/-- A record is read back from members that fill its fields. -/
theorem readRecord_of_fills {s : Shape Sketch Reader ρ} (hs : (s.fields.map (·.name)).Nodup)
    {members : List (String × Json)} {r : ρ} (h : Fills sketched s.fields members s.blank r) {n : Nat}
    (hn : n ≠ 0) : readRecord n s (record members).sketched = .ok r := by
  rw [sketched, readRecord, if_neg hn]
  exact recordMembers_of_fills hs h (.start s)

theorem mapM_sketched {read : Sketch → Reader α} {write : α → Json} {xs : List α}
    (h : ∀ x ∈ xs, read (write x).sketched = .ok x) :
    (sketchedItems (xs.map write)).mapM read = .ok xs := by
  induction xs with
  | nil => rfl
  | cons x xs ih =>
    obtain ⟨hx, hxs⟩ := List.forall_mem_cons.mp h
    rw [List.map_cons, sketchedItems, List.mapM_cons, hx, ih hxs]
    rfl

/-- A list is read back from values that its items are read from. -/
theorem readList_sketched {n : Nat} (hn : n ≠ 0) {read : Sketch → Reader α} {write : α → Json}
    {xs : List α} (h : ∀ x ∈ xs, read (write x).sketched = .ok x) :
    readList n read (list (xs.map write)).sketched = .ok xs := by
  rw [sketched, readList, if_neg hn, mapM_sketched h]
  rfl

mutual

theorem buffer?_sketched : ∀ (v : Json) (n : Nat), v.depth ≤ n →
    buffer? n v.sketched = some (Datum.ofJson v)
  | .null, _, _ => by rw [sketched, buffer?, Datum.ofJson]
  | .flag b, _, _ => by rw [sketched, buffer?, Datum.ofJson]
  | .number m, _, _ => by rw [sketched, buffer?, Datum.ofJson]; rfl
  | .text s, _, _ => by rw [sketched, buffer?, Datum.ofJson]; rfl
  | .list items, n, hn => by
    cases n with
    | zero => simp [depth] at hn
    | succ n =>
      have hitems := bufferItems?_sketched items n (depth_list_le.mp hn)
      simp [sketched, buffer?, Datum.ofJson, hitems]
  | .record members, n, hn => by
    cases n with
    | zero => simp [depth] at hn
    | succ n =>
      have hmembers := bufferMembers?_sketched members n (depth_record_le.mp hn)
      simp [sketched, buffer?, Datum.ofJson, hmembers]

theorem bufferItems?_sketched : ∀ (items : List Json) (n : Nat), (∀ v ∈ items, v.depth ≤ n) →
    bufferItems? n (sketchedItems items) = some (Datum.ofItems items)
  | [], _, _ => by rw [sketchedItems, bufferItems?, Datum.ofItems]
  | v :: rest, n, hn => by
    obtain ⟨hv, hrest⟩ := List.forall_mem_cons.mp hn
    simp [sketchedItems, bufferItems?, Datum.ofItems, buffer?_sketched v n hv,
      bufferItems?_sketched rest n hrest]

theorem bufferMembers?_sketched : ∀ (members : List (String × Json)) (n : Nat),
    Within n members →
      bufferMembers? n (sketchedMembers members) = some (Datum.ofMembers members)
  | [], _, _ => by rw [sketchedMembers, bufferMembers?, Datum.ofMembers]
  | (k, v) :: rest, n, hn => by
    obtain ⟨hv, hrest⟩ := List.forall_mem_cons.mp hn
    simp [sketchedMembers, bufferMembers?, Datum.ofMembers, buffer?_sketched v n hv,
      bufferMembers?_sketched rest n hrest]

end

theorem unionMembers_sketched {u : Union} {name : String} {n : Nat}
    {members : List (String × Json)} (hkeys : ∀ m ∈ members, m.1 ≠ u.tag)
    (hn : Within n members) (buffered : List (Datum × Datum)) :
    unionMembers u n true (some name) buffered (sketchedMembers members) =
      .ok (name, .record (buffered.reverse ++ Datum.ofMembers members)) := by
  induction members generalizing buffered with
  | nil => simp [sketchedMembers, unionMembers, Datum.ofMembers]
  | cons m members ih =>
    obtain ⟨k, v⟩ := m
    obtain ⟨hk, hkeys⟩ := List.forall_mem_cons.mp hkeys
    obtain ⟨hv, hn⟩ := List.forall_mem_cons.mp hn
    have hbuffer : orMalformed (buffer? n v.sketched) = pure (Datum.ofJson v) := by
      rw [buffer?_sketched v n hv]
      rfl
    rw [sketchedMembers, unionMembers, if_neg hk, hbuffer, pure_bind, ih hkeys hn]
    simp [Datum.ofMembers]

/-- The members of a union are buffered as they are, behind the one that tells its variant. -/
theorem readUnion_sketched {u : Union} {name : String} (hname : u.variants.contains name = true)
    {n : Nat} {members : List (String × Json)} (hkeys : ∀ m ∈ members, m.1 ≠ u.tag)
    (hn : (record members).depth ≤ n) :
    readUnion n u (record ((u.tag, text name) :: members)).sketched =
      .ok (name, Datum.ofJson (record members)) := by
  cases n with
  | zero => simp [depth] at hn
  | succ n =>
    have hvariant : readVariant u (text name).sketched = pure name := by
      rw [sketched, readVariant, if_pos hname]
      rfl
    rw [sketched, sketchedMembers, readUnion, if_neg (Nat.succ_ne_zero n), unionMembers, if_pos rfl,
      hvariant, Nat.add_sub_cancel]
    simp [unionMembers_sketched hkeys (depth_record_le.mp hn), Datum.ofJson]

section Kept

variable {s : Shape Sketch Reader ρ} {P : ρ → Prop} {r r' : ρ}

/-- A property that putting the value of any field keeps. -/
def Kept (fields : List (Field Sketch Reader ρ)) (P : ρ → Prop) : Prop :=
  ∀ f ∈ fields, ∀ v put, f.read v = .ok put → ∀ r, P r → P (put r)

theorem of_bind {ε β : Type} {x : Except ε α} {f : α → Except ε β} {b : β}
    (h : x >>= f = .ok b) : ∃ a, x = .ok a ∧ f a = .ok b := by
  cases x with
  | error e => cases h
  | ok a => exact ⟨a, rfl, h⟩

theorem Kept.nil : Kept [] P := nofun

theorem Kept.field {name : String} {presence : Presence} {read : Sketch → Reader α}
    {put : α → ρ → ρ} {fields : List (Field Sketch Reader ρ)}
    (h : ∀ v x, read v = .ok x → ∀ r, P r → P (put x r)) (hk : Kept fields P) :
    Kept (source.field name presence read put :: fields) P := by
  refine List.forall_mem_cons.mpr ⟨fun v g hg r hr => ?_, hk⟩
  obtain ⟨x, hx, hput⟩ := of_bind hg
  exact Except.ok.inj hput ▸ h v x hx r hr

theorem Kept.text {name : String} {presence : Presence} {put : String → ρ → ρ}
    {fields : List (Field Sketch Reader ρ)} (h : ∀ s r, P r → P (put s r)) (hk : Kept fields P) :
    Kept (source.textField name presence put :: fields) P :=
  Kept.field (fun _ s _ => h s) hk

theorem Kept.optional {name : String} {presence : Presence} {put : Option String → ρ → ρ}
    {fields : List (Field Sketch Reader ρ)} (h : ∀ s r, P r → P (put s r)) (hk : Kept fields P) :
    Kept (source.optionalField name presence put :: fields) P :=
  Kept.field (fun _ s _ => h s) hk

theorem Kept.recordMembers (hk : Kept s.fields P) {closed : Bool} {given : List String}
    {members : List (Option String × Sketch)} (h : recordMembers s closed given r members = .ok r')
    (hr : P r) : P r' := by
  induction members generalizing given r with
  | nil =>
    rw [Json.recordMembers] at h
    split at h
    · split at h
      · cases h
      · exact Except.ok.inj h ▸ hr
    · cases h
  | cons m members ih =>
    obtain ⟨_ | key, v⟩ := m
    · cases h
    · rw [Json.recordMembers] at h
      split at h
      · split at h
        · exact ih h hr
        · cases h
      · rename_i f hf
        split at h
        · cases h
        · obtain ⟨put, hread, h⟩ := of_bind h
          exact ih h (hk f (List.mem_of_find?_eq_some hf) v put hread r hr)

theorem Kept.recordItems {fields : List (Field Sketch Reader ρ)} (hk : Kept fields P)
    {title : String} {total done : Nat} {closed : Bool} {items : List Sketch}
    (h : recordItems title total done closed r fields items = .ok r') (hr : P r) : P r' := by
  induction fields generalizing done items r with
  | nil =>
    cases items with
    | nil =>
      rw [Json.recordItems] at h
      split at h
      · exact Except.ok.inj h ▸ hr
      · cases h
    | cons v items => cases h
  | cons f fields ih =>
    have hrest : Kept fields P := fun g hg => hk g (List.mem_cons_of_mem _ hg)
    cases items with
    | nil =>
      rw [Json.recordItems] at h
      split at h
      · cases h
      · split at h
        · exact ih hrest h hr
        · cases h
    | cons v items =>
      obtain ⟨put, hread, h⟩ := of_bind h
      exact ih hrest h (hk f List.mem_cons_self v put hread r hr)

/-- What holds of the blank record and is kept by every field holds of a record that is read, in
either notation, and reading it takes one level. -/
theorem Kept.readRecord (hk : Kept s.fields P) (hb : P s.blank) {n : Nat} {v : Sketch}
    (h : readRecord n s v = .ok r) : n ≠ 0 ∧ P r := by
  cases v with
  | record members closed =>
    rw [Json.readRecord] at h
    split at h
    · cases h
    · rename_i hn
      exact ⟨hn, hk.recordMembers h hb⟩
  | list items closed =>
    rw [Json.readRecord] at h
    split at h
    · cases h
    · rename_i hn
      exact ⟨hn, hk.recordItems h hb⟩
  | number n => cases n <;> cases h
  | text s => cases s <;> cases h
  | _ => cases h

theorem readRecord_ne_zero {n : Nat} {v : Sketch} (h : readRecord n s v = .ok r) : n ≠ 0 := by
  have hkept : Kept s.fields fun _ => True := fun _ _ _ _ _ _ _ => trivial
  exact (hkept.readRecord trivial h).1

end Kept

theorem readText?_ok {read : Sketch → Reader α} {text : String} {x : α}
    (h : readText? read text = .ok x) : ∃ v, read v = .ok x := by
  rw [readText?] at h
  generalize sketch text = p at h
  obtain ⟨y, hy, hends⟩ := of_bind h
  split at hends
  · exact ⟨_, Except.ok.inj hends ▸ hy⟩
  · cases hends

theorem mapM_ok {read : Sketch → Reader α} {items : List Sketch} {xs : List α}
    (h : items.mapM read = .ok xs) : ∀ x ∈ xs, ∃ v, read v = .ok x := by
  induction items generalizing xs with
  | nil =>
    rw [List.mapM_nil] at h
    simp [← Except.ok.inj h]
  | cons v items ih =>
    rw [List.mapM_cons] at h
    obtain ⟨x, hx, h⟩ := of_bind h
    obtain ⟨rest, hrest, h⟩ := of_bind h
    rw [← Except.ok.inj h]
    exact List.forall_mem_cons.mpr ⟨⟨v, hx⟩, ih hrest⟩

theorem readList_ok {n : Nat} {read : Sketch → Reader α} {v : Sketch} {xs : List α}
    (h : readList n read v = .ok xs) : n ≠ 0 ∧ ∀ x ∈ xs, ∃ v, read v = .ok x := by
  cases v with
  | list items closed =>
    rw [readList] at h
    split at h
    · cases h
    · rename_i hn
      obtain ⟨values, hvalues, h⟩ := of_bind h
      split at h
      · exact ⟨hn, Except.ok.inj h ▸ mapM_ok hvalues⟩
      · cases h
  | number n => cases n <;> cases h
  | text s => cases s <;> cases h
  | _ => cases h

end ClassScribe.Json
