import ClassScribe.Proofs.Json.Record
import ClassScribe.Snapshot.Print
import ClassScribe.Snapshot.Read

/-! # Snapshots are read back

What a snapshot leaves out when it is written is what reading puts in its place. So a snapshot is
read back from its text, as long as it does not nest too deeply, and one that was read from JSON
never does.
-/
namespace ClassScribe.Snapshot
open Json (Sketch Reader source Within)

section Members

variable {V ρ : Type} {M : Type → Type} [Monad M] [LawfulMonad M] {r r' : ρ} {name : String}
  {members : List (String × Json)}

theorem fills_textMember {F : Format V M} {form : Json → V} (hF : F.Meets form)
    {fields : List (Field V M ρ)} {put : String → ρ → ρ} (hblank : put "" r = r) {s : String}
    (h : Fills form fields members (put s r) r') :
    Fills form (F.textField name .defaulted put :: fields) (textMember name s ++ members) r r' := by
  unfold textMember
  split
  · rename_i hs
    rw [String.isEmpty_iff.mp hs, hblank] at h
    exact .absent nofun h
  · exact fills_text hF h

variable {fields : List (Field Sketch Reader ρ)}

theorem fills_optionalMember {put : Option String → ρ → ρ} (hblank : put none r = r)
    {s : Option String} (h : Fills Json.sketched fields members (put s r) r') :
    Fills Json.sketched (source.optionalField name .optional put :: fields)
      (optionalMember name s ++ members) r r' := by
  cases s with
  | none =>
    rw [hblank] at h
    exact .absent nofun h
  | some s =>
    have hread : (source.optionalField name .optional put).read (Json.text s).sketched =
        pure (put (some s)) := by
      rw [Json.sketched]
      rfl
    exact .given hread h

/-- A list is left out when it is empty, so a list that is written takes a level. -/
theorem fills_listMember {α : Type} {put : List α → ρ → ρ} (hblank : put [] r = r) {n : Nat}
    {read : Sketch → Reader α} {write : α → Json} {xs : List α} (hn : ∀ x ∈ xs, n ≠ 0)
    (hread : ∀ x ∈ xs, read (write x).sketched = .ok x)
    (h : Fills Json.sketched fields members (put xs r) r') :
    Fills Json.sketched (source.field name .defaulted (source.list n read) put :: fields)
      (listMember name (xs.map write) ++ members) r r' := by
  cases xs with
  | nil =>
    rw [hblank] at h
    exact .absent nofun h
  | cons x xs => exact fills_field (Json.readList_sketched (hn x List.mem_cons_self) hread) h

end Members

section Depth

variable {n : Nat} {key s : String}

@[simp] theorem within_textMember : Within n (textMember key s) := by
  unfold textMember
  split <;> simp

@[simp] theorem within_optionalMember {s : Option String} : Within n (optionalMember key s) := by
  cases s <;> simp [optionalMember]

@[simp] theorem within_listMember {items : List Json} :
    Within n (listMember key items) ↔ ∀ v ∈ items, v.depth < n := by
  cases items with
  | nil => simp [listMember]
  | cons v rest =>
    have hmember : listMember key (v :: rest) = [(key, .list (v :: rest))] := rfl
    rw [hmember, Within, List.forall_mem_singleton]
    cases n with
    | zero =>
      have hv : v ∈ v :: rest := List.mem_cons_self
      exact ⟨fun h => absurd h (by simp [Json.depth]), fun h => absurd (h v hv) (Nat.not_lt_zero _)⟩
    | succ n => simp only [Json.depth_list_le, Nat.lt_succ_iff]

theorem depth_attribute (a : Attribute) : a.toJson.depth = 1 := by
  have hle : a.toJson.depth ≤ 0 + 1 := by simp [Attribute.toJson, Json.depth_record_le]
  have hpos : 0 < a.toJson.depth := by simp [Attribute.toJson, Json.depth]
  exact Nat.le_antisymm hle hpos

theorem depth_parameter (p : Parameter) : p.toJson.depth = 1 := by
  simp [Parameter.toJson, Json.depth, Json.depthMembers]

theorem depth_operation_le (o : Operation) :
    o.toJson.depth ≤ n + 1 ↔ ∀ p ∈ o.parameters, 1 < n := by
  simp [Operation.toJson, Json.depth_record_le, depth_parameter]

theorem elementsToJson_eq (es : List Element) : elementsToJson es = es.map Element.toJson := by
  induction es with
  | nil => rw [elementsToJson, List.map_nil]
  | cons e es ih => rw [elementsToJson, List.map_cons, ih]

theorem depth_element_le (e : Element) : e.toJson.depth ≤ n + 1 ↔
    (∀ x ∈ e.ownedElements, x.toJson.depth < n) ∧ (∀ a ∈ e.attributes, 1 < n) ∧
      ∀ o ∈ e.operations, o.toJson.depth < n := by
  obtain ⟨kind, id, name, documentation, stereotype, owned, attributes, operations⟩ := e
  simp [Element.toJson, Json.depth_record_le, elementsToJson_eq, depth_attribute]

theorem depth_end (e : End) : e.toJson.depth = 1 := by
  simp [End.toJson, Json.depth, Json.depthMembers]

theorem depth_relationship_le (r : Relationship) : r.toJson.depth ≤ 2 := by
  cases r with
  | generalization source target => simp [Relationship.toJson, Json.depth_record_le]
  | realization source target => simp [Relationship.toJson, Json.depth_record_le]
  | association name end1 end2 =>
    have hends : Within 1 [("end1", end1.toJson), ("end2", end2.toJson)] := by
      simp [Within, depth_end]
    simp [Relationship.toJson, Json.depth_record_le, hends]

theorem depth_document_le (d : Document) : d.toJson.depth ≤ n + 1 ↔
    (∀ e ∈ d.ownedElements, e.toJson.depth < n) ∧ ∀ r ∈ d.relationships, r.toJson.depth < n := by
  simp [Document.toJson, Json.depth_record_le, elementsToJson_eq]

end Depth

section Numberless

open Json (numberless numberlessItems numberlessMembers)

variable {key s : String}

@[simp] theorem numberless_textMember : numberlessMembers (textMember key s) = true := by
  unfold textMember
  split <;> simp [numberlessMembers, numberless]

@[simp] theorem numberless_optionalMember {s : Option String} :
    numberlessMembers (optionalMember key s) = true := by
  cases s <;> simp [optionalMember, numberlessMembers, numberless]

@[simp] theorem numberless_listMember {items : List Json} :
    numberlessMembers (listMember key items) = numberlessItems items := by
  cases items <;> simp [listMember, numberlessMembers, numberlessItems, numberless]

theorem numberless_attribute (a : Attribute) : a.toJson.numberless = true := by
  simp [Attribute.toJson, numberless, numberlessMembers]

theorem numberless_parameter (p : Parameter) : p.toJson.numberless = true := by
  simp [Parameter.toJson, numberless, numberlessMembers]

theorem numberless_operation (o : Operation) : o.toJson.numberless = true := by
  simp [Operation.toJson, numberless, numberlessMembers, numberless_parameter]

mutual

theorem numberless_element : ∀ e : Element, e.toJson.numberless = true
  | ⟨kind, id, name, documentation, stereotype, owned, attributes, operations⟩ => by
    simp [Element.toJson, numberless, numberlessMembers, numberless_attribute, numberless_operation,
      numberless_elements owned]

theorem numberless_elements : ∀ es : List Element, numberlessItems (elementsToJson es) = true
  | [] => by rw [elementsToJson, numberlessItems]
  | e :: rest => by
    rw [elementsToJson, numberlessItems, numberless_element e, numberless_elements rest]
    rfl

end

theorem numberless_relationship (r : Relationship) : r.toJson.numberless = true := by
  cases r <;> simp [Relationship.toJson, End.toJson, numberless, numberlessMembers]

theorem numberless_document (d : Document) : d.toJson.numberless = true := by
  simp [Document.toJson, numberless, numberlessMembers, numberless_elements,
    numberless_relationship]

end Numberless

theorem readAttribute_toJson (a : Attribute) {n : Nat} (hn : n ≠ 0) :
    source.record n (attributeShape source.toFormat) a.toJson.sketched = .ok a := by
  rw [Attribute.toJson, List.append_assoc, ← List.append_nil (textMember _ a.documentation)]
  refine Json.readRecord_of_fills (by decide) ?_ hn
  exact fills_text Json.meets <| fills_text Json.meets <| fills_flag Json.meets <|
    fills_flag Json.meets <| fills_textMember Json.meets rfl <| fills_textMember Json.meets rfl .done

theorem readParameter_toJson (p : Parameter) {n : Nat} (hn : n ≠ 0) :
    source.record n (parameterShape source.toFormat) p.toJson.sketched = .ok p := by
  rw [Parameter.toJson]
  exact Json.readRecord_of_fills (by decide) (fills_text Json.meets <| fills_text Json.meets .done) hn

theorem readOperation_toJson (o : Operation) {n : Nat} (hn : o.toJson.depth ≤ n) :
    source.record n (operationShape source.toFormat (n - 1)) o.toJson.sketched = .ok o := by
  have hnames (n : Nat) : ((operationShape source.toFormat n).fields.map (·.name)).Nodup := by
    change ["name", "visibility", "documentation", "parameters"].Nodup
    decide
  cases n with
  | zero => simp [Operation.toJson, Json.depth] at hn
  | succ n =>
    rw [depth_operation_le] at hn
    rw [Nat.add_sub_cancel, Operation.toJson, List.append_assoc,
      ← List.append_nil (listMember _ _)]
    refine Json.readRecord_of_fills (hnames n) ?_ (Nat.succ_ne_zero n)
    refine fills_text Json.meets <| fills_text Json.meets <| fills_textMember Json.meets rfl <|
      fills_listMember rfl (fun p hp => ?_) (fun p hp => readParameter_toJson p ?_) .done
    all_goals
      have := hn p hp
      lia

/-- Elements are read one level below the list they stand in. -/
theorem readElements_eq {es : List Element} {n : Nat} (hn : ∀ e ∈ es, e.toJson.depth < n)
    (h : ∀ e ∈ es, ∀ n, e.toJson.depth ≤ n →
      readElement source.toFormat n e.toJson.sketched = .ok e) :
    ∃ read, readElements source.toFormat n = source.list n read ∧
      ∀ e ∈ es, read e.toJson.sketched = .ok e := by
  cases n with
  | zero => exact ⟨_, by rw [readElements], fun e he => absurd (hn e he) (Nat.not_lt_zero _)⟩
  | succ n => exact ⟨_, by rw [readElements], fun e he => h e he n (Nat.le_of_lt_succ (hn e he))⟩

mutual

/-- An element is read back where its levels may still be entered. -/
theorem readElement_toJson : ∀ (e : Element) (n : Nat), e.toJson.depth ≤ n →
    readElement source.toFormat n e.toJson.sketched = .ok e
  | ⟨_, _, _, _, _, _, _, _⟩, 0, hn => by simp [Element.toJson, Json.depth] at hn
  | ⟨kind, id, name, documentation, stereotype, owned, attributes, operations⟩, n + 1, hn => by
    have hnames (read : Sketch → Reader (List Element)) :
        ((elementShape source.toFormat n read).fields.map (·.name)).Nodup := by
      change ["kind", "id", "name", "documentation", "stereotype", "ownedElements", "attributes",
        "operations"].Nodup
      decide
    obtain ⟨howned, hattributes, hoperations⟩ := (depth_element_le _).mp hn
    obtain ⟨read, hlist, hread⟩ := readElements_eq howned (readAllElements_toJson owned)
    rw [Element.toJson, elementsToJson_eq, ← List.append_nil (listMember "operations" _)]
    simp only [List.append_assoc]
    rw [readElement, hlist]
    refine Json.readRecord_of_fills (hnames _) ?_ (Nat.succ_ne_zero n)
    refine fills_text Json.meets <| fills_optionalMember rfl <| fills_text Json.meets <|
      fills_textMember Json.meets rfl <| fills_optionalMember rfl <|
      fills_listMember rfl (fun e he => ?_) hread <|
      fills_listMember rfl (fun a ha => ?_) (fun a ha => readAttribute_toJson a ?_) <|
      fills_listMember rfl (fun o ho => ?_) (fun o ho => readOperation_toJson o ?_) .done
    · exact Nat.ne_zero_of_lt (howned e he)
    · exact Nat.ne_zero_of_lt (hattributes a ha)
    · have := hattributes a ha
      lia
    · exact Nat.ne_zero_of_lt (hoperations o ho)
    · exact Nat.le_sub_one_of_lt (hoperations o ho)

theorem readAllElements_toJson : ∀ (es : List Element), ∀ e ∈ es, ∀ n : Nat, e.toJson.depth ≤ n →
    readElement source.toFormat n e.toJson.sketched = .ok e
  | [], _, he, _, _ => absurd he List.not_mem_nil
  | e :: es, x, hx, n, hn => by
    rcases List.mem_cons.mp hx with hx | hx
    · rw [hx] at hn ⊢
      exact readElement_toJson e n hn
    · exact readAllElements_toJson es x hx n hn

end

theorem readEnd_toJson (e : End) :
    Datum.inner.record 0 (endShape Datum.inner) (.ofJson e.toJson) = .ok e := by
  rw [End.toJson]
  exact Datum.record_of_fills (by decide)
    (fills_text Datum.meets <| fills_flag Datum.meets .done) 0

theorem readDirected (variant source target : String) :
    Datum.inner.record 0 (directedShape Datum.inner variant)
      (.ofJson (.record [("source", .text source), ("target", .text target)])) =
        .ok ⟨source, target⟩ := by
  have hnames : ((directedShape Datum.inner variant).fields.map (·.name)).Nodup := by
    change ["source", "target"].Nodup
    decide
  exact Datum.record_of_fills hnames (fills_text Datum.meets <| fills_text Datum.meets .done) 0

theorem readUndirected (name : String) (end1 end2 : End) :
    Datum.inner.record 0 (undirectedShape Datum.inner) (.ofJson (.record (textMember "name" name ++
      [("end1", end1.toJson), ("end2", end2.toJson)]))) = .ok ⟨name, end1, end2⟩ := by
  refine Datum.record_of_fills (by decide) ?_ 0
  exact fills_textMember Datum.meets rfl <| fills_field (readEnd_toJson end1) <|
    fills_field (readEnd_toJson end2) .done

/-- A relationship is read back from its kind and its other members. -/
theorem readRelationship_of_members {r : Relationship} {kind : String}
    {members : List (String × Json)} (hr : r.toJson = .record (("kind", .text kind) :: members))
    (hkind : relationshipUnion.variants.contains kind = true) (hkeys : ∀ m ∈ members, m.1 ≠ "kind")
    (h : Relationship.ofDatum kind (.ofJson (.record members)) = .ok r) {n : Nat}
    (hn : r.toJson.depth ≤ n) : readRelationship source n r.toJson.sketched = .ok r := by
  have hmembers : (Json.record members).depth ≤ n := by
    rw [hr] at hn
    simpa [Json.depth, Json.depthMembers] using hn
  have hunion : source.union n relationshipUnion r.toJson.sketched =
      pure (kind, .ofJson (.record members)) := by
    rw [hr]
    exact Json.readUnion_sketched hkind hkeys hmembers
  rw [readRelationship, hunion, pure_bind]
  simp only [h]
  rfl

theorem readRelationship_toJson (r : Relationship) {n : Nat} (hn : r.toJson.depth ≤ n) :
    readRelationship source n r.toJson.sketched = .ok r := by
  cases r with
  | generalization source target =>
    refine readRelationship_of_members (by rw [Relationship.toJson]) (by decide) (by simp) ?_ hn
    rw [Relationship.ofDatum, if_pos rfl, readDirected]
    rfl
  | realization source target =>
    refine readRelationship_of_members (by rw [Relationship.toJson]) (by decide) (by simp) ?_ hn
    rw [Relationship.ofDatum, if_neg (by decide), if_pos rfl, readDirected]
    rfl
  | association name end1 end2 =>
    have hkeys : ∀ m ∈ textMember "name" name ++ [("end1", end1.toJson), ("end2", end2.toJson)],
        m.1 ≠ "kind" := by
      unfold textMember
      split <;> simp
    refine readRelationship_of_members (by rw [Relationship.toJson]; rfl) (by decide) hkeys ?_ hn
    rw [Relationship.ofDatum, if_neg (by decide), if_neg (by decide), readUndirected]
    rfl

theorem readDocument_toJson (d : Document) {n : Nat} (hn : d.toJson.depth ≤ n) :
    readDocument source n d.toJson.sketched = .ok d := by
  have hnames (n : Nat) : ((documentShape source n).fields.map (·.name)).Nodup := by
    change ["id", "name", "documentation", "ownedElements", "relationships"].Nodup
    decide
  cases n with
  | zero => simp [Document.toJson, Json.depth] at hn
  | succ n =>
    obtain ⟨howned, hrelationships⟩ := (depth_document_le d).mp hn
    obtain ⟨read, hlist, hread⟩ := readElements_eq howned fun e _ n => readElement_toJson e n
    rw [Document.toJson, elementsToJson_eq, ← List.append_nil (listMember "relationships" _)]
    simp only [List.append_assoc]
    refine Json.readRecord_of_fills (hnames n) ?_ (Nat.succ_ne_zero n)
    rw [documentShape, hlist]
    refine fills_optionalMember rfl <| fills_text Json.meets <| fills_textMember Json.meets rfl <|
      fills_listMember rfl (fun e he => ?_) hread <|
      fills_listMember rfl (fun r hr => ?_) (fun r hr => readRelationship_toJson r ?_) .done
    · exact Nat.ne_zero_of_lt (howned e he)
    · exact Nat.ne_zero_of_lt (hrelationships r hr)
    · exact Nat.le_sub_one_of_lt (hrelationships r hr)

/-- A snapshot with a name is read back from its text if it does not nest too deeply. -/
theorem ofJson_compact {d : Document} (hname : Text.isBlankText d.name = false)
    (hd : d.toJson.depth ≤ Json.maxDepth) : Document.ofJson d.toJson.compact = .ok d := by
  have hread : Json.readText? (readDocument source Json.maxDepth) d.toJson.compact = .ok d := by
    rw [Json.readText?, Json.sketch_compact (numberless_document d)]
    simp [readDocument_toJson d hd]
  rw [Document.ofJson, hread]
  simp only [Document.checkName, hname]
  rfl

theorem depth_of_readOperation {n : Nat} {v : Sketch} {o : Operation}
    (h : source.record n (operationShape source.toFormat (n - 1)) v = .ok o) :
    o.toJson.depth ≤ n := by
  cases n with
  | zero => exact absurd rfl (Json.readRecord_ne_zero h)
  | succ n =>
    have hkept : Json.Kept (operationShape source.toFormat n).fields (·.toJson.depth ≤ n + 1) := by
      simp only [depth_operation_le]
      refine .text (fun _ _ => id) <| .text (fun _ _ => id) <| .text (fun _ _ => id) <|
        .field (fun v ps hps o _ p hp => ?_) .nil
      obtain ⟨hn, hread⟩ := Json.readList_ok hps
      obtain ⟨w, hw⟩ := hread p hp
      have := Json.readRecord_ne_zero hw
      lia
    exact (hkept.readRecord ((depth_operation_le _).mpr nofun) h).2

/-- Elements take one level more than each of them. -/
theorem depth_of_readElements : ∀ n : Nat,
    (∀ v e, readElement source.toFormat n v = .ok e → e.toJson.depth ≤ n) ∧
      ∀ v es, readElements source.toFormat n v = .ok es → ∀ e ∈ es, e.toJson.depth < n
  | 0 => by
    refine ⟨fun v e h => ?_, fun v es h => ?_⟩
    · rw [readElement] at h
      exact absurd rfl (Json.readRecord_ne_zero h)
    · rw [readElements] at h
      exact absurd rfl (Json.readList_ok h).1
  | n + 1 => by
    obtain ⟨helement, helements⟩ := depth_of_readElements n
    refine ⟨fun v e h => ?_, fun v es h e he => ?_⟩
    · rw [readElement] at h
      have hkept : Json.Kept (elementShape source.toFormat n (readElements source.toFormat n)).fields
          (·.toJson.depth ≤ n + 1) := by
        simp only [depth_element_le]
        refine .text (fun _ _ => id) <| .optional (fun _ _ => id) <| .text (fun _ _ => id) <|
          .text (fun _ _ => id) <| .optional (fun _ _ => id) <|
          .field (fun v es hes e he => ⟨helements v es hes, he.2⟩) <|
          .field (fun v as has e he => ⟨he.1, fun a ha => ?_, he.2.2⟩) <|
          .field (fun v os hos e he => ⟨he.1, he.2.1, fun o ho => ?_⟩) .nil
        · obtain ⟨hn, hread⟩ := Json.readList_ok has
          obtain ⟨w, hw⟩ := hread a ha
          have := Json.readRecord_ne_zero hw
          lia
        · obtain ⟨hn, hread⟩ := Json.readList_ok hos
          obtain ⟨w, hw⟩ := hread o ho
          have := depth_of_readOperation hw
          lia
      exact (hkept.readRecord ((depth_element_le _).mpr ⟨nofun, nofun, nofun⟩) h).2
    · rw [readElements] at h
      obtain ⟨w, hw⟩ := (Json.readList_ok h).2 e he
      exact Nat.lt_succ_of_le (helement w e hw)

theorem depth_of_readDocument {n : Nat} (hn : 3 < n) {v : Sketch} {d : Document}
    (h : readDocument source n v = .ok d) : d.toJson.depth ≤ n := by
  cases n with
  | zero => exact absurd rfl (Json.readRecord_ne_zero h)
  | succ n =>
    have hkept : Json.Kept (documentShape source n).fields (·.toJson.depth ≤ n + 1) := by
      simp only [depth_document_le]
      refine .optional (fun _ _ => id) <| .text (fun _ _ => id) <| .text (fun _ _ => id) <|
        .field (fun v es hes d hd => ⟨(depth_of_readElements n).2 v es hes, hd.2⟩) <|
        .field (fun v rs _ d hd => ⟨hd.1, fun r _ => ?_⟩) .nil
      have := depth_relationship_le r
      lia
    exact (hkept.readRecord ((depth_document_le _).mpr ⟨nofun, nofun⟩) h).2

theorem checkName_ok {d e : Document} (h : d.checkName = .ok e) :
    d = e ∧ Text.isBlankText e.name = false := by
  rw [Document.checkName] at h
  split at h
  · cases h
  · rename_i hname
    obtain rfl := Except.ok.inj h
    exact ⟨rfl, Bool.eq_false_iff.mpr hname⟩

/-- A snapshot that was read from JSON, whatever its notation there, is read back from the text that
it is written as, and so is one from YAML, unless it nests deeper than JSON is read. -/
theorem ofJson_roundTrip :
    (∀ t d, Document.ofJson t = .ok d → Document.ofJson d.toJson.compact = .ok d) ∧
    ∀ t d, Document.ofYaml t = .ok d → d.toJson.depth ≤ 127 →
      Document.ofJson d.toJson.compact = .ok d := by
  refine ⟨fun t d h => ?_, fun t d h hd => ?_⟩
  · rw [Document.ofJson] at h
    split at h
    · rename_i e hread
      obtain ⟨rfl, hname⟩ := checkName_ok h
      obtain ⟨v, hv⟩ := Json.readText?_ok hread
      exact ofJson_compact hname (depth_of_readDocument (by decide) hv)
    · cases h
  · rw [Document.ofYaml] at h
    split at h
    · exact ofJson_compact (checkName_ok h).2 hd
    · cases h

/-- An element as a list of its fields, with an escape in its name, in front of the name. -/
def positionalText : String :=
  "\x7b\"ownedElements\": [[\"class\", null, \"C\\u0061rt\", \"\", null]], \"name\": \"Shop\"\x7d"

def indentedText : String := "name: Shop\nownedElements:\n- kind: class\n  name: Cart\n"

def cartText : String :=
  "\x7b\"name\":\"Shop\",\"ownedElements\":[\x7b\"kind\":\"class\",\"name\":\"Cart\"\x7d]\x7d"

theorem ok_of_map {ε α β : Type} {x : Except ε α} {f : α → β} {b : β}
    (h : x.toOption.map f = some b) : ∃ a, x = .ok a ∧ f a = b := by
  cases x with
  | error e => cases h
  | ok a => exact ⟨a, rfl, Option.some.inj h⟩

/-- Both texts are written as one, which is read as what they were. -/
theorem cart_roundTrip :
    (∃ d, Document.ofJson positionalText = .ok d ∧ Document.ofJson cartText = .ok d) ∧
    ∃ d, Document.ofYaml indentedText = .ok d ∧ Document.ofJson cartText = .ok d := by
  obtain ⟨hjson, hyaml⟩ := ofJson_roundTrip
  constructor
  · have hread : (Document.ofJson positionalText).toOption.map (·.toJson.compact) = some cartText := by
      decide +kernel
    obtain ⟨d, hd, hwritten⟩ := ok_of_map hread
    exact ⟨d, hd, hwritten ▸ hjson positionalText d hd⟩
  · have hread : (Document.ofYaml indentedText).toOption.map
        (fun d => (d.toJson.compact, d.toJson.depth)) = some (cartText, 3) := by
      decide +kernel
    obtain ⟨d, hd, hwritten⟩ := ok_of_map hread
    obtain ⟨htext, hdepth⟩ := Prod.mk.inj hwritten
    exact ⟨d, hd, htext ▸ hyaml indentedText d hd (by lia)⟩

end ClassScribe.Snapshot
