import ClassScribe.Command.Run
import ClassScribe.Proofs.Generate.Closure
import ClassScribe.Proofs.Generate.Coverage

/-! # Previews

A run writes its files in the order of its tasks, so each write is for one element. The source that
is shown for an element is what a run from the same root writes for it, and where none is shown,
nothing is written.
-/
namespace ClassScribe
open Host

/-- The element that a task writes a file for, with the path and the content. -/
def Task.entry? : Task → Option (ElementId × Path × String)
  | .file i p content => some (i, p, content)
  | _ => none

namespace Generate

/-- What a call writes, whether or not that succeeds. -/
def writing? : Event Call.Answer → Option (Path × String)
  | .called (.writeText p content _) _ => some (p, content)
  | _ => none

/-- The writes among the calls of a run that are for an element. -/
def writesFor (m : Model) (root : ElementId) (o : Options) (base : Path) (cs : Calls)
    (i : ElementId) : List (Path × String) :=
  let elements := (tasks m root o base).filterMap fun t => t.entry?.map (·.1)
  ((elements.zip (cs.filterMap writing?)).filter (·.1 == i)).map (·.2)

variable {m : Model} {root i : ElementId} {o : Options} {base p : Path} {t : Task} {ts : List Task}
  {r r' : Report} {cs : Calls} {out : Outcome}

theorem Passes.writes (h : Passes t r cs r') :
    cs.filterMap writing? = (t.entry?.map (·.2)).toList := by
  cases h <;> rfl

theorem Halts.writes (h : Halts t r cs out) :
    cs.filterMap writing? = (t.entry?.map (·.2)).toList := by
  cases h <;> rfl

/-- A run writes for its tasks in their order, for all of them if it completes. -/
theorem Conduct.writes (h : Conduct ts r cs out) : ∃ done rest,
    ts.filterMap Task.entry? = done ++ rest ∧ cs.filterMap writing? = done.map (·.2) ∧
      (out.completed?.isSome = true → rest = []) := by
  have entry (t : Task) (ts : List Task) : (t :: ts).filterMap Task.entry? =
      t.entry?.toList ++ ts.filterMap Task.entry? := by
    cases he : t.entry? <;> simp [he]
  induction h with
  | finished r => exact ⟨[], [], rfl, rfl, fun _ => rfl⟩
  | @passed t ts r r' xs ys out hp _ ih =>
    obtain ⟨done, rest, hts, hys, hrest⟩ := ih
    refine ⟨t.entry?.toList ++ done, rest, ?_, ?_, hrest⟩
    · rw [entry, hts, List.append_assoc]
    · rw [List.filterMap_append, hp.writes, hys, List.map_append, Option.toList_map]
  | @halted t ts r xs out hh =>
    refine ⟨t.entry?.toList, ts.filterMap Task.entry?, entry t ts, ?_, ?_⟩
    · rw [hh.writes, Option.toList_map]
    · cases hh <;> exact fun h => absurd h Bool.false_ne_true

/-- The file that a run from `root` writes for an element. -/
def entryOf? (m : Model) (root : ElementId) (o : Options) (base : Path) (i : ElementId) :
    Option (ElementId × Path × String) :=
  (Source.render? m root o i).map fun f => (i, outputPath m root base i, f.content)

theorem entry?_taskOf? (m : Model) (root : ElementId) (o : Options) (base : Path) (i : ElementId) :
    (taskOf? m root o base i).bind Task.entry? = entryOf? m root o base i := by
  cases he : m.element? i with
  | none => simp [taskOf?, entryOf?, Source.render?, he]
  | some e =>
    cases hk : e.kind <;>
      simp [taskOf?, entryOf?, he, hk, Task.entry?, Source.render?, Source.blocks?]

theorem entries_of_tasks (ht : m.IsTree) (root : ElementId) (o : Options) (base : Path) :
    (tasks m root o base).filterMap Task.entry? =
      (m.subtree root).filterMap (entryOf? m root o base) := by
  rw [tasks_eq ht, List.filterMap_filterMap]
  exact List.filterMap_congr fun i _ => entry?_taskOf? m root o base i

theorem writesFor_eq {done rest : List (ElementId × Path × String)}
    (hts : (tasks m root o base).filterMap Task.entry? = done ++ rest)
    (hcs : cs.filterMap writing? = done.map (·.2)) (i : ElementId) :
    writesFor m root o base cs i = (done.filter (·.1 == i)).map (·.2) := by
  have helements : (tasks m root o base).filterMap (fun t => t.entry?.map (·.1)) =
      done.map (·.1) ++ rest.map (·.1) := by
    rw [← List.map_filterMap, hts, List.map_append]
  have hzip : (done.map (·.1) ++ rest.map (·.1)).zip (done.map (·.2)) = done := by
    rw [← List.append_nil (done.map (·.2)), List.zip_append (by simp), List.zip_nil_right,
      List.append_nil]
    exact (List.zip_of_prod rfl rfl).symm
  rw [writesFor, helements, hcs, hzip]

theorem nodup_subtree (m : Model) (i : ElementId) : (m.subtree i).Nodup :=
  (m.subtree_sorted i).imp Nat.ne_of_lt

theorem entryOf?_filter (m : Model) (root : ElementId) (o : Options) (base : Path)
    (i j : ElementId) : (entryOf? m root o base j).filter (·.1 == i) =
      if j == i then entryOf? m root o base i else none := by
  by_cases h : j = i
  · subst h
    cases hf : Source.render? m root o j <;> simp [entryOf?, hf]
  · cases hf : Source.render? m root o j <;> simp [entryOf?, hf, h]

/-- Among the entries of a subtree an element has its own, if it is in the subtree. -/
theorem filter_entries (m : Model) (root : ElementId) (o : Options) (base : Path) (i : ElementId) :
    ((m.subtree root).filterMap (entryOf? m root o base)).filter (·.1 == i) =
      if i ∈ m.subtree root then (entryOf? m root o base i).toList else [] := by
  have hown : (m.subtree root).filter (· == i) = if i ∈ m.subtree root then [i] else [] := by
    rw [List.filter_beq, (nodup_subtree m root).count]
    split <;> rfl
  have hfilter : ((m.subtree root).filterMap (entryOf? m root o base)).filter (·.1 == i) =
      ((m.subtree root).filter (· == i)).filterMap fun _ => entryOf? m root o base i := by
    rw [List.filter_filterMap, List.filterMap_filter]
    exact List.filterMap_congr fun j _ => entryOf?_filter m root o base i j
  rw [hfilter, hown]
  split
  · cases entryOf? m root o base i <;> rfl
  · rfl

theorem entries_sublist (m : Model) (root : ElementId) (o : Options) (base : Path) :
    List.Sublist (((m.subtree root).filterMap (entryOf? m root o base)).map (·.1))
      (m.subtree root) := by
  have hguard (i : ElementId) : (entryOf? m root o base i).map (·.1) =
      Option.guard (fun i => (Source.render? m root o i).isSome) i := by
    cases hf : Source.render? m root o i <;> simp [entryOf?, Option.guard, hf]
  rw [List.map_filterMap, List.filterMap_congr fun i _ => hguard i, List.filterMap_eq_filter]
  exact List.filter_sublist

/-- Pairs in the order of their first parts, taken together by first parts. -/
theorem flatMap_filter {α : Type} {xs : List ElementId} (hxs : xs.Nodup)
    {ps : List (ElementId × α)} (h : List.Sublist (ps.map (·.1)) xs) :
    xs.flatMap (fun i => ps.filter (·.1 == i)) = ps := by
  induction xs generalizing ps with
  | nil => rw [List.flatMap_nil, List.map_eq_nil_iff.mp (List.sublist_nil.mp h)]
  | cons x xs ih =>
    obtain ⟨hx, hnodup⟩ := List.nodup_cons.mp hxs
    have hnone {qs : List (ElementId × α)} (hq : List.Sublist (qs.map (·.1)) xs) :
        qs.filter (·.1 == x) = [] := by
      apply List.filter_eq_nil_iff.mpr
      rintro q hmem hqx
      exact hx (beq_iff_eq.mp hqx ▸ hq.subset (List.mem_map_of_mem hmem))
    rw [List.flatMap_cons]
    rcases List.sublist_cons_iff.mp h with h | ⟨ys, hps, h⟩
    · rw [hnone h, ih hnodup h, List.nil_append]
    · obtain ⟨q, qs, rfl, rfl, rfl⟩ := List.map_eq_cons_iff.mp hps
      have hrest : ∀ i ∈ xs, (q :: qs).filter (·.1 == i) = qs.filter (·.1 == i) := by
        intro i hi
        refine List.filter_cons_of_neg ?_
        rintro hqi
        exact hx (beq_iff_eq.mp hqi ▸ hi)
      rw [List.filter_cons_of_pos (by simp), hnone h, List.flatMap_congr hrest, ih hnodup h]
      rfl

end Generate

namespace Command

theorem sourceOf_resolved {m : Model} {named : Option String} {name : String} {root i : ElementId}
    (hr : rootNamed m named = .ok root) (hi : elementNamed m name = .ok i) (o : Options) :
    sourceOf m named name o =
      if m.isWithin i root then
        match Source.render? m root o i with
        | some f => .ok f.content
        | none => .error (.noSource name)
      else .error (.outsideRoot name (m.qualifiedName root)) := by
  rw [sourceOf, hr, hi]
  rfl

theorem resolved_of_sourceOf {m : Model} {named : Option String} {name c : String} {o : Options}
    (h : sourceOf m named name o = .ok c) :
    ∃ root i, rootNamed m named = .ok root ∧ elementNamed m name = .ok i := by
  cases hr : rootNamed m named with
  | error e =>
    rw [sourceOf, hr] at h
    cases h
  | ok root =>
    cases hi : elementNamed m name with
    | error e =>
      rw [sourceOf, hr, hi] at h
      cases h
    | ok i => exact ⟨root, i, rfl, rfl⟩

end Command

namespace Generate

theorem size_of_render {f : Source.File} (h : Source.render? m root o i = some f) :
    i < m.elements.size := by
  obtain ⟨e, -, he, -⟩ := isClassifier_of_render h
  exact (Array.getElem?_eq_some_iff.mp he).1

/-- What a run writes for an element, if it has come so far, is the file of the element. -/
theorem writesFor_cases (ht : m.IsTree) (h : Conduct (tasks m root o base) r cs out)
    (i : ElementId) :
    (i ∉ m.subtree root ∨ Source.render? m root o i = none → writesFor m root o base cs i = []) ∧
    ∀ f, i ∈ m.subtree root → Source.render? m root o i = some f → out.completed?.isSome = true →
      writesFor m root o base cs i = [(outputPath m root base i, f.content)] := by
  obtain ⟨done, rest, hts, hcs, hrest⟩ := h.writes
  have hall : (done ++ rest).filter (·.1 == i) =
      if i ∈ m.subtree root then (entryOf? m root o base i).toList else [] := by
    rw [← hts, entries_of_tasks ht, filter_entries]
  rw [writesFor_eq hts hcs]
  constructor
  · intro hnone
    have hnil : (done ++ rest).filter (·.1 == i) = [] := by
      rw [hall]
      rcases hnone with hout | hf
      · rw [if_neg hout]
      · simp [entryOf?, hf]
    rw [List.filter_append] at hnil
    rw [(List.append_eq_nil_iff.mp hnil).1, List.map_nil]
  · intro f hi hf hcompleted
    rw [hrest hcompleted, List.append_nil, if_pos hi] at hall
    simp [hall, entryOf?, hf]

/-- The source shown for an element is the one thing that a run from the same root writes for it,
and where none is shown for it, no run writes anything for it. -/
theorem preview_written {d : Snapshot.Document} (hd : Model.build d = .ok m)
    (named : Option String) (name : String) (o : Options) :
    (∀ c, Command.sourceOf m named name o = .ok c → ∃ root i,
      Command.rootNamed m named = .ok root ∧ Command.elementNamed m name = .ok i ∧
      ∀ base, ∃ dir, Visits m root base i dir ∧
        ∀ (σ : Type) (h : Host Call.Answer σ) (s : σ) (r : Report),
          ((generate m root o base).run h s).result = .completed r →
            writesFor m root o base ((generate m root o base).run h s).calls i =
              [(dir.join (Text.stem (m.name i) ++ ".rb"), c)]) ∧
    (∀ root i e, Command.rootNamed m named = .ok root → Command.elementNamed m name = .ok i →
      Command.sourceOf m named name o = .error e →
      ∀ (base : Path) (σ : Type) (h : Host Call.Answer σ) (s : σ),
        writesFor m root o base ((generate m root o base).run h s).calls i = []) ∧
    (∀ root base i, m.isWithin i root = true ↔ ∃ dir, Visits m root base i dir) ∧
    ∀ (root : ElementId) (base : Path) (σ : Type) (h : Host Call.Answer σ) (s : σ),
      (m.subtree root).flatMap (writesFor m root o base ((generate m root o base).run h s).calls) =
        ((generate m root o base).run h s).calls.filterMap writing? := by
  have ht := Model.build_isTree hd
  refine ⟨fun c hc => ?_, fun root i e hr hi he base σ h s => ?_, fun root base i => ?_,
    fun root base σ h s => ?_⟩
  · obtain ⟨root, i, hr, hi⟩ := Command.resolved_of_sourceOf hc
    rw [Command.sourceOf_resolved hr hi] at hc
    by_cases hw : m.isWithin i root = true
    · cases hf : Source.render? m root o i with
      | none => simp [hw, hf] at hc
      | some f =>
        have hcontent : f.content = c := by simpa [hw, hf] using hc
        have hmem : i ∈ m.subtree root := Model.mem_subtree.mpr ⟨size_of_render hf, hw⟩
        refine ⟨root, i, hr, hi, fun base => ⟨_, (visits_iff ht).mpr ⟨hw, rfl⟩, ?_⟩⟩
        intro σ h s r hresult
        rw [← outputPath_eq, ← hcontent]
        refine (writesFor_cases ht (generate_conduct h m root o base s) i).2 f hmem hf ?_
        rw [hresult]
        rfl
    · simp [hw] at hc
  · rw [Command.sourceOf_resolved hr hi] at he
    refine (writesFor_cases ht (generate_conduct h m root o base s) i).1 ?_
    by_cases hw : m.isWithin i root = true
    · cases hf : Source.render? m root o i with
      | none => exact .inr rfl
      | some f => simp [hw, hf] at he
    · exact .inl fun hmem => hw (Model.mem_subtree.mp hmem).2
  · constructor
    · exact fun hw => ⟨_, (visits_iff ht).mpr ⟨hw, rfl⟩⟩
    · rintro ⟨dir, hdir⟩
      exact ((visits_iff ht).mp hdir).1
  · obtain ⟨done, rest, hts, hcs, -⟩ := (generate_conduct h m root o base s).writes
    have hsub : List.Sublist (done.map (·.1)) (m.subtree root) := by
      refine List.Sublist.trans ?_ (entries_sublist m root o base)
      rw [← entries_of_tasks ht, hts]
      exact (List.sublist_append_left done rest).map _
    rw [List.flatMap_congr fun i _ => writesFor_eq hts hcs i, ← List.map_flatMap,
      flatMap_filter (nodup_subtree m root) hsub, hcs]

def billingRun : Run Call.Answer Memory Outcome :=
  (generate nestedModel 2 {} ⟨"out"⟩).run Memory.host (.new ⟨"out"⟩ .accepted)

/-- A class inside the root is shown as a run writes it, and a class outside is not written. -/
theorem nested_previewed :
    (∃ c, Command.sourceOf nestedModel (some "Shop.Billing") "Shop.Billing.Tax.TaxRate" {} = .ok c ∧
      ∃ dir, Visits nestedModel 2 ⟨"out"⟩ 5 dir ∧
        writesFor nestedModel 2 {} ⟨"out"⟩ billingRun.calls 5 = [(dir.join "tax_rate.rb", c)]) ∧
    writesFor nestedModel 2 {} ⟨"out"⟩ billingRun.calls 1 = [] := by
  have hd : Model.build nested = .ok nestedModel := rfl
  have hroot : Command.rootNamed nestedModel (some "Shop.Billing") = .ok 2 := by
    have hfind : nestedModel.find? "Shop.Billing" = some 2 := by decide +kernel
    simp [Command.rootNamed, Command.elementNamed, hfind]
  have hrate : Command.elementNamed nestedModel "Shop.Billing.Tax.TaxRate" = .ok 5 := by
    have hfind : nestedModel.find? "Shop.Billing.Tax.TaxRate" = some 5 := by decide +kernel
    simp [Command.elementNamed, hfind]
  have hcart : Command.elementNamed nestedModel "Shop.Cart" = .ok 1 := by
    have hfind : nestedModel.find? "Shop.Cart" = some 1 := by decide +kernel
    simp [Command.elementNamed, hfind]
  have hcompleted : ∃ r, billingRun.result = .completed r ∧ r.files.map (·.text) =
      ["out/Billing/invoice.rb", "out/Billing/Tax/tax_rate.rb"] := by
    apply Outcome.completed_of_files
    decide +kernel
  constructor
  · have hin : nestedModel.isWithin 5 2 = true := by decide +kernel
    obtain ⟨f, hf⟩ : ∃ f, Source.render? nestedModel 2 {} 5 = some f := ⟨_, rfl⟩
    have hc : Command.sourceOf nestedModel (some "Shop.Billing") "Shop.Billing.Tax.TaxRate" {} =
        .ok f.content := by
      rw [Command.sourceOf_resolved hroot hrate, if_pos hin, hf]
    have hname : Text.stem (nestedModel.name 5) ++ ".rb" = "tax_rate.rb" := by decide +kernel
    obtain ⟨root, i, hr, hi, hwritten⟩ :=
      (preview_written hd (some "Shop.Billing") "Shop.Billing.Tax.TaxRate" {}).1 _ hc
    obtain rfl := Except.ok.inj (hroot.symm.trans hr)
    obtain rfl := Except.ok.inj (hrate.symm.trans hi)
    obtain ⟨dir, hdir, hwrites⟩ := hwritten ⟨"out"⟩
    obtain ⟨r, hr, -⟩ := hcompleted
    exact ⟨_, hc, dir, hdir, hname ▸ hwrites _ _ _ r hr⟩
  · have hout : nestedModel.isWithin 1 2 = false := by decide +kernel
    have he : Command.sourceOf nestedModel (some "Shop.Billing") "Shop.Cart" {} =
        .error (.outsideRoot "Shop.Cart" (nestedModel.qualifiedName 2)) := by
      rw [Command.sourceOf_resolved hroot hcart, if_neg (by simp [hout])]
    exact (preview_written hd (some "Shop.Billing") "Shop.Cart" {}).2.1 2 1 _ hroot hcart he
      ⟨"out"⟩ _ _ _

end Generate
end ClassScribe
