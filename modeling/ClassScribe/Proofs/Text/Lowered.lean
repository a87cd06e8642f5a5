import ClassScribe.Proofs.Text.Stem

/-! # Lower case is final

No character that lowering makes is a capital, inside ASCII or beyond. So the stem of a text is its
own stem, and the stem of a text in two parts is the two stems, with an underscore in between only
where the first part ends small and the second begins with a capital.
-/
namespace ClassScribe.Text

/-- The images of `r` are no capitals of `s`: they lie below or above, or at the odd distances from
a run that has every second character. -/
def CaseRun.apart (r s : CaseRun) : Bool :=
  (r.image + (r.last - r.first)).blt s.first || s.last.blt r.image ||
    (s.step.beq 2 && (r.step.beq 2 || r.first.beq r.last) && ((r.image + s.first) % 2).beq 1)

theorem caseRuns_apart : (caseRuns.all fun r => caseRuns.all r.apart) = true := by decide +kernel

/-- An image in ASCII is a small letter, and none is the dotted capital. -/
theorem image_of_capital : ∀ r ∈ caseRuns,
    (0x80 ≤ r.image ∨ 0x61 ≤ r.image ∧ r.image + (r.last - r.first) ≤ 0x7A) ∧
      (r.image + (r.last - r.first) < 0x130 ∨ 0x130 < r.image) := by
  decide +kernel

theorem not_holds_of_apart {r s : CaseRun} (h : r.apart s = true) {n : Nat}
    (hn : r.holds n = true) : s.holds (r.image + (n - r.first)) = false := by
  simp only [CaseRun.apart, Bool.or_eq_true, Bool.and_eq_true, Nat.blt_eq, Nat.beq_eq] at h
  simp only [CaseRun.holds, Bool.and_eq_true, decide_eq_true_eq, beq_iff_eq] at hn
  obtain ⟨⟨hfirst, hlast⟩, hstep⟩ := hn
  apply Bool.eq_false_iff.mpr
  intro hs
  simp only [CaseRun.holds, Bool.and_eq_true, decide_eq_true_eq, beq_iff_eq] at hs
  obtain ⟨⟨hbegin, hend⟩, hgap⟩ := hs
  rcases h with (hbelow | habove) | ⟨⟨htwo, heven⟩, hodd⟩
  · omega
  · omega
  · rw [htwo] at hgap
    rcases heven with heven | hone
    · rw [heven] at hstep
      omega
    · omega

theorem find?_image {r : CaseRun} (hr : r ∈ caseRuns) {n : Nat} (hn : r.holds n = true) :
    caseRuns.find? (·.holds (r.image + (n - r.first))) = none := by
  rw [List.find?_eq_none]
  intro s hs
  have hapart : r.apart s = true :=
    List.all_eq_true.mp (List.all_eq_true.mp caseRuns_apart r hr) s hs
  exact Bool.eq_false_iff.mp (not_holds_of_apart hapart hn)

/-- A character that lowering leaves as it is, and no capital of ASCII. -/
def Lowered (c : Char) : Prop := lowerChar c = [c] ∧ c.isUpper = false

instance (c : Char) : Decidable (Lowered c) := inferInstanceAs (Decidable (_ ∧ _))

theorem lowered_ascii : ∀ n < 0x80, Lowered (Char.ofNat n).toLower := by decide

theorem toNat_ofNat {n : Nat} (h : n.isValidChar) : (Char.ofNat n).toNat = n := by
  rw [Char.ofNat, dif_pos h]
  rfl

theorem isUpper_iff (c : Char) : c.isUpper = true ↔ 'A' ≤ c ∧ c ≤ 'Z' := by
  delta Char.isUpper
  simp only [Bool.decide_and, Bool.and_eq_true, decide_eq_true_eq]
  rfl

theorem isUpper_of_large {c : Char} (h : 0x5B ≤ c.toNat) : c.isUpper = false := by
  apply Bool.eq_false_iff.mpr
  intro hu
  have hle : c.toNat ≤ 0x5A := ((isUpper_iff c).mp hu).2
  omega

theorem lowered_image {r : CaseRun} (hr : r ∈ caseRuns) {n : Nat} (hn : r.holds n = true) :
    Lowered (Char.ofNat (r.image + (n - r.first))) := by
  obtain ⟨hascii, hdotted⟩ := image_of_capital r hr
  obtain ⟨-, hvalid⟩ := image_of_caseRun r hr
  have hnone := find?_image hr hn
  simp only [CaseRun.holds, Bool.and_eq_true, decide_eq_true_eq] at hn
  have hbound : n - r.first ≤ r.last - r.first := by omega
  generalize n - r.first = k at hnone hbound ⊢
  have hchar : (r.image + k).isValidChar := by
    rcases hvalid with hvalid | hvalid
    · exact .inl (by omega)
    · exact .inr ⟨by omega, by omega⟩
  have hnat := toNat_ofNat hchar
  rcases hascii with hlarge | ⟨hsmall, hletter⟩
  · refine ⟨?_, isUpper_of_large (by omega)⟩
    have hne : (Char.ofNat (r.image + k) == dottedCapital) = false := by
      apply beq_false_of_ne
      intro he
      have hnumber : r.image + k = 0x130 := hnat.symm.trans (congrArg Char.toNat he)
      omega
    rw [lowerChar, if_neg (by omega), hne, if_neg Bool.false_ne_true, hnat, hnone]
  · have hlower : (Char.ofNat (r.image + k)).toLower = Char.ofNat (r.image + k) := by
      delta Char.toLower
      rw [dif_neg]
      intro hu
      have hle : (Char.ofNat (r.image + k)).toNat ≤ 0x5A := hu.2
      omega
    exact hlower ▸ lowered_ascii (r.image + k) (by omega)

/-- Whatever lowering makes of a character, there is nothing left in it to lower. -/
theorem lowered_of_mem {c x : Char} (h : x ∈ lowerChar c) : Lowered x := by
  by_cases hascii : c.toNat < 0x80
  · rw [lowerChar, if_pos hascii, List.mem_singleton] at h
    rw [h, ← Char.ofNat_toNat c]
    exact lowered_ascii c.toNat hascii
  · by_cases hdotted : (c == dottedCapital) = true
    · have hletter : Lowered 'i' := by decide +kernel
      have hdot : Lowered (Char.ofNat 0x307) := by decide +kernel
      rw [lowerChar, if_neg hascii, if_pos hdotted, List.mem_cons, List.mem_singleton] at h
      rcases h with rfl | rfl
      · exact hletter
      · exact hdot
    · cases hfind : caseRuns.find? (·.holds c.toNat) with
      | some r =>
        have hholds : r.holds c.toNat = true :=
          List.find?_some (p := fun r : CaseRun => r.holds c.toNat) hfind
        rw [lowerChar, if_neg hascii, if_neg hdotted, hfind, List.mem_singleton] at h
        rw [h]
        exact lowered_image (List.mem_of_find?_eq_some hfind) hholds
      | none =>
        have hself : lowerChar c = [c] := by
          rw [lowerChar, if_neg hascii, if_neg hdotted, hfind]
        obtain rfl : x = c := by rwa [hself, List.mem_singleton] at h
        exact ⟨hself, isUpper_of_large (by omega)⟩

/-- Whether the last character is a small letter of ASCII, where `before` says it of what stands in
front of them. -/
def endsSmall (before : Bool) (cs : List Char) : Bool := (cs.getLast?.map Char.isLower).getD before

theorem endsSmall_cons (before : Bool) (c : Char) (cs : List Char) :
    endsSmall before (c :: cs) = endsSmall c.isLower cs := by
  cases cs with
  | nil => rfl
  | cons d cs =>
    have hlast := List.getLast?_eq_some_getLast (List.cons_ne_nil d cs)
    rw [endsSmall, endsSmall, List.getLast?_cons_cons, hlast]
    rfl

/-- The characters in front of a text decide about its first letter only. -/
theorem stemChars_eq (small : Bool) (cs : List Char) : stemChars small cs =
    (if small && cs.head?.any Char.isUpper then ['_'] else []) ++ stemChars false cs := by
  cases cs with
  | nil => simp [stemChars]
  | cons c cs => simp [stemChars]

theorem stemChars_append (small : Bool) (cs ds : List Char) :
    stemChars small (cs ++ ds) = stemChars small cs ++ stemChars (endsSmall small cs) ds := by
  induction cs generalizing small with
  | nil => rfl
  | cons c cs ih =>
    rw [List.cons_append, stemChars, stemChars, ih, endsSmall_cons]
    simp only [List.append_assoc]

theorem lowered_stemChars {small : Bool} {cs : List Char} {x : Char}
    (h : x ∈ stemChars small cs) : Lowered x := by
  induction cs generalizing small with
  | nil => cases h
  | cons c cs ih =>
    rw [stemChars, List.mem_append, List.mem_append] at h
    rcases h with (h | h) | h
    · split at h
      · rw [List.mem_singleton.mp h]
        decide
      · cases h
    · exact lowered_of_mem h
    · exact ih h

/-- Where there is nothing to lower, nothing is changed. -/
theorem stemChars_of_lowered {cs : List Char} (h : ∀ c ∈ cs, Lowered c) (small : Bool) :
    stemChars small cs = cs := by
  induction cs generalizing small with
  | nil => rfl
  | cons c cs ih =>
    obtain ⟨⟨hself, hupper⟩, hrest⟩ := List.forall_mem_cons.mp h
    rw [stemChars, hupper, Bool.and_false, if_neg Bool.false_ne_true, hself, ih hrest]
    rfl

/-- The stem of a text in two parts consists of their stems, with an underscore in between exactly
where a small letter of ASCII is followed by a capital of ASCII. No capital of ASCII is in a stem,
and a stem is its own stem. -/
theorem stem_laws :
    (∀ s t : String, stem (s ++ t) = stem s ++
      (if s.toList.getLast?.any Char.isLower && t.toList.head?.any Char.isUpper then "_" else "") ++
        stem t) ∧
    (∀ (s : String) (c : Char), c ∈ (stem s).toList → ¬ ('A' ≤ c ∧ c ≤ 'Z')) ∧
    ∀ s : String, stem (stem s) = stem s := by
  refine ⟨fun s t => ?_, fun s c hc hcapital => ?_, fun s => ?_⟩
  · have hends : endsSmall false s.toList = s.toList.getLast?.any Char.isLower := by
      cases h : s.toList.getLast? <;> simp [endsSmall, h]
    apply String.toList_inj.mp
    simp only [stem, String.toList_append, String.toList_ofList, stemChars_append, hends]
    rw [stemChars_eq _ t.toList, List.append_assoc]
    split <;> simp
  · rw [stem, String.toList_ofList] at hc
    exact Bool.eq_false_iff.mp (lowered_stemChars hc).2 ((isUpper_iff c).mpr hcapital)
  · have hlowered : ∀ c ∈ stemChars false s.toList, Lowered c := fun _ hc => lowered_stemChars hc
    rw [stem, stem, String.toList_ofList, stemChars_of_lowered hlowered]

end ClassScribe.Text
