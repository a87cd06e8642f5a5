import ClassScribe.Text.Stem

/-! # What a stem keeps of its name

Lowering makes only letters and marks. A character below the digits, such as a slash or a line
break, is in a stem only if it is in its name, and stands at the head of a stem only if it stands
at the head of its name.
-/
namespace ClassScribe.Text

theorem image_of_caseRun : ∀ r ∈ caseRuns, 0x30 ≤ r.image ∧
    (r.image + (r.last - r.first) < 0xd800 ∨
      0xdfff < r.image ∧ r.image + (r.last - r.first) < 0x110000) := by
  decide +kernel

variable {x : Char}

theorem ofNat_ne (hx : x.toNat < 0x30) {n : Nat} (h : 0x30 ≤ n) (hv : n.isValidChar) :
    Char.ofNat n ≠ x := by
  intro he
  have hn := congrArg Char.toNat he
  rw [Char.ofNat, dif_pos hv] at hn
  change n = x.toNat at hn
  omega

theorem eq_of_toLower (hx : x.toNat < 0x30) {c : Char} (h : c.toLower = x) :
    c = x := by
  delta Char.toLower at h
  split at h
  · rename_i hu
    have hA : 65 ≤ c.val.toNat := hu.1
    have hZ : c.val.toNat ≤ 90 := hu.2
    have hv : (c.val + 32).toNat = x.toNat := congrArg Char.toNat h
    rw [UInt32.toNat_add] at hv
    change (c.val.toNat + 32) % 2 ^ 32 = x.toNat at hv
    omega
  · exact h

theorem eq_of_mem_lowerChar (hx : x.toNat < 0x30) {c : Char}
    (h : x ∈ lowerChar c) : c = x := by
  rw [lowerChar] at h
  split at h
  · exact eq_of_toLower hx (List.mem_singleton.mp h).symm
  · split at h
    · simp only [List.mem_cons, List.not_mem_nil, or_false] at h
      rcases h with rfl | rfl
      · exact absurd hx (by decide)
      · exact absurd hx (by decide)
    · split at h
      · rename_i r hr
        obtain ⟨himage, hvalid⟩ := image_of_caseRun r (List.mem_of_find?_eq_some hr)
        have hholds := List.find?_some hr
        simp only [CaseRun.holds, Bool.and_eq_true, decide_eq_true_iff] at hholds
        rw [List.mem_singleton] at h
        refine absurd h.symm (ofNat_ne hx (by omega) ?_)
        rcases hvalid with hvalid | hvalid
        · exact .inl (by omega)
        · exact .inr ⟨by omega, by omega⟩
      · exact (List.mem_singleton.mp h).symm

theorem lowerChar_ne_nil (c : Char) : lowerChar c ≠ [] := by
  rw [lowerChar]
  split
  · simp
  · split
    · simp
    · split <;> simp

theorem mem_of_mem_stemChars (hx : x.toNat < 0x30) {small : Bool} {cs : List Char}
    (h : x ∈ stemChars small cs) : x ∈ cs := by
  induction cs generalizing small with
  | nil => cases h
  | cons c cs ih =>
    rw [stemChars, List.mem_append, List.mem_append] at h
    rcases h with (h | h) | h
    · split at h
      · obtain rfl := List.mem_singleton.mp h
        exact absurd hx (by decide)
      · cases h
    · rw [eq_of_mem_lowerChar hx h]
      exact List.mem_cons_self
    · exact List.mem_cons_of_mem _ (ih h)

theorem head_stemChars (hx : x.toNat < 0x30) {cs : List Char}
    (h : (stemChars false cs).head? = some x) : cs.head? = some x := by
  cases cs with
  | nil => cases h
  | cons c cs =>
    rw [stemChars, Bool.false_and, if_neg Bool.false_ne_true, List.nil_append,
      List.head?_append, List.head?_eq_some_head (lowerChar_ne_nil c), Option.some_or] at h
    have hmem := List.head_mem (lowerChar_ne_nil c)
    rw [Option.some.inj h] at hmem
    rw [eq_of_mem_lowerChar hx hmem, List.head?_cons]

end ClassScribe.Text
