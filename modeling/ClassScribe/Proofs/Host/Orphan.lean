import ClassScribe.Proofs.Host.Memory

/-! # No orphans

Whatever is asked of a memory host that began with one base directory, no file and no directory is
left without the directory around it; the base directory alone needs none. A change that fails
leaves the memory as it was.
-/
namespace ClassScribe.Host

/-- The failure that the answer to a call tells, if it tells one. -/
def Call.failure? : (c : Call) → c.Answer → Option Failure
  | .createDirectory _, .error f => some f
  | .deleteDirectory _, .error f => some f
  | .writeText _ _ _, .error f => some f
  | _, _ => none

namespace Memory

variable {m m' : Memory} {base p : Path}

/-- The directory around a path, where there is one, is the empty path or a directory. -/
def Anchored (m : Memory) (p : Path) : Prop :=
  ∀ q, p.parent? = some q → q.text = "" ∨ m.isDirectory q = true

theorem HasParent.anchored (h : m.HasParent p.steps) : m.Anchored p := by
  intro q hq
  obtain ⟨hs, -⟩ := p.parent?_steps.1 q hq
  rcases h with hshort | hd
  · left
    apply Path.steps_eq_nil_iff.mp
    apply List.eq_nil_of_length_eq_zero
    rw [hs, List.length_dropLast]
    omega
  · right
    rw [isDirectory_iff, hs]
    exact hd

/-- Every place that is a directory is that of a path. -/
def Spelled (m : Memory) : Prop := ∀ place ∈ m.directories, ∃ d : Path, d.steps = place

theorem Spelled.answer (h : Spelled m) (c : Call) : Spelled (m.answer c).2 := by
  have settle (x : Except Failure Memory) (hx : ∀ m', x = .ok m' → Spelled m') :
      Spelled (m.settle x).2 := by
    cases x with
    | error f => exact h
    | ok m' => exact hx m' rfl
  cases c with
  | directoryExists p => exact h
  | confirm message => exact h
  | createDirectory p =>
    refine settle _ fun m' hc place hplace => ?_
    obtain ⟨-, -, rfl⟩ := createDirectory_ok hc
    rcases List.mem_append.mp hplace with hplace | hplace
    · exact h place hplace
    · exact ⟨p, (List.mem_singleton.mp hplace).symm⟩
  | deleteDirectory p =>
    refine settle _ fun m' hc place hplace => ?_
    obtain ⟨-, rfl⟩ := deleteDirectory_ok hc
    exact h place (List.mem_filter.mp hplace).1
  | writeText p content overwrite =>
    refine settle _ fun m' hc => ?_
    obtain ⟨-, rfl⟩ := writeText_ok hc
    exact h

theorem Spelled.withFile (h : Spelled m) (p : Path) (content : String) :
    Spelled (m.withFile p content) := by
  intro place hplace
  rcases (directories_foldl _ m place).mp hplace with hplace | ⟨q, -, rfl⟩
  · exact h place hplace
  · exact ⟨q, rfl⟩

theorem Reachable.spelled (h : Reachable base m) : Spelled m := by
  induction h with
  | new reply => exact fun place hplace => ⟨base, (List.mem_singleton.mp hplace).symm⟩
  | withFile p content _ ih => exact ih.withFile p content
  | failOn p _ ih => exact ih
  | answered c _ ih => exact ih.answer c

theorem settle_unchanged {x : Except Failure Memory} (h : (m.settle x).1 ≠ .ok ()) :
    (m.settle x).2 = m := by
  cases x with
  | error f => rfl
  | ok m' => exact absurd rfl h

theorem answer_unchanged {c : Call} {f : Failure} (h : c.failure? (m.answer c).1 = some f) :
    (m.answer c).2 = m := by
  cases c with
  | directoryExists p => rfl
  | confirm message => cases h
  | createDirectory p | deleteDirectory p | writeText p content overwrite =>
    refine settle_unchanged fun hok => ?_
    simp [answer, hok, Call.failure?] at h

/-- In every memory that a host comes to, each file and each directory but the base directory has
the directory around it, and a call that fails changes nothing. -/
theorem reachable_anchored (h : Reachable base m) :
    (∀ f ∈ m.files, m.Anchored f.1) ∧
    (∀ place ∈ m.directories, ∃ d : Path, d.steps = place) ∧
    (∀ d, m.isDirectory d = true → d.same base = false → m.Anchored d) ∧
    ∀ c f, c.failure? (m.answer c).1 = some f → (m.answer c).2 = m := by
  have hrooted := h.rooted
  refine ⟨fun f hf => (hrooted.files f hf).anchored, h.spelled, ?_, fun c f => answer_unchanged⟩
  intro d hd hne
  have hplace := hrooted.directories d.steps (isDirectory_iff.mp hd)
  exact (hplace.resolve_left (ne_of_beq_false hne)).anchored

/-- A memory of which a part was cleared, with a path that cannot be changed. -/
def tidied : Memory :=
  ((((((Memory.new ⟨"out"⟩ .accepted).withFile ⟨"out/Shop/Billing/invoice.rb"⟩ "old").withFile
    ⟨"out/a/../keep.rb"⟩ "old").failOn ⟨"out/Tax"⟩).answer (.deleteDirectory ⟨"out/Shop/"⟩)).2.answer
    (.createDirectory ⟨"out/Shipping"⟩)).2

theorem tidied_anchored :
    (tidied.isDirectory ⟨"out/Shop"⟩ = false ∧ tidied.isDirectory ⟨"out/Shop/Billing"⟩ = false) ∧
    tidied.Anchored ⟨"out/a/../keep.rb"⟩ ∧ tidied.Anchored ⟨"out/Shipping"⟩ ∧
    (tidied.answer (.writeText ⟨"out/Shop/cart.rb"⟩ "new" true)).2 = tidied ∧
    (tidied.answer (.createDirectory ⟨"out/Tax"⟩)).2 = tidied := by
  have hr : Reachable ⟨"out"⟩ tidied :=
    .answered _ (.answered _ (.failOn _ (.withFile _ _ (.withFile _ _ (.new _)))))
  obtain ⟨hfiles, -, hdirectories, hfailed⟩ := reachable_anchored hr
  refine ⟨by decide +kernel, ?_, ?_, ?_, ?_⟩
  · have hkept : tidied.files.any (·.1.text == "out/a/../keep.rb") = true := by decide +kernel
    obtain ⟨⟨⟨text⟩, content⟩, hmem, htext⟩ := List.any_eq_true.mp hkept
    obtain rfl : text = "out/a/../keep.rb" := beq_iff_eq.mp htext
    exact hfiles _ hmem
  · exact hdirectories _ (by decide +kernel) (by decide +kernel)
  · exact hfailed _ (.absent "out/Shop") (by decide +kernel)
  · exact hfailed _ (.notWritable "out/Tax") (by decide +kernel)

end Memory
end ClassScribe.Host
