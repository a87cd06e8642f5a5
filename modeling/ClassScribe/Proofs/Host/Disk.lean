import Mathlib.Data.List.Induction
import ClassScribe.Host.Disk
import ClassScribe.Proofs.Path.Plain

/-! # Places of a file system in memory

What the changes of a disk do to its entries, and how a path with plain names at its end is looked
up. A lookup only ever asks for directories, so it ends the same on every disk that has the
directories it found.
-/
namespace ClassScribe.Host.Disk

variable {d d' : Disk} {p : Path} {place q x dir names : List String} {s : String} {e : Entry}

theorem at?_of_ne (d : Disk) (hx : x ≠ []) : d.at? x = d.entries.lookup x := by
  rw [at?, if_neg (by simpa using hx)]

theorem lookup_filter (f : List String → Bool) (x : List String)
    (entries : List (List String × Entry)) :
    (entries.filter (f ·.1)).lookup x = if f x then entries.lookup x else none := by
  induction entries with
  | nil => simp
  | cons e entries ih =>
    obtain ⟨y, e⟩ := e
    by_cases hxy : x = y
    · subst hxy
      by_cases hf : f x = true
      · simp [hf]
      · simp [hf, ih]
    · have hne : (x == y) = false := by simpa using hxy
      by_cases hf : f y = true
      · simp [hf, List.lookup_cons, hne, ih]
      · simp [hf, List.lookup_cons, hne, ih]

theorem at?_put (d : Disk) (hq : q ≠ []) (e : Entry) (x : List String) :
    (d.put q e).at? x = if x = q then some e else d.at? x := by
  by_cases hx : x = []
  · subst hx
    rw [if_neg (Ne.symm hq)]
    rfl
  · rw [at?_of_ne _ hx, at?_of_ne _ hx, put, List.lookup_append, lookup_filter (· != q)]
    by_cases hxq : x = q
    · simp [hxq]
    · have hne : (x == q) = false := by simpa using hxq
      simp [hxq, List.lookup_cons, hne]

theorem at?_remove (d : Disk) (hq : q ≠ []) (x : List String) :
    (d.remove q).at? x = if x = q then none else d.at? x := by
  by_cases hx : x = []
  · subst hx
    rw [if_neg (Ne.symm hq)]
    rfl
  · rw [at?_of_ne _ hx, at?_of_ne _ hx, remove, lookup_filter (· != q)]
    by_cases hxq : x = q <;> simp [hxq]

theorem isBelow_iff : isBelow x q = true ↔ q <+: x ∧ x ≠ q := by
  rw [isBelow, Bool.and_eq_true, List.isPrefixOf_iff_prefix, decide_eq_true_iff]
  refine and_congr_right fun hp => ⟨?_, ?_⟩
  · rintro hlt rfl
    exact Nat.lt_irrefl _ hlt
  · intro hne
    exact Nat.lt_of_le_of_ne hp.length_le fun hlen => hne (hp.eq_of_length hlen).symm

theorem at?_empty (d : Disk) (q x : List String) :
    (d.empty q).at? x = if isBelow x q then none else d.at? x := by
  by_cases hx : x = []
  · subst hx
    have hout : ¬ isBelow [] q = true := by
      rw [isBelow_iff]
      rintro ⟨hp, hne⟩
      exact hne (List.prefix_nil.mp hp).symm
    rw [if_neg hout]
    rfl
  · rw [at?_of_ne _ hx, at?_of_ne _ hx, empty, lookup_filter (!isBelow · q)]
    by_cases hb : isBelow x q = true <;> simp [hb]

theorem walk_append (d : Disk) (place xs ys : List String) :
    d.walk place (xs ++ ys) = (d.walk place xs).bind fun q => d.walk q ys := by
  induction xs generalizing place with
  | nil => rfl
  | cons s xs ih =>
    rw [List.cons_append, walk, walk]
    split
    · exact ih place
    · split
      · exact ih place.dropLast
      · split
        · rfl
        · cases d.at? (place ++ [s]) with
          | none => rfl
          | some e =>
            cases e with
            | file content => rfl
            | directory => exact ih (place ++ [s])

/-- A walk goes through directories alone, and it can be made wherever they are. -/
theorem walk_mono (h : ∀ x, d.at? x = some .directory → d'.at? x = some .directory)
    (hw : d.walk place names = .ok q) : d'.walk place names = .ok q := by
  induction names generalizing place with
  | nil => exact hw
  | cons s names ih =>
    rw [walk] at hw
    split at hw
    · rename_i hhere
      rw [walk, if_pos hhere]
      exact ih hw
    · rename_i hhere
      split at hw
      · rename_i hup
        rw [walk, if_neg hhere, if_pos hup]
        exact ih hw
      · rename_i hup
        split at hw
        · cases hw
        · rename_i hlen
          split at hw
          · cases hw
          · cases hw
          · rename_i hdir
            rw [walk, if_neg hhere, if_neg hup, if_neg hlen, h _ hdir]
            exact ih hw

theorem walk_name (hs : Path.Plain s) (hlen : s.utf8ByteSize ≤ maxName)
    (hdir : d.at? (place ++ [s]) = some .directory) : d.walk place [s] = .ok (place ++ [s]) := by
  rw [walk, if_neg hs.ne_here, if_neg hs.ne_up, if_neg (Nat.not_lt.mpr hlen), hdir]
  rfl

/-- Plain names are walked down one by one, while there are directories. -/
theorem walk_down (hn : ∀ s ∈ names, Path.Plain s ∧ s.utf8ByteSize ≤ maxName)
    (hdirs : ∀ xs, xs ≠ [] → xs <+: names → d.at? (place ++ xs) = some .directory) :
    d.walk place names = .ok (place ++ names) := by
  induction names using List.reverseRecOn with
  | nil =>
    rw [List.append_nil]
    rfl
  | append_singleton names s ih =>
    have hfront := ih (fun x hx => hn x (List.mem_append_left _ hx))
      fun xs hne hp => hdirs xs hne (hp.trans (List.prefix_append _ _))
    obtain ⟨hs, hlen⟩ := hn s (by simp)
    have hdir := hdirs (names ++ [s]) (by simp) List.prefix_rfl
    rw [← List.append_assoc] at hdir ⊢
    rw [walk_append, hfront]
    exact walk_name hs hlen hdir

/-- A path that is not too long, nor any of its names. -/
structure Fits (p : Path) : Prop where
  path : p.text.utf8ByteSize ≤ maxPath
  names : ∀ s ∈ p.names, s.utf8ByteSize ≤ maxName

theorem fits_iff : Fits p ↔ p.text.utf8ByteSize ≤ maxPath ∧
    ∀ s ∈ p.names, s.utf8ByteSize ≤ maxName :=
  ⟨fun h => ⟨h.path, h.names⟩, fun h => ⟨h.1, h.2⟩⟩

instance (p : Path) : Decidable (Fits p) := decidable_of_iff' _ fits_iff

/-- What a path needs to be looked up at all. -/
structure Usable (p : Path) : Prop where
  nul : Char.ofNat 0 ∉ p.text.toList
  ne_empty : p.text ≠ ""
  short : p.text.utf8ByteSize ≤ maxPath

theorem usable_of_target {t : Target} (h : d.target p = .ok t) : Usable p := by
  rw [target] at h
  split at h
  · cases h
  · rename_i hnul
    split at h
    · cases h
    · rename_i hempty
      split at h
      · cases h
      · rename_i hlen
        exact ⟨by simpa using hnul, by simpa using hempty, Nat.not_lt.mp hlen⟩

theorem usable_of_find {r : List String × Entry} (h : d.find p = .ok r) : Usable p := by
  rw [find] at h
  cases ht : d.target p with
  | error f =>
    rw [ht] at h
    cases h
  | ok t => exact usable_of_target ht

/-- How a path ends with its last name. -/
def endingOf (last : String) (slash : Bool) : Ending :=
  if last = "." then .here else if last = ".." then .up else .name last slash

theorem target_eq (hp : Usable p) (hnames : p.names = names ++ [s]) :
    d.target p = (d.walk [] names).map fun dir =>
      ⟨dir, endingOf s (p.text.toList.getLast? == some '/')⟩ := by
  have hnul : ¬ p.text.toList.contains (Char.ofNat 0) = true := by simpa using hp.nul
  have hempty : ¬ p.text.isEmpty = true := by simpa using hp.ne_empty
  have hnames : p.segments.filter (!·.isEmpty) = names ++ [s] := hnames
  rw [target, if_neg hnul, if_neg hempty, if_neg (Nat.not_lt.mpr hp.short)]
  simp only [hnames, List.getLast?_concat, List.dropLast_concat, endingOf]
  cases d.walk [] names with
  | error f => rfl
  | ok dir =>
    show (if s = "." then _ else if s = ".." then _ else _) = _
    rw [Except.map]
    split
    · rfl
    · split <;> rfl

theorem target_root (hp : Usable p) (hnames : p.names = []) : d.target p = .ok ⟨[], .root⟩ := by
  have hnul : ¬ p.text.toList.contains (Char.ofNat 0) = true := by simpa using hp.nul
  have hempty : ¬ p.text.isEmpty = true := by simpa using hp.ne_empty
  have hnames : p.segments.filter (!·.isEmpty) = [] := hnames
  rw [target, if_neg hnul, if_neg hempty, if_neg (Nat.not_lt.mpr hp.short), hnames]
  rfl

/-- To find a directory is to walk there. -/
theorem walk_of_find (h : d.find p = .ok (q, .directory)) : d.walk [] p.names = .ok q := by
  have hp := usable_of_find h
  rcases List.eq_nil_or_concat p.names with hnames | ⟨names, last, hnames⟩
  · rw [find, target_root hp hnames] at h
    rw [hnames]
    obtain ⟨rfl, -⟩ := Prod.mk.inj (Except.ok.inj h)
    rfl
  · rw [List.concat_eq_append] at hnames
    rw [find, target_eq hp hnames] at h
    rw [hnames, walk_append]
    cases hw : d.walk [] names with
    | error f =>
      rw [hw] at h
      cases h
    | ok dir =>
      rw [hw, Except.map, endingOf] at h
      show d.walk dir [last] = .ok q
      rw [walk]
      by_cases hhere : last = "."
      · rw [if_pos hhere] at h ⊢
        obtain ⟨rfl, -⟩ := Prod.mk.inj (Except.ok.inj h)
        rfl
      · by_cases hup : last = ".."
        · rw [if_neg hhere, if_pos hup] at h ⊢
          obtain ⟨rfl, -⟩ := Prod.mk.inj (Except.ok.inj h)
          rfl
        · rw [if_neg hhere, if_neg hup] at h ⊢
          simp only [bind, Except.bind] at h
          by_cases hlen : maxName < last.utf8ByteSize
          · rw [if_pos hlen] at h
            cases h
          · rw [if_neg hlen] at h ⊢
            cases hat : d.at? (dir ++ [last]) with
            | none =>
              rw [hat] at h
              cases h
            | some e =>
              rw [hat] at h
              cases e with
              | directory =>
                obtain ⟨rfl, -⟩ := Prod.mk.inj (Except.ok.inj h)
                rfl
              | file content =>
                cases hslash : p.text.toList.getLast? == some '/' with
                | true =>
                  rw [hslash] at h
                  cases h
                | false =>
                  rw [hslash] at h
                  cases h

/-- A path leads to a place, where something is or could be. -/
def Leads (d : Disk) (p : Path) (q : List String) : Prop :=
  ∃ dir s, d.target p = .ok ⟨dir, .name s false⟩ ∧ s.utf8ByteSize ≤ maxName ∧ q = dir ++ [s]

theorem leads_of_walk (hp : Usable p) (hslash : p.text.toList.getLast? ≠ some '/')
    (hnames : p.names = names ++ [s]) (hs : Path.Plain s) (hshort : s.utf8ByteSize ≤ maxName)
    (hw : d.walk [] names = .ok dir) : d.Leads p (dir ++ [s]) := by
  refine ⟨dir, s, ?_, hshort, rfl⟩
  have hslash : (p.text.toList.getLast? == some '/') = false := by simpa using hslash
  rw [target_eq hp hnames, hw, hslash, endingOf, if_neg hs.ne_here, if_neg hs.ne_up]
  rfl

/-- A path with plain names behind one that was found leads to the place with these names, if what
was found is still there and all names but the last are those of directories. -/
theorem leads_below {above : List String} (hfind : d.find p = .ok (place, .directory))
    (hn : ∀ x ∈ above ++ [s], Path.Plain x) (hnul : ∀ x ∈ above ++ [s], Char.ofNat 0 ∉ x.toList)
    (hfits : Fits ((above ++ [s]).foldl Path.join p))
    (hkept : ∀ x, d.at? x = some .directory → d'.at? x = some .directory)
    (hdirs : ∀ xs, xs ≠ [] → xs <+: above → d'.at? (place ++ xs) = some .directory) :
    d'.Leads ((above ++ [s]).foldl Path.join p) (place ++ (above ++ [s])) := by
  have hp := usable_of_find hfind
  have habove (x : String) (hx : x ∈ above) := hn x (List.mem_append_left _ hx)
  have hs := hn s (by simp)
  have hnames := Path.names_foldl_join hp.ne_empty hn
  have hshort (x : String) (hx : x ∈ above ++ [s]) : x.utf8ByteSize ≤ maxName :=
    hfits.names x (hnames ▸ List.mem_append_right _ hx)
  have hjoin : (above ++ [s]).foldl Path.join p = (above.foldl Path.join p).join s := by
    rw [List.foldl_append]
    rfl
  have hwalk : d'.walk [] (p.names ++ above) = .ok (place ++ above) := by
    rw [walk_append, walk_mono hkept (walk_of_find hfind)]
    exact walk_down (fun x hx => ⟨habove x hx, hshort x (List.mem_append_left _ hx)⟩) hdirs
  have husable : Usable ((above ++ [s]).foldl Path.join p) := by
    refine ⟨fun hc => ?_, Path.foldl_join_ne hp.ne_empty hn, hfits.path⟩
    rcases Path.mem_text_foldl_join hp.ne_empty hn hc with hc | hc | ⟨x, hx, hc⟩
    · exact hp.nul hc
    · exact absurd hc (by decide)
    · exact hnul x hx hc
  rw [← List.append_assoc] at hnames ⊢
  refine leads_of_walk husable ?_ hnames hs (hshort s (by simp)) hwalk
  rw [hjoin]
  exact Path.getLast?_text_join (Path.foldl_join_ne hp.ne_empty habove) hs

section Leads

variable (h : d.Leads p q)
include h

theorem Leads.find_none (hq : d.at? q = none) : d.find p = fail .noEntry := by
  obtain ⟨dir, s, ht, hs, rfl⟩ := h
  rw [find, ht]
  show (if maxName < s.utf8ByteSize then _ else _) = _
  rw [if_neg (Nat.not_lt.mpr hs), hq]

theorem Leads.find_some (hq : d.at? q = some e) : d.find p = .ok (q, e) := by
  obtain ⟨dir, s, ht, hs, rfl⟩ := h
  rw [find, ht]
  show (if maxName < s.utf8ByteSize then _ else _) = _
  rw [if_neg (Nat.not_lt.mpr hs), hq]
  cases e <;> rfl

theorem Leads.isDirectory : d.isDirectory p = (d.at? q == some .directory) := by
  rw [Disk.isDirectory]
  cases hq : d.at? q with
  | none =>
    rw [h.find_none hq]
    rfl
  | some e =>
    rw [h.find_some hq]
    cases e <;> rfl

theorem Leads.createDirectory : d.createDirectory p =
    if (d.at? q).isSome then fail .entryExists else .ok (d.put q .directory) := by
  obtain ⟨dir, s, ht, hs, rfl⟩ := h
  rw [Disk.createDirectory, ht]
  show (if maxName < s.utf8ByteSize then _ else _) = _
  rw [if_neg (Nat.not_lt.mpr hs)]
  cases d.at? (dir ++ [s]) <;> rfl

theorem Leads.writeText (content : String) : d.writeText p content =
    if d.at? q = some .directory then fail .isDirectory
    else .ok (d.put q (.file content)) := by
  obtain ⟨dir, s, ht, hs, rfl⟩ := h
  rw [Disk.writeText, ht]
  show (if maxName < s.utf8ByteSize then _ else _) = _
  rw [if_neg (Nat.not_lt.mpr hs)]
  cases hq : d.at? (dir ++ [s]) with
  | none => rfl
  | some e => cases e <;> rfl

theorem Leads.removeTree (hq : d.at? q = some .directory) (h' : (d.empty q).Leads p q) :
    d.removeTree p = (.ok (), (d.empty q).remove q) := by
  have hself : (d.empty q).at? q = some .directory := by
    rw [at?_empty, if_neg (by rw [isBelow_iff]; exact fun hb => hb.2 rfl), hq]
  have hnothing : ((d.empty q).entries.any fun e => isBelow e.1 q) = false := by
    simp [empty]
  have hremoved : (d.empty q).removeDirectory p = .ok ((d.empty q).remove q) := by
    obtain ⟨dir, s, ht, hs, rfl⟩ := h'
    rw [removeDirectory, ht]
    show (if maxName < s.utf8ByteSize then _ else _) = _
    rw [if_neg (Nat.not_lt.mpr hs), hself]
    show (if _ then _ else _) = _
    rw [hnothing]
    rfl
  rw [Disk.removeTree, h.find_some hq]
  simp only [hremoved]

end Leads
end ClassScribe.Host.Disk
