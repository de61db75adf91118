import StableOrdinals.Proofs.Files.Making
import StableOrdinals.Proofs.Files.Way

/-!
# Directories are made all or not at all

Once the first missing directory on the way has been made, nothing can stand in the way of the
others. So if no component is too long and none leads up, the path leads to a directory afterwards,
or nothing has been made: `makeDirectories_all_or_nothing`.
-/

namespace StableOrdinals.Files

open StableOrdinals.Path

variable {files made : Files} {place : Location} {path : Path} {components : List Text}

section Make

theorem at?_below_of_put? {component : Text} (hput : files.put? component place .directory = some made)
    (hfree : files.at? (component :: place) = none) (name : Text) :
    made.at? (name :: component :: place) = none := by
  rw [at?_put? hput, if_neg (by simp)]
  by_contra hne
  have hholder := at?_holder hne
  rw [hfree] at hholder
  cases hholder

variable (hplace : files.at? place = some .directory) (hdots : (".." : Text) ∉ components)
  (hshort : ∀ component ∈ components, component.length ≤ longestName)

include hplace hdots hshort

theorem make_in_empty (hempty : ∀ name, files.at? (name :: place) = none) :
    ∃ made, files.make place components = (.ok (), made) ∧
      made.at? (components.foldl Location.follow place) = some .directory := by
  induction components generalizing files place with
  | nil => exact ⟨files, rfl, hplace⟩
  | cons component components ih =>
    rw [List.mem_cons, not_or] at hdots
    rw [List.forall_mem_cons] at hshort
    rw [make, List.foldl_cons, Location.follow]
    by_cases hstay : component = [] ∨ component = "."
    · rw [if_pos hstay, if_pos hstay]
      exact ih hplace hdots.2 hshort.2 hempty
    have hup : component ≠ ".." := Ne.symm hdots.1
    obtain ⟨first, hput⟩ : ∃ first, files.put? component place .directory = some first :=
      ⟨_, dif_pos ⟨hplace, by simp [hempty]⟩⟩
    rw [if_neg hstay, if_neg hstay, if_neg hup, if_neg hup, if_neg (Nat.not_lt.2 hshort.1),
      if_neg (by simp [hempty]), if_neg (by simp [hempty]), hput]
    apply ih
    · rw [at?_put? hput, if_pos rfl]
    · exact hdots.2
    · exact hshort.2
    · exact at?_below_of_put? hput (hempty component)

theorem make_all_or_nothing :
    (∃ cause, files.make place components = (.error cause, files)) ∨
      ∃ made, files.make place components = (.ok (), made) ∧
        made.at? (components.foldl Location.follow place) = some .directory := by
  induction components generalizing place with
  | nil => exact Or.inr ⟨files, rfl, hplace⟩
  | cons component components ih =>
    rw [List.mem_cons, not_or] at hdots
    rw [List.forall_mem_cons] at hshort
    rw [make, List.foldl_cons, Location.follow]
    by_cases hstay : component = [] ∨ component = "."
    · rw [if_pos hstay, if_pos hstay]
      exact ih hplace hdots.2 hshort.2
    have hup : component ≠ ".." := Ne.symm hdots.1
    rw [if_neg hstay, if_neg hstay, if_neg hup, if_neg hup, if_neg (Nat.not_lt.2 hshort.1)]
    by_cases hdirectory : files.at? (component :: place) = some .directory
    · rw [if_pos hdirectory]
      exact ih hdirectory hdots.2 hshort.2
    rw [if_neg hdirectory]
    by_cases hfree : files.at? (component :: place) = none
    · obtain ⟨first, hput⟩ : ∃ first, files.put? component place .directory = some first :=
        ⟨_, dif_pos ⟨hplace, hdirectory⟩⟩
      rw [if_neg (not_not.2 hfree), hput]
      have hfirst : first.at? (component :: place) = some .directory := by
        rw [at?_put? hput, if_pos rfl]
      exact Or.inr (make_in_empty hfirst hdots.2 hshort.2 (at?_below_of_put? hput hfree))
    · rw [if_pos hfree]
      exact Or.inl ⟨_, rfl⟩

end Make

theorem foldl_follow_filter (components : List Text) (place : Location) :
    (components.filter (· ≠ [])).foldl Location.follow place =
      components.foldl Location.follow place := by
  induction components generalizing place with
  | nil => rfl
  | cons component components ih =>
    by_cases hblank : component = []
    · subst hblank
      rw [List.filter_cons_of_neg (by simp), ih]
      rfl
    · rw [List.filter_cons_of_pos (by simpa using hblank), List.foldl_cons, List.foldl_cons, ih]

variable (hplain : IsPlain path)

include hplain

theorem target_missing (files : Files) :
    (files.missing path).2.foldl Location.follow (files.missing path).1 = files.target path := by
  obtain ⟨before, hplace, hpieces⟩ := exists_missing files path
  rw [target, Text.beforeNul_of_forall hplain.no_nul, ← foldl_follow_filter (Path.components path)]
  change _ = (pieces path).foldl Location.follow _
  rw [hpieces, List.foldl_append, foldl_follow_filter, foldl_follow_filter, hplace]

omit hplain in
theorem mem_components_of_missing {component : Text} (hne : component ≠ [])
    (h : component ∈ (files.missing path).2) : component ∈ Path.components path := by
  obtain ⟨before, _, hpieces⟩ := exists_missing files path
  have hmem : component ∈ pieces path := by
    rw [hpieces]
    exact List.mem_append_right _ (List.mem_filter.2 ⟨h, by simpa using hne⟩)
  exact (List.mem_filter.1 hmem).1

variable (hdots : (".." : Text) ∉ Path.components path)
  (hshort : ∀ component ∈ Path.components path, component.length ≤ longestName)

include hdots hshort

/-- A path leads to a directory at its target, unless it is too long. -/
theorem isDirectory_of_at?_target (hlength : path.length ≤ longestPath)
    (h : files.at? (files.target path) = some .directory) :
    files.IsDirectory path (files.target path) where
  plain := hplain
  locate := by
    have hfold := h
    rw [target, Text.beforeNul_of_forall hplain.no_nul] at hfold
    rw [locate, target, Text.beforeNul_of_forall hplain.no_nul, if_neg hplain.ne_nil,
      if_neg (Nat.not_lt.2 hlength)]
    rcases foldlM_step_of_directory hdots hfold with hok | ⟨_, component, hmem, hlong⟩
    · exact hok
    · exact absurd (hshort component hmem) (Nat.not_le.2 hlong)
  at? := h

theorem makeMissing_all_or_nothing (hlength : path.length ≤ longestPath) (files : Files) :
    (∃ cause, files.makeMissing path = (.error cause, files)) ∨
      ∃ made, files.makeMissing path = (.ok (), made) ∧
        made.IsDirectory path (files.target path) := by
  rw [makeMissing_eq hplain.no_nul]
  split_ifs with hmost hloop hplace
  · exact Or.inl ⟨_, rfl⟩
  · exact Or.inl ⟨_, rfl⟩
  · exact Or.inl ⟨_, rfl⟩
  · have hdots' : (".." : Text) ∉ (files.missing path).2 := fun hmem =>
      hdots (mem_components_of_missing (by decide) hmem)
    have hshort' : ∀ component ∈ (files.missing path).2, component.length ≤ longestName := by
      intro component hmem
      by_cases hblank : component = []
      · rw [hblank]
        exact Nat.zero_le _
      · exact hshort component (mem_components_of_missing hblank hmem)
    rcases make_all_or_nothing (not_not.1 hplace) hdots' hshort' with herror | ⟨made, hmake, hat⟩
    · exact Or.inl herror
    · refine Or.inr ⟨made, hmake, ?_⟩
      have hhere : made.here = files.here := by
        have hadds := addsDirectories_make files (files.missing path).1 (files.missing path).2
        rw [hmake] at hadds
        exact hadds.here
      rw [target_missing hplain] at hat
      rw [← target_congr hhere] at hat ⊢
      exact isDirectory_of_at?_target hplain hdots hshort hlength hat

theorem makeDirectories_all_or_nothing (files : Files) :
    (∃ answer, files.makeDirectories path = (answer, files)) ∨
      files.status path = .ok none ∧ ∃ made, files.makeDirectories path = (.ok (), made) ∧
        made.IsDirectory path (files.target path) := by
  rw [makeDirectories, if_neg hplain.ne_nil, Text.beforeNul_of_forall hplain.no_nul,
    if_neg hplain.ne_nil]
  cases hstatus : files.status path with
  | error cause => exact Or.inl ⟨_, rfl⟩
  | ok found =>
    cases found with
    | some entry => exact Or.inl ⟨_, rfl⟩
    | none =>
      have hlength : path.length ≤ longestPath := by
        by_contra hlong
        rw [status_of_long hplain (Nat.not_le.1 hlong)] at hstatus
        cases hstatus
      rcases makeMissing_all_or_nothing hplain hdots hshort hlength files with
        ⟨cause, herror⟩ | hmade
      · exact Or.inl ⟨_, herror⟩
      · exact Or.inr ⟨rfl, hmade⟩

end StableOrdinals.Files
