import StableOrdinals.Proofs.Files.Paths
import StableOrdinals.Proofs.Files.Places

/-!
# Depth

A path whose components do not lead up leads as far down as it has names: `length_target`.
Directories that are made for it stand on the way to its target and not below
(`at?_makeDirectories`), so that where nothing stands at a path, nothing is held at its target,
before or after the directories are made (`at?_of_status_eq_none`).
-/

namespace StableOrdinals

namespace Path

/-- How many components lead down. -/
def depth (components : List Text) : ℕ := components.countP isName

@[simp] theorem depth_nil : depth [] = 0 := rfl

@[simp] theorem depth_append (before after : List Text) :
    depth (before ++ after) = depth before + depth after := List.countP_append

theorem depth_cons (component : Text) (components : List Text) :
    depth (component :: components) = depth components + if isName component then 1 else 0 :=
  List.countP_cons

theorem depth_filter (components : List Text) : depth (components.filter (· ≠ [])) = depth components := by
  rw [depth, depth, List.countP_filter]
  congr 1
  funext component
  cases component <;> simp [isName]

theorem depth_pieces (path : Path) : depth (pieces path) = depth (components path) :=
  depth_filter (components path)

end Path

open StableOrdinals.Path

theorem Location.length_follow {component : Text} (h : component ≠ "..") (place : Location) :
    (place.follow component).length = place.length + if isName component then 1 else 0 := by
  unfold Location.follow
  by_cases hstay : component = [] ∨ component = "."
  · have hname : isName component = false := by
      rcases hstay with rfl | rfl <;> decide
    simp [if_pos hstay, hname]
  · have hname : isName component = true := by
      simp only [isName, Bool.and_eq_true, decide_eq_true_eq]
      exact ⟨not_or.1 hstay, h⟩
    simp [if_neg hstay, if_neg h, hname]

theorem Location.suffix_follow {component : Text} (h : component ≠ "..") (place : Location) :
    place <:+ place.follow component := by
  unfold Location.follow
  split_ifs
  · exact List.suffix_refl place
  · exact List.suffix_cons component place

theorem Location.length_foldl_follow {components : List Text} (h : (".." : Text) ∉ components)
    (place : Location) :
    (components.foldl Location.follow place).length = place.length + depth components := by
  induction components generalizing place with
  | nil => rfl
  | cons component components ih =>
    rw [List.mem_cons, not_or] at h
    rw [List.foldl_cons, ih h.2, Location.length_follow (Ne.symm h.1), depth_cons]
    omega

theorem Location.length_foldl_follow_le (components : List Text) (place : Location) :
    (components.foldl Location.follow place).length ≤ place.length + depth components := by
  induction components generalizing place with
  | nil => exact Nat.le_refl _
  | cons component components ih =>
    have hrest := ih (place.follow component)
    rw [List.foldl_cons, depth_cons]
    by_cases hup : component = ".."
    · subst hup
      have htail : place.follow ".." = place.tail := rfl
      rw [htail, List.length_tail] at hrest
      rw [htail]
      omega
    · rw [Location.length_follow hup] at hrest
      omega

theorem Location.suffix_foldl_follow {components : List Text} (h : (".." : Text) ∉ components)
    (place : Location) : place <:+ components.foldl Location.follow place := by
  induction components generalizing place with
  | nil => exact List.suffix_refl place
  | cons component components ih =>
    rw [List.mem_cons, not_or] at h
    exact (Location.suffix_follow (Ne.symm h.1) place).trans (ih h.2 _)

namespace Files

variable {files : Files} {path : Path} {place q : Location}

/-- A path without components that lead up ends as many places below its start as it has names. -/
theorem length_target (hplain : IsPlain path) (hdots : (".." : Text) ∉ components path) :
    (files.target path).length = (files.origin path).length + depth (components path) := by
  rw [target, Text.beforeNul_of_forall hplain.no_nul, Location.length_foldl_follow hdots]

theorem directory_of_suffix (h : place <:+ q) (hq : files.at? q = some .directory) :
    files.at? place = some .directory := by
  induction q with
  | nil =>
    rw [List.suffix_nil.1 h]
    exact hq
  | cons name q ih =>
    rcases List.suffix_cons_iff.1 h with rfl | h
    · exact hq
    · exact ih h (at?_tail hq)

/-- A path can be followed to a directory, unless one of its components is too long. -/
theorem foldlM_step_of_directory {components : List Text} (hdots : (".." : Text) ∉ components)
    (h : files.at? (components.foldl Location.follow place) = some .directory) :
    components.foldlM files.step place = .ok (components.foldl Location.follow place) ∨
      components.foldlM files.step place = .error .nameTooLong ∧
        ∃ component ∈ components, longestName < component.length := by
  induction components generalizing place with
  | nil => exact Or.inl rfl
  | cons component components ih =>
    have hlater {P : Prop} (h : P ∨ components.foldlM files.step (place.follow component) =
        .error .nameTooLong ∧ ∃ component ∈ components, longestName < component.length) :
        P ∨ components.foldlM files.step (place.follow component) = .error .nameTooLong ∧
          ∃ later ∈ component :: components, longestName < later.length := by
      refine h.imp_right fun ⟨herror, later, hmem, hlong⟩ => ?_
      exact ⟨herror, later, List.mem_cons_of_mem component hmem, hlong⟩
    have hplace := directory_of_suffix (Location.suffix_foldl_follow hdots place) h
    rw [List.mem_cons, not_or] at hdots
    rw [List.foldl_cons] at h ⊢
    rw [List.foldlM_cons, step_of_directory hplace]
    have hnext : place.follow component = if component = [] ∨ component = "." then place
        else component :: place := by
      rw [Location.follow, if_neg (Ne.symm hdots.1)]
    rw [if_neg (Ne.symm hdots.1)]
    split_ifs with hstay hlong
    · rw [hnext, if_pos hstay] at h hlater ⊢
      exact hlater (ih hdots.2 h)
    · exact Or.inr ⟨rfl, component, List.mem_cons_self, hlong⟩
    · rw [hnext, if_neg hstay] at h hlater ⊢
      exact hlater (ih hdots.2 h)

theorem at?_of_status_eq_none (hplain : IsPlain path) (hdots : (".." : Text) ∉ components path)
    (h : files.status path = .ok none) (leaf : Text) : files.at? (leaf :: files.target path) = none := by
  by_contra hne
  have hdirectory := at?_holder hne
  rw [status, entryAt, locate, Text.beforeNul_of_forall hplain.no_nul] at h
  simp only [if_neg hplain.ne_nil] at h
  rw [target, Text.beforeNul_of_forall hplain.no_nul] at hdirectory
  split_ifs at h with hlong
  · cases h
  · rcases foldlM_step_of_directory hdots hdirectory with hok | ⟨herror, _⟩
    · simp [hok, hdirectory, Entry.found] at h
    · simp [herror, SystemError.isAbsence] at h

theorem exists_follow (files : Files) (place : Location) (components : List Text) :
    ∃ before, components = before ++ (files.follow place components).2 ∧
      (files.follow place components).1 = before.foldl Location.follow place := by
  induction components generalizing place with
  | nil => exact ⟨[], rfl, rfl⟩
  | cons component components ih =>
    unfold follow
    cases hstep : files.step place component with
    | error cause => exact ⟨[], rfl, rfl⟩
    | ok next =>
      dsimp only
      split_ifs
      · exact ⟨[], rfl, rfl⟩
      · obtain ⟨before, hbefore, hreached⟩ := ih next
        rw [eq_follow_of_step hstep] at hbefore hreached ⊢
        exact ⟨component :: before, congrArg _ hbefore, hreached⟩

theorem at?_make (files : Files) (components : List Text)
    (h : place.length + depth components < q.length) :
    (files.make place components).2.at? q = files.at? q := by
  induction components generalizing files place with
  | nil => rfl
  | cons component components ih =>
    rw [depth_cons] at h
    unfold make
    split_ifs with hstay hup hlong hdirectory htaken
    · exact ih files (by omega)
    · refine ih files ?_
      rw [List.length_tail]
      omega
    · rfl
    · refine ih files ?_
      have hname : isName component = true := by simp_all [isName]
      rw [if_pos hname] at h
      rw [List.length_cons]
      omega
    · rfl
    · cases hput : files.put? component place .directory with
      | none => rfl
      | some made =>
        have hname : isName component = true := by simp_all [isName]
        rw [if_pos hname] at h
        have hne : q ≠ component :: place := by
          rintro rfl
          rw [List.length_cons] at h
          omega
        dsimp only
        rw [ih made (by rw [List.length_cons]; omega), at?_put? hput, if_neg hne]

theorem make_of_depth_eq_zero {components : List Text} (h : depth components = 0) (files : Files)
    (place : Location) : files.make place components = (.ok (), files) := by
  induction components generalizing place with
  | nil => rfl
  | cons component components ih =>
    rw [depth_cons] at h
    have hrest : depth components = 0 := by omega
    unfold make
    split_ifs with hstay hup hlong hdirectory htaken
    · exact ih hrest place
    · exact ih hrest place.tail
    all_goals
      have hname : isName component = true := by simp_all [isName]
      rw [if_pos hname] at h
      omega

/-- The directory that the components lead to is the last one that is made, and if that fails it has
not been made. -/
theorem at?_make_of_error {components : List Text} {cause : SystemError}
    (hfail : (files.make place components).1 = .error cause)
    (h : place.length + depth components ≤ q.length) :
    (files.make place components).2.at? q = files.at? q := by
  induction components generalizing files place with
  | nil => rfl
  | cons component components ih =>
    rw [depth_cons] at h
    unfold make at hfail ⊢
    split_ifs at hfail ⊢ with hstay hup hlong hdirectory htaken
    · exact ih hfail (by omega)
    · refine ih hfail ?_
      rw [List.length_tail]
      omega
    · rfl
    · refine ih hfail ?_
      have hname : isName component = true := by simp_all [isName]
      rw [if_pos hname] at h
      rw [List.length_cons]
      omega
    · rfl
    · cases hput : files.put? component place .directory with
      | none => rfl
      | some made =>
        have hname : isName component = true := by simp_all [isName]
        rw [if_pos hname] at h
        rw [hput] at hfail
        dsimp only at hfail ⊢
        have hne : q ≠ component :: place := by
          rintro rfl
          rw [List.length_cons] at h
          rw [make_of_depth_eq_zero (by omega)] at hfail
          cases hfail
        rw [ih hfail (by rw [List.length_cons]; omega), at?_put? hput, if_neg hne]

/-- How far a path can be followed to what holds its last component, and the components that are
left, that one included. -/
def missing (files : Files) (path : Path) : Location × List Text :=
  let (place, left) := files.follow (files.origin path.goal) (components path.goal.parent)
  (place, left ++ [path.goal.fileName])

theorem makeMissing_eq (hnul : ∀ c ∈ path, c ≠ 0) (files : Files) : files.makeMissing path =
    if mostDirectories < ((files.missing path).2.filter isName).length then
      (.error .nameTooLong, files)
    else if files.at? (files.missing path).1 = some .loop then (.error .tooManyLinks, files)
    else if files.at? (files.missing path).1 ≠ some .directory then (.error .notDirectory, files)
    else files.make (files.missing path).1 (files.missing path).2 := by
  have hpieces : ∀ piece ∈ (files.missing path).2, ∀ c ∈ piece, isSlash c = false ∧ c ≠ 0 := by
    obtain ⟨before, hleft, _⟩ :=
      exists_follow files (files.origin path.goal) (components path.goal.parent)
    intro piece hpiece c hc
    rcases List.mem_append.1 hpiece with hpiece | hpiece
    · have hmem : piece ∈ components path.goal.parent := by
        rw [hleft]
        exact List.mem_append_right before hpiece
      exact ⟨Text.sep_of_mem_split hmem c hc,
        no_nul_parent (no_nul_goal hnul) c (Text.mem_of_mem_split hmem c hc)⟩
    · obtain rfl := List.mem_singleton.1 hpiece
      exact ⟨fileName_no_slash path.goal c hc, no_nul_goal hnul c (mem_of_mem_fileName hc)⟩
  have hcomponents : components (Text.beforeNul (Text.join "/" (files.missing path).2)) =
      (files.missing path).2 :=
    components_beforeNul_join (by simp [missing])
      (fun piece hpiece c hc => (hpieces piece hpiece c hc).1)
      fun piece hpiece c hc => (hpieces piece hpiece c hc).2
  calc files.makeMissing path
    _ = if mostDirectories < ((files.missing path).2.filter isName).length then
          (.error .nameTooLong, files)
        else if files.at? (files.missing path).1 = some .loop then (.error .tooManyLinks, files)
        else if files.at? (files.missing path).1 ≠ some .directory then (.error .notDirectory, files)
        else files.make (files.missing path).1
          (components (Text.beforeNul (Text.join "/" (files.missing path).2))) := rfl
    _ = _ := by rw [hcomponents]

theorem origin_goal (files : Files) (path : Path) : files.origin path.goal = files.origin path := by
  rw [origin, origin, isAbsolute_goal]

theorem exists_missing (files : Files) (path : Path) :
    ∃ before : List Text, (files.missing path).1 = before.foldl Location.follow (files.origin path) ∧
      pieces path = before.filter (· ≠ []) ++ (files.missing path).2.filter (· ≠ []) := by
  obtain ⟨before, hleft, hplace⟩ :=
    exists_follow files (files.origin path.goal) (components path.goal.parent)
  rw [origin_goal] at hleft hplace
  refine ⟨before, ?_, ?_⟩
  · rw [missing, origin_goal]
    exact hplace
  · rw [← pieces_goal, ← pieces_parent_append, pieces, hleft, missing, origin_goal]
    dsimp only
    rw [List.filter_append, List.filter_append, List.append_assoc]

theorem makeMissing_cases (hnul : ∀ c ∈ path, c ≠ 0) (files : Files) :
    (∃ cause, files.makeMissing path = (.error cause, files)) ∨
      ∃ place left, files.makeMissing path = files.make place left ∧
        place.length + depth left ≤ (files.origin path).length + depth (components path) := by
  rw [makeMissing_eq hnul]
  split_ifs
  · exact Or.inl ⟨_, rfl⟩
  · exact Or.inl ⟨_, rfl⟩
  · exact Or.inl ⟨_, rfl⟩
  · obtain ⟨before, hplace, hpieces⟩ := exists_missing files path
    have hle := Location.length_foldl_follow_le before (files.origin path)
    refine Or.inr ⟨_, _, rfl, ?_⟩
    rw [hplace, ← depth_pieces, hpieces, depth_append, depth_filter, depth_filter]
    omega

/-- Directories that are made for a path stand on the way to its target. -/
theorem at?_makeDirectories (hplain : IsPlain path) (hdots : (".." : Text) ∉ components path)
    (h : (files.target path).length < q.length) :
    (files.makeDirectories path).2.at? q = files.at? q := by
  rw [length_target hplain hdots] at h
  unfold makeDirectories
  split_ifs
  · rfl
  · rfl
  · cases files.status path with
    | error cause => rfl
    | ok found =>
      cases found with
      | none =>
        dsimp only
        rcases makeMissing_cases hplain.no_nul files with ⟨_, hmake⟩ | ⟨place, left, hmake, hle⟩
        · rw [hmake]
        · rw [hmake]
          exact at?_make files left (by omega)
      | some entry => rfl

/-- As long as a directory cannot be made, nothing is made where it would stand or below. -/
theorem at?_makeDirectories_of_error (hplain : IsPlain path)
    (hdots : (".." : Text) ∉ components path) {cause : SystemError}
    (hfail : (files.makeDirectories path).1 = .error cause)
    (h : (files.target path).length ≤ q.length) :
    (files.makeDirectories path).2.at? q = files.at? q := by
  rw [length_target hplain hdots] at h
  unfold makeDirectories at hfail ⊢
  split_ifs at hfail ⊢
  · rfl
  · rfl
  · cases hstatus : files.status path with
    | error cause => rfl
    | ok found =>
      rw [hstatus] at hfail
      cases found with
      | none =>
        dsimp only at hfail ⊢
        rcases makeMissing_cases hplain.no_nul files with ⟨_, hmake⟩ | ⟨place, left, hmake, hle⟩
        · rw [hmake]
        · rw [hmake] at hfail ⊢
          exact at?_make_of_error hfail (by omega)
      | some entry => rfl

end Files

end StableOrdinals
