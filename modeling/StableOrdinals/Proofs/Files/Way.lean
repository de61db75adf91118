import StableOrdinals.Proofs.Files.Depth

/-!
# The way to a path

A path leads through the places on its `way`, from where it starts to its target. The directories
that are made for it are made there and nowhere else: `at?_makeDirectories_of_not_mem`.
-/

namespace StableOrdinals.Files

open StableOrdinals.Path

variable {left right files : Files} {place q : Location} {path : Path}

/-- The places that a path leads through, from where it starts to its target. -/
def way (files : Files) (path : Path) : List Location :=
  (components (Text.beforeNul path)).scanl Location.follow (files.origin (Text.beforeNul path))

theorem way_congr (h : right.here = left.here) (path : Path) : right.way path = left.way path := by
  rw [way, way, origin, origin, h]

theorem mem_scanl_head (place : Location) (components : List Text) :
    place ∈ components.scanl Location.follow place := by
  cases components with
  | nil => exact List.mem_singleton_self place
  | cons component components =>
    rw [List.scanl_cons]
    exact List.mem_cons_self

theorem mem_scanl_append (before after : List Text) (place : Location)
    (h : q ∈ before.scanl Location.follow place ∨
      q ∈ after.scanl Location.follow (before.foldl Location.follow place)) :
    q ∈ (before ++ after).scanl Location.follow place := by
  induction before generalizing place with
  | nil =>
    rcases h with h | h
    · obtain rfl := List.mem_singleton.1 h
      exact mem_scanl_head _ after
    · exact h
  | cons component before ih =>
    rw [List.cons_append, List.scanl_cons]
    rw [List.scanl_cons, List.mem_cons, List.foldl_cons, or_assoc] at h
    rcases h with rfl | h
    · exact List.mem_cons_self
    · exact List.mem_cons_of_mem place (ih _ h)

theorem foldl_mem_scanl (before : List Text) (place : Location) :
    before.foldl Location.follow place ∈ before.scanl Location.follow place := by
  have h := mem_scanl_append before [] place (Or.inr (List.mem_singleton_self _))
  rwa [List.append_nil] at h

theorem mem_scanl_filter (components : List Text) (place : Location) :
    q ∈ (components.filter (· ≠ [])).scanl Location.follow place ↔
      q ∈ components.scanl Location.follow place := by
  induction components generalizing place with
  | nil => exact Iff.rfl
  | cons component components ih =>
    by_cases hblank : component = []
    · subst hblank
      have hstay : place.follow [] = place := rfl
      rw [List.filter_cons_of_neg (by simp), ih, List.scanl_cons, hstay, List.mem_cons]
      refine ⟨Or.inr, ?_⟩
      rintro (rfl | h)
      · exact mem_scanl_head q components
      · exact h
    · rw [List.filter_cons_of_pos (by simpa using hblank), List.scanl_cons, List.scanl_cons,
        List.mem_cons, List.mem_cons, ih]

theorem target_mem_way (files : Files) (path : Path) : files.target path ∈ files.way path :=
  foldl_mem_scanl _ _

theorem suffix_of_mem_scanl {components : List Text} (hdots : (".." : Text) ∉ components)
    (h : q ∈ components.scanl Location.follow place) :
    q <:+ components.foldl Location.follow place := by
  induction components generalizing place with
  | nil =>
    rw [List.mem_singleton.1 h]
    exact List.suffix_refl place
  | cons component components ih =>
    rw [List.scanl_cons] at h
    rcases List.mem_cons.1 h with rfl | h
    · exact Location.suffix_foldl_follow hdots q
    · exact ih (fun hmem => hdots (List.mem_cons_of_mem component hmem)) h

theorem child_not_mem_way (hnul : ∀ c ∈ path, c ≠ 0) (hdots : (".." : Text) ∉ components path)
    (files : Files) (leaf : Text) : leaf :: files.target path ∉ files.way path := by
  intro h
  rw [way, target, Text.beforeNul_of_forall hnul] at h
  have hlength := (suffix_of_mem_scanl hdots h).length_le
  rw [List.length_cons] at hlength
  omega

theorem mem_way_of_parent (hnul : ∀ c ∈ path, c ≠ 0)
    (h : q ∈ (components path.goal.parent).scanl Location.follow (files.origin path.goal)) :
    q ∈ files.way path := by
  rw [way, Text.beforeNul_of_forall hnul, ← mem_scanl_filter]
  change q ∈ (pieces path).scanl Location.follow (files.origin path)
  rw [origin_goal, ← mem_scanl_filter] at h
  rw [← pieces_goal, ← pieces_parent_append]
  exact mem_scanl_append _ _ _ (Or.inl h)

theorem mem_way_of_missing (hnul : ∀ c ∈ path, c ≠ 0)
    (h : q ∈ (files.missing path).2.scanl Location.follow (files.missing path).1) :
    q ∈ files.way path := by
  obtain ⟨before, hplace, hpieces⟩ := exists_missing files path
  rw [way, Text.beforeNul_of_forall hnul, ← mem_scanl_filter]
  change q ∈ (pieces path).scanl Location.follow (files.origin path)
  rw [hpieces, ← List.filter_append, mem_scanl_filter]
  exact mem_scanl_append _ _ _ (Or.inr (hplace ▸ h))

theorem at?_make_of_not_mem (files : Files) (components : List Text)
    (h : q ∉ components.scanl Location.follow place) :
    (files.make place components).2.at? q = files.at? q := by
  induction components generalizing files place with
  | nil => rfl
  | cons component components ih =>
    rw [List.scanl_cons, List.mem_cons, not_or, Location.follow] at h
    unfold make
    split_ifs with hstay hup hlong hdirectory htaken
    · rw [if_pos hstay] at h
      exact ih files h.2
    · rw [if_neg hstay, if_pos hup] at h
      exact ih files h.2
    · rfl
    · rw [if_neg hstay, if_neg hup] at h
      exact ih files h.2
    · rfl
    · cases hput : files.put? component place .directory with
      | none => rfl
      | some made =>
        rw [if_neg hstay, if_neg hup] at h
        have hne : q ≠ component :: place := by
          rintro rfl
          exact h.2 (mem_scanl_head _ components)
        dsimp only
        rw [ih made h.2, at?_put? hput, if_neg hne]

theorem at?_makeDirectories_of_not_mem (hnul : ∀ c ∈ path, c ≠ 0) (h : q ∉ files.way path) :
    (files.makeDirectories path).2.at? q = files.at? q := by
  unfold makeDirectories
  split_ifs
  · rfl
  · rfl
  · cases files.status path with
    | error cause => rfl
    | ok found =>
      cases found with
      | some entry => rfl
      | none =>
        dsimp only
        rw [makeMissing_eq hnul]
        split_ifs
        · rfl
        · rfl
        · rfl
        · exact at?_make_of_not_mem files _ fun hmem => h (mem_way_of_missing hnul hmem)

end StableOrdinals.Files
