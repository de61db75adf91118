import StableOrdinals.Proofs.Files.Paths
import StableOrdinals.Proofs.Files.Places

/-!
# Making a directory in another one

Below a directory that stands, a missing one is made by itself
(`IsDirectory.makeDirectories_append`), and two missing ones are made one inside the other
(`IsDirectory.makeDirectories_append_append`). Nothing else is changed. Until then nothing stands at
a path that leads on from there: `status_append_of_status`.
-/

namespace StableOrdinals

open StableOrdinals.Path

variable {directory : Path} {leaf leaf' : Text}

namespace Path

theorem exists_append_eq (hdir : directory ≠ []) (h : IsLeaf leaf) : ∃ before,
    directory.append leaf = before ++ ('/' : Byte) :: leaf ∧
      (directory = before ∨ directory = before ++ [('/' : Byte)]) := by
  by_cases hlast : directory.getLast? = some ('/' : Byte)
  · obtain ⟨before, rfl⟩ := List.getLast?_eq_some_iff.1 hlast
    refine ⟨before, ?_, Or.inr rfl⟩
    rw [Path.append, if_neg (by simp [h.not_isAbsolute]), if_pos hlast, List.append_assoc]
    rfl
  · refine ⟨directory, ?_, Or.inl rfl⟩
    rw [Path.append, if_neg (by simp [h.not_isAbsolute, hdir]), if_neg hlast, List.append_assoc]
    rfl

theorem IsPlain.append (hdir : IsPlain directory) (h : IsLeaf leaf) :
    IsPlain (directory.append leaf) := by
  constructor
  · obtain ⟨before, heq, _⟩ := exists_append_eq hdir.ne_nil h
    simp [heq]
  · obtain ⟨between, hbetween, heq⟩ := append_eq hdir.ne_nil
    rw [heq leaf h]
    intro c hc
    rw [List.mem_append, List.mem_append] at hc
    rcases hc with (hc | hc) | hc
    · exact hdir.no_nul c hc
    · exact hbetween c hc
    · exact h.no_nul c hc

theorem fileName_append (hdir : directory ≠ []) (h : IsLeaf leaf) :
    (directory.append leaf).fileName = leaf := by
  obtain ⟨before, heq, _⟩ := exists_append_eq hdir h
  rw [heq, fileName_append_slash h.no_slash]

theorem components_parent_append (hdir : directory ≠ []) (h : IsLeaf leaf) :
    ∃ blanks : List Text, (∀ blank ∈ blanks, blank = []) ∧
      components directory = components (directory.append leaf).parent ++ blanks := by
  obtain ⟨before, heq, hbefore⟩ := exists_append_eq hdir h
  rw [heq]
  exact components_parent_append_slash h.ne_nil h.no_slash hdir hbefore

theorem parent_append_append (hdir : directory ≠ []) (h : IsLeaf leaf) (h' : IsLeaf leaf') :
    ((directory.append leaf).append leaf').parent = directory.append leaf := by
  obtain ⟨before, heq, _⟩ := exists_append_eq hdir h
  obtain ⟨c, rest, hreverse⟩ := List.exists_cons_of_ne_nil (List.reverse_ne_nil_iff.2 h.ne_nil)
  have hslash : isSlash c = false := h.no_slash c (by
    rw [← List.mem_reverse, hreverse]
    exact List.mem_cons_self)
  have hlast : (directory.append leaf).reverse = c :: (rest ++ ('/' : Byte) :: before.reverse) := by
    rw [heq, List.reverse_append, List.reverse_cons, hreverse, List.append_assoc]
    rfl
  have hdrop : (directory.append leaf).dropSlashesRight = directory.append leaf := by
    rw [dropSlashesRight, hlast, List.dropWhile_cons_of_neg (by simp [hslash]), ← hlast,
      List.reverse_reverse]
  have hnotSlashes : ¬ (directory.append leaf).all isSlash = true := by
    rw [← List.all_reverse, hlast, List.all_cons, hslash]
    simp
  have hne : directory.append leaf ≠ [] := by simp [heq]
  obtain ⟨outer, houter, hcases⟩ := exists_append_eq hne h'
  rcases hcases with rfl | hslashEnd
  · rw [houter, parent_append_slash h'.ne_nil h'.no_slash, if_neg hnotSlashes, hdrop]
  · rw [hslashEnd, List.reverse_append] at hlast
    have hc : c = '/' := (List.cons.inj hlast).1.symm
    rw [hc] at hslash
    cases hslash

end Path

namespace Files

variable {files files' : Files} {place q holder : Location}

theorem foldl_follow_blanks {blanks : List Text} (h : ∀ blank ∈ blanks, blank = [])
    (place : Location) : blanks.foldl Location.follow place = place := by
  induction blanks with
  | nil => rfl
  | cons blank blanks ih =>
    rw [List.forall_mem_cons] at h
    rw [h.1, List.foldl_cons]
    exact ih h.2

theorem foldlM_step_of_append_blanks {components blanks : List Text}
    (hblanks : ∀ blank ∈ blanks, blank = [])
    (h : (components ++ blanks).foldlM files.step place = .ok q) :
    components.foldlM files.step place = .ok q := by
  rw [List.foldlM_append] at h
  cases hcomponents : components.foldlM files.step place with
  | error cause =>
    rw [hcomponents] at h
    cases h
  | ok reached =>
    rw [hcomponents] at h
    have hstay : q = blanks.foldl Location.follow reached := eq_foldl_of_foldlM_step h
    rw [hstay, foldl_follow_blanks hblanks]

theorem follow_append {components : List Text} (h : components.foldlM files.step place = .ok q)
    (hq : files.at? q ≠ none) (rest : List Text) :
    files.follow place (components ++ rest) = files.follow q rest := by
  induction components generalizing place with
  | nil =>
    obtain rfl := Except.ok.inj h
    rfl
  | cons component components ih =>
    rw [List.foldlM_cons] at h
    cases hstep : files.step place component with
    | error cause =>
      rw [hstep] at h
      cases h
    | ok next =>
      rw [hstep] at h
      have hnext : files.at? next ≠ none := by
        cases components with
        | nil =>
          obtain rfl := Except.ok.inj h
          exact hq
        | cons second components =>
          change (second :: components).foldlM files.step next = _ at h
          rw [List.foldlM_cons] at h
          cases hsecond : files.step next second with
          | error cause =>
            rw [hsecond] at h
            cases h
          | ok _ => simp [directory_of_step hsecond]
      rw [List.cons_append, follow, hstep]
      dsimp only
      rw [if_neg hnext]
      exact ih h

theorem IsDirectory.foldlM_components (h : files.IsDirectory directory holder) :
    (components directory).foldlM files.step (files.origin directory) = .ok holder := by
  have hfold := foldlM_step_of_locate h.locate
  rwa [Text.beforeNul_of_forall h.plain.no_nul] at hfold

theorem origin_append (files : Files) (hdir : directory ≠ []) (h : IsLeaf leaf) :
    files.origin (directory.append leaf) = files.origin directory := by
  rw [origin, origin, isAbsolute_append hdir h]

theorem IsDirectory.exists_components (h : files.IsDirectory directory holder)
    (hleaf : IsLeaf leaf) : ∃ before, components (directory.append leaf) = before ++ [leaf] ∧
      before.foldlM files.step (files.origin directory) = .ok holder := by
  have hfold := h.foldlM_components
  rcases components_append h.plain.ne_nil hleaf with hc | ⟨before, hd, hc⟩
  · exact ⟨_, hc, hfold⟩
  · rw [hd] at hfold
    exact ⟨before, hc, foldlM_step_of_append_blanks (by simp) hfold⟩

theorem IsDirectory.append (h : files.IsDirectory directory holder) (hleaf : IsLeaf leaf)
    (hshort : IsShort directory leaf) (hat : files.at? (leaf :: holder) = some .directory) :
    files.IsDirectory (directory.append leaf) (leaf :: holder) where
  plain := h.plain.append hleaf
  locate := by rw [h.locate_append hleaf, if_pos hshort]
  at? := hat

theorem target_append (files : Files) (hplain : IsPlain directory) (hleaf : IsLeaf leaf) :
    files.target (directory.append leaf) = leaf :: files.target directory := by
  have hfollow (place : Location) : place.follow leaf = leaf :: place := by
    rw [Location.follow, if_neg (not_or.2 ⟨hleaf.ne_nil, hleaf.ne_dots.1⟩),
      if_neg hleaf.ne_dots.2]
  rw [target, target, Text.beforeNul_of_forall (hplain.append hleaf).no_nul,
    Text.beforeNul_of_forall hplain.no_nul, origin_append files hplain.ne_nil hleaf]
  rcases components_append hplain.ne_nil hleaf with hc | ⟨before, hd, hc⟩
  · rw [hc, List.foldl_append, List.foldl_cons, List.foldl_nil, hfollow]
  · rw [hc, hd, List.foldl_append, List.foldl_append, List.foldl_cons, List.foldl_nil, hfollow]
    rfl

theorem IsDirectory.follow_parent (h : files.IsDirectory directory holder) (hleaf : IsLeaf leaf) :
    files.follow (files.origin directory) (components (directory.append leaf).parent) =
      (holder, []) := by
  obtain ⟨blanks, hblanks, heq⟩ := components_parent_append h.plain.ne_nil hleaf
  have hfold := h.foldlM_components
  rw [heq] at hfold
  have hfollow := follow_append (foldlM_step_of_append_blanks hblanks hfold) (by simp [h.at?]) []
  rwa [List.append_nil] at hfollow

theorem IsDirectory.step_leaf (h : files.IsDirectory directory holder) (hleaf : IsLeaf leaf)
    (hname : leaf.length ≤ longestName) : files.step holder leaf = .ok (leaf :: holder) := by
  rw [step_of_directory h.at?, if_neg (not_or.2 ⟨hleaf.ne_nil, hleaf.ne_dots.1⟩),
    if_neg hleaf.ne_dots.2, if_neg (by omega)]

theorem IsDirectory.follow_parent_missing (h : files.IsDirectory directory holder)
    (hleaf : IsLeaf leaf) (hleaf' : IsLeaf leaf') (hname : leaf.length ≤ longestName)
    (hnone : files.at? (leaf :: holder) = none) :
    files.follow (files.origin directory)
      (components ((directory.append leaf).append leaf').parent) = (holder, [leaf]) := by
  obtain ⟨before, heq, hfold⟩ := h.exists_components hleaf
  rw [parent_append_append h.plain.ne_nil hleaf hleaf', heq,
    follow_append hfold (by simp [h.at?]), follow, h.step_leaf hleaf hname]
  simp [hnone]

theorem makeMissing_append {left : List Text} (hdir : directory ≠ []) (hleaf : IsLeaf leaf)
    (hfollow : files.follow (files.origin directory)
      (components (directory.append leaf).parent) = (place, left))
    (hplace : files.at? place = some .directory) (hleft : ∀ piece ∈ left, IsLeaf piece)
    (hcount : left.length < mostDirectories) :
    files.makeMissing (directory.append leaf) = files.make place (left ++ [leaf]) := by
  have hname := fileName_append hdir hleaf
  have hpieces : ∀ piece ∈ left ++ [leaf], IsLeaf piece := by
    intro piece hpiece
    rcases List.mem_append.1 hpiece with hpiece | hpiece
    · exact hleft piece hpiece
    · rw [List.mem_singleton.1 hpiece]
      exact hleaf
  have hlength : ¬ mostDirectories < ((left ++ [leaf]).filter isName).length := by
    have hfilter := List.length_filter_le isName (left ++ [leaf])
    rw [List.length_append, List.length_singleton] at hfilter
    omega
  have hcomponents := components_beforeNul_join (by simp)
    (fun piece hpiece => (hpieces piece hpiece).no_slash) fun piece hpiece =>
      (hpieces piece hpiece).no_nul
  unfold makeMissing
  rw [hname, if_neg hleaf.ne_nil]
  dsimp only
  rw [origin_append files hdir hleaf, hfollow]
  dsimp only
  rw [hname, if_neg hlength, if_neg (by simp [hplace]), if_neg (not_not.2 hplace), hcomponents]

theorem make_leaf (hleaf : IsLeaf leaf) (hname : leaf.length ≤ longestName)
    (hplace : files.at? place = some .directory) (hnone : files.at? (leaf :: place) = none)
    (rest : List Text) :
    ∃ made, files.make place (leaf :: rest) = made.make (leaf :: place) rest ∧
      AddsDirectories files made ∧
      ∀ q, made.at? q = if q = leaf :: place then some .directory else files.at? q := by
  obtain ⟨made, hput⟩ : ∃ made, files.put? leaf place .directory = some made :=
    ⟨_, dif_pos ⟨hplace, by simp [hnone]⟩⟩
  refine ⟨made, ?_, addsDirectories_put? hput hnone, at?_put? hput⟩
  rw [make, if_neg (not_or.2 ⟨hleaf.ne_nil, hleaf.ne_dots.1⟩), if_neg hleaf.ne_dots.2,
    if_neg (by omega), if_neg (by simp [hnone]), if_neg (by simp [hnone]), hput]

theorem entryAt_of_status {path : Path} {entry : Entry} (h : files.status path = .ok (some entry)) :
    files.entryAt path = .ok entry := by
  rw [status] at h
  cases hentry : files.entryAt path with
  | ok found =>
    rw [hentry] at h
    rw [Option.some.inj (Except.ok.inj h)]
  | error cause =>
    rw [hentry] at h
    cases habsence : cause.isAbsence <;> simp [habsence] at h

theorem IsDirectory.status_append (h : files.IsDirectory directory holder) (hleaf : IsLeaf leaf)
    (hshort : IsShort directory leaf) :
    files.status (directory.append leaf) = Entry.status (files.at? (leaf :: holder)) := by
  rw [status, h.entryAt_append hleaf, if_pos hshort]
  cases files.at? (leaf :: holder) with
  | none => rfl
  | some entry => cases entry <;> rfl

theorem status_append_of_status (hplain : IsPlain directory) (hleaf : IsLeaf leaf)
    (hlength : (directory.append leaf).length ≤ longestPath)
    (h : files.status directory = .ok none) : files.status (directory.append leaf) = .ok none := by
  rw [status, entryAt] at h
  obtain ⟨cause, hcause, habsence⟩ : ∃ cause,
      files.locate (directory.append leaf) = .error cause ∧ cause.isAbsence = true := by
    rw [locate_append files hplain hleaf, if_neg (by omega)]
    cases hlocate : files.locate directory with
    | error cause => exact ⟨cause, rfl, by simpa [hlocate] using h⟩
    | ok place =>
      cases hat : files.at? place with
      | some entry => cases entry <;> simp [hlocate, hat, Entry.found, SystemError.isAbsence] at h
      | none =>
        refine ⟨.missing, ?_, rfl⟩
        change files.step place leaf = _
        rw [step, hat]
  rw [status, entryAt, hcause]
  exact if_pos habsence

theorem makeDirectories_of_status {path : Path} (hplain : IsPlain path)
    (h : files.status path = .ok none) : files.makeDirectories path = files.makeMissing path := by
  rw [makeDirectories, if_neg hplain.ne_nil, Text.beforeNul_of_forall hplain.no_nul,
    if_neg hplain.ne_nil, h]

theorem status_of_long {path : Path} (hplain : IsPlain path) (h : longestPath < path.length) :
    files.status path = .error .nameTooLong := by
  rw [status, entryAt, locate, Text.beforeNul_of_forall hplain.no_nul]
  simp only [if_neg hplain.ne_nil, if_pos h]
  rfl

theorem makeDirectories_of_long {path : Path} (hplain : IsPlain path)
    (h : longestPath < path.length) :
    files.makeDirectories path = (.error .nameTooLong, files) := by
  rw [makeDirectories, if_neg hplain.ne_nil, Text.beforeNul_of_forall hplain.no_nul,
    if_neg hplain.ne_nil, status_of_long hplain h]

theorem IsDirectory.makeDirectories_append (h : files.IsDirectory directory holder)
    (hleaf : IsLeaf leaf) (hshort : IsShort directory leaf)
    (hnone : files.at? (leaf :: holder) = none) :
    ∃ made, files.makeDirectories (directory.append leaf) = (.ok (), made) ∧
      AddsDirectories files made ∧
      ∀ q, made.at? q = if q = leaf :: holder then some .directory else files.at? q := by
  obtain ⟨made, hmake, hadds, hat⟩ := make_leaf hleaf hshort.2 h.at? hnone []
  refine ⟨made, ?_, hadds, hat⟩
  rw [makeDirectories_of_status (h.plain.append hleaf), makeMissing_append h.plain.ne_nil hleaf
    (h.follow_parent hleaf) h.at? nofun (by decide), List.nil_append, hmake]
  · rfl
  · rw [h.status_append hleaf hshort, hnone]
    rfl

theorem IsDirectory.makeDirectories_append_append (h : files.IsDirectory directory holder)
    (hleaf : IsLeaf leaf) (hleaf' : IsLeaf leaf') (hshort : IsShort directory leaf)
    (hshort' : IsShort (directory.append leaf) leaf') (hnone : files.at? (leaf :: holder) = none) :
    ∃ made, files.makeDirectories ((directory.append leaf).append leaf') = (.ok (), made) ∧
      AddsDirectories files made ∧
      ∀ q, made.at? q = if q = leaf' :: leaf :: holder then some .directory
        else if q = leaf :: holder then some .directory else files.at? q := by
  have hplain := h.plain.append hleaf
  have hstatus : files.status ((directory.append leaf).append leaf') = .ok none := by
    apply status_append_of_status hplain hleaf' hshort'.1
    rw [h.status_append hleaf hshort, hnone]
    rfl
  have hfollow := h.follow_parent_missing hleaf hleaf' hshort.2 hnone
  rw [← origin_append files h.plain.ne_nil hleaf] at hfollow
  obtain ⟨first, hfirst, hadds, hat⟩ := make_leaf hleaf hshort.2 h.at? hnone [leaf']
  have hinner : first.at? (leaf' :: leaf :: holder) = none := by
    rw [hat, if_neg (by simp)]
    by_contra hne
    rw [at?_holder hne] at hnone
    cases hnone
  have houter : first.at? (leaf :: holder) = some .directory := by rw [hat, if_pos rfl]
  obtain ⟨made, hmake, hadds', hat'⟩ := make_leaf hleaf' hshort'.2 houter hinner []
  refine ⟨made, ?_, hadds.trans hadds', ?_⟩
  · rw [makeDirectories_of_status (hplain.append hleaf') hstatus,
      makeMissing_append hplain.ne_nil hleaf' hfollow h.at? (List.forall_mem_singleton.2 hleaf)
        (by rw [List.length_singleton]; decide), List.singleton_append, hfirst, hmake]
    rfl
  · intro q
    rw [hat', hat]

end Files

end StableOrdinals
