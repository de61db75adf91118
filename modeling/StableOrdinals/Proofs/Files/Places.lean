import Mathlib.Data.List.Induction
import Mathlib.Tactic.ByContra
import StableOrdinals.Files.Directories
import StableOrdinals.Proofs.Files.Children

/-!
# Places

A path that leads anywhere leads to its target, which depends on how the path is written and on
nothing that stands in the tree: `eq_target_of_locate`. So an entry can be told to be the same one
before and after a time in which the path led nowhere. A path that leads to a file ends with the
name of that file, by which it can be deleted: `remove_of_file`.

Making directories puts directories where nothing stood and changes nothing else:
`AddsDirectories` and `addsDirectories_makeDirectories`.
-/

namespace StableOrdinals

/-- One component further on the way, whatever stands there. -/
def Location.follow (place : Location) (component : Text) : Location :=
  if component = [] ∨ component = "." then place
  else if component = ".." then place.tail
  else component :: place

theorem Location.append_cons_ne {below place : Location} {leaf other : Text} (h : leaf ≠ other) :
    below ++ leaf :: place ≠ other :: place := by
  intro heq
  cases below with
  | nil => exact h (List.cons.inj heq).1
  | cons inner below =>
    have hlength := congrArg List.length heq
    simp only [List.length_append, List.length_cons] at hlength
    omega

namespace Files

open StableOrdinals.Path

variable {files files' files'' : Files} {place q : Location} {path : Path} {component : Text}

/-- Where a path leads, if it leads anywhere. -/
def target (files : Files) (path : Path) : Location :=
  (Path.components (Text.beforeNul path)).foldl Location.follow
    (files.origin (Text.beforeNul path))

theorem target_congr (h : files'.here = files.here) (path : Path) :
    files'.target path = files.target path := by
  rw [target, target, origin, origin, h]

theorem eq_follow_of_step (h : files.step place component = .ok q) :
    q = place.follow component := by
  rw [step_of_directory (directory_of_step h)] at h
  unfold Location.follow
  split_ifs at h ⊢ <;> cases h <;> rfl

theorem eq_foldl_of_foldlM_step {components : List Text}
    (h : components.foldlM files.step place = .ok q) :
    q = components.foldl Location.follow place := by
  induction components generalizing place with
  | nil => exact (Except.ok.inj h).symm
  | cons component components ih =>
    rw [List.foldlM_cons] at h
    cases hs : files.step place component with
    | error cause =>
      rw [hs] at h
      cases h
    | ok next =>
      rw [hs] at h
      rw [List.foldl_cons, ← eq_follow_of_step hs]
      exact ih h

theorem foldlM_step_of_locate (h : files.locate path = .ok q) :
    (Path.components (Text.beforeNul path)).foldlM files.step
      (files.origin (Text.beforeNul path)) = .ok q := by
  unfold locate at h
  by_cases hempty : Text.beforeNul path = []
  · simp [hempty] at h
  · by_cases hlong : longestPath < (Text.beforeNul path).length
    · simp [hempty, hlong] at h
    · simpa only [if_neg hempty, if_neg hlong] using h

theorem eq_target_of_locate (h : files.locate path = .ok q) : q = files.target path :=
  eq_foldl_of_foldlM_step (foldlM_step_of_locate h)

theorem at?_holder {name : Text} (h : files.at? (name :: place) ≠ none) :
    files.at? place = some .directory := by
  apply files.holder_directory name place
  rw [at?, Entries.at?, if_neg (List.cons_ne_nil _ _)] at h
  rw [Std.ExtTreeMap.mem_iff_isSome_getElem?]
  exact Option.isSome_iff_ne_none.2 h

theorem at?_tail (h : files.at? place = some .directory) :
    files.at? place.tail = some .directory := by
  cases place with
  | nil => exact h
  | cons name place =>
    have hne : files.at? (name :: place) ≠ none := by simp [h]
    exact at?_holder hne

theorem exists_components_of_file {name content : Text} (h : files.locate path = .ok (name :: place))
    (hfile : files.at? (name :: place) = some (.file content)) :
    ∃ before, Path.components (Text.beforeNul path) = before ++ [name] ∧
      name ≠ [] ∧ name ≠ "." ∧ name ≠ ".." := by
  have hfold := foldlM_step_of_locate h
  rcases List.eq_nil_or_concat (Path.components (Text.beforeNul path)) with hc | ⟨before, last, hc⟩
  · exact absurd hc (Text.split_ne_nil _ _)
  · rw [List.concat_eq_append] at hc
    rw [hc, List.foldlM_append] at hfold
    cases hbefore : before.foldlM files.step (files.origin (Text.beforeNul path)) with
    | error cause =>
      rw [hbefore] at hfold
      cases hfold
    | ok holder =>
      rw [hbefore] at hfold
      have hstep : files.step holder last = .ok (name :: place) := by
        change [last].foldlM files.step holder = _ at hfold
        simpa only [List.foldlM_cons, List.foldlM_nil, bind_pure] using hfold
      have hdirectory := directory_of_step hstep
      rw [step_of_directory hdirectory] at hstep
      split_ifs at hstep with hstay hup
      -- Neither staying nor going up can end at a file.
      · obtain rfl := Except.ok.inj hstep
        rw [hfile] at hdirectory
        cases hdirectory
      · have htail := at?_tail hdirectory
        rw [Except.ok.inj hstep, hfile] at htail
        cases htail
      · obtain ⟨rfl, rfl⟩ := List.cons.inj (Except.ok.inj hstep)
        exact ⟨before, hc, fun h => hstay (Or.inl h), fun h => hstay (Or.inr h), hup⟩

theorem remove_of_file {name content : Text} (h : files.locate path = .ok (name :: place))
    (hfile : files.at? (name :: place) = some (.file content)) :
    files.remove path = files.deleteAt (name :: place) := by
  obtain ⟨before, hc, hne, hdot, hdots⟩ := exists_components_of_file h hfile
  have hlast : (Path.components (Text.beforeNul path)).reverse.find? (· ≠ []) = some name := by
    rw [hc, List.reverse_append, List.reverse_singleton, List.singleton_append]
    exact List.find?_cons_of_pos (by simpa using hne)
  have hdot' : some name ≠ some (Text.ofString ".") := fun heq => hdot (Option.some.inj heq)
  have hdots' : some name ≠ some (Text.ofString "..") := fun heq => hdots (Option.some.inj heq)
  rw [remove, h, hlast]
  exact (if_neg hdot').trans (if_neg hdots')

theorem delete?_of_remove {directory : Path} {leaf : Text} (hdir : IsPlain directory)
    (hleaf : IsLeaf leaf) (h : files.remove (directory.append leaf) = .ok files') :
    ∃ holder, IsDirectory files directory holder ∧ files.delete? leaf holder = some files' := by
  cases hlocate : files.locate (directory.append leaf) with
  | error cause => simp [remove, hlocate] at h
  | ok place =>
    obtain ⟨holder, hholder, rfl⟩ := isDirectory_of_locate hdir hleaf hlocate
    have hshort : IsShort directory leaf := by
      by_contra hlong
      rw [hholder.locate_append hleaf, if_neg hlong] at hlocate
      cases hlocate
    refine ⟨holder, hholder, ?_⟩
    rw [hholder.remove_append hleaf hshort, deleteAt] at h
    split_ifs at h
    cases hdelete : files.delete? leaf holder with
    | none => simp [hdelete] at h
    | some deleted =>
      rw [hdelete] at h
      rw [Except.ok.inj h]

theorem exists_rename?_of_locate {source goal : Path} {name content : Text}
    (hsource : files.locate source = .ok (name :: place))
    (hgoal : files.locate goal = .ok (name :: place))
    (hfile : files.at? (name :: place) = some (.file content)) :
    ∃ files', files.rename? source goal = some files' := by
  have hne : files.at? (name :: place) ≠ none := by simp [hfile]
  obtain ⟨written, hput⟩ : ∃ written, files.put? name place (.file content) = some written :=
    ⟨_, dif_pos ⟨at?_holder hne, by simp [hfile]⟩⟩
  have hwritten : written.at? (name :: place) = some (.file content) := by
    rw [at?_put? hput, if_pos rfl]
  obtain ⟨removed, hdelete⟩ : ∃ removed, written.delete? name place = some removed :=
    ⟨_, dif_pos ⟨names_eq_nil (by simp [hwritten]), by simp [hwritten]⟩⟩
  have hremove : written.remove source = .ok removed := by
    rw [remove_of_file ((sameDirectories_put? hput).locate_eq_ok hsource) hwritten, deleteAt,
      if_neg (by simp [hwritten]), hdelete]
  refine ⟨removed, ?_⟩
  rw [rename?, hsource]
  simp only [Except.toOption, Option.bind_some, fileAt?, hfile, hgoal, hput, hremove]

/-- Directories are put where nothing stood, and nothing else is changed. -/
structure AddsDirectories (files files' : Files) : Prop where
  at? : ∀ q, files'.at? q = files.at? q ∨
    files.at? q = none ∧ files'.at? q = some .directory
  here : files'.here = files.here

theorem AddsDirectories.refl (files : Files) : AddsDirectories files files :=
  ⟨fun _ => Or.inl rfl, rfl⟩

theorem AddsDirectories.trans (h : AddsDirectories files files')
    (h' : AddsDirectories files' files'') : AddsDirectories files files'' where
  at? q := by
    rcases h'.at? q with hq' | ⟨hnone, hdirectory⟩
    · rw [hq']
      exact h.at? q
    · rcases h.at? q with hq | ⟨_, hq⟩
      · exact Or.inr ⟨hq.symm.trans hnone, hdirectory⟩
      · rw [hq] at hnone
        cases hnone
  here := h'.here.trans h.here

theorem AddsDirectories.at?_eq (h : AddsDirectories files files') (hq : files.at? q ≠ none) :
    files'.at? q = files.at? q := by
  rcases h.at? q with hsame | ⟨hnone, _⟩
  · exact hsame
  · exact absurd hnone hq

theorem AddsDirectories.keepsDirectories (h : AddsDirectories files files') :
    KeepsDirectories files files' := by
  refine ⟨?_, h.here⟩
  intro q hq
  rw [h.at?_eq (by simp [hq]), hq]

theorem AddsDirectories.fileAt?_eq (h : AddsDirectories files files') (q : Location) :
    files'.fileAt? q = files.fileAt? q := by
  unfold fileAt?
  rcases h.at? q with hsame | ⟨hnone, hdirectory⟩
  · rw [hsame]
  · rw [hnone, hdirectory]

theorem addsDirectories_put? {name : Text} (h : files.put? name place .directory = some files')
    (hfree : files.at? (name :: place) = none) : AddsDirectories files files' where
  at? q := by
    rw [at?_put? h]
    by_cases hq : q = name :: place
    · rw [if_pos hq, hq]
      exact Or.inr ⟨hfree, rfl⟩
    · rw [if_neg hq]
      exact Or.inl rfl
  here := (put?_eq_some_iff.1 h).2.2.2

theorem addsDirectories_make (files : Files) (place : Location) (components : List Text) :
    AddsDirectories files (files.make place components).2 := by
  induction components generalizing files place with
  | nil => exact .refl files
  | cons component components ih =>
    unfold make
    split_ifs with hstay hup hlong hdirectory htaken
    · exact ih files place
    · exact ih files place.tail
    · exact .refl files
    · exact ih files (component :: place)
    · exact .refl files
    · cases hput : files.put? component place .directory with
      | none => exact .refl files
      | some made => exact (addsDirectories_put? hput (not_not.1 htaken)).trans (ih made _)

theorem addsDirectories_makeMissing (files : Files) (path : Path) :
    AddsDirectories files (files.makeMissing path).2 := by
  unfold makeMissing
  generalize (if path.fileName = [] then path.parent else path) = path
  dsimp only
  split_ifs
  · exact .refl files
  · exact .refl files
  · exact .refl files
  · exact addsDirectories_make files _ _

theorem addsDirectories_makeDirectories (files : Files) (path : Path) :
    AddsDirectories files (files.makeDirectories path).2 := by
  unfold makeDirectories
  split_ifs
  · exact .refl files
  · exact .refl files
  · cases files.status path with
    | error cause => exact .refl files
    | ok found =>
      cases found with
      | none => exact addsDirectories_makeMissing files path
      | some entry => exact .refl files

end Files

end StableOrdinals
