import Mathlib.Data.Nat.Notation
import StableOrdinals.Files

/-!
# Changes of the tree and what they leave alone

Writing, removing and renaming a file change the entry at its location and no other one. They put no
directory in place and take none away: `SameDirectories` is that relation between two trees. As long
as no directory is taken away, every path that led anywhere still leads there:
`KeepsDirectories.locate_eq_ok`.
-/

namespace StableOrdinals

theorem Entries.at?_insert (entries : Entries) (name : Text) (place q : Location) (entry : Entry) :
    at? (entries.insert (name :: place) entry) q =
      if q = name :: place then some entry else entries.at? q := by
  by_cases hq : q = name :: place
  · subst hq
    simp [at?]
  · rw [if_neg hq, at?_insert_of_ne (Ne.symm hq)]

theorem Entries.at?_erase (entries : Entries) (name : Text) (place q : Location) :
    at? (entries.erase (name :: place)) q =
      if q = name :: place then none else entries.at? q := by
  by_cases hq : q = name :: place
  · subst hq
    simp [at?]
  · rw [if_neg hq, at?_erase_of_ne (Ne.symm hq)]

namespace Files

variable {files files' files'' : Files} {name : Text} {place : Location}

theorem names_eq_nil (h : files.at? place ≠ some .directory) : files.names place = [] := by
  rw [List.eq_nil_iff_forall_not_mem]
  intro child hchild
  exact h (files.holder_directory child place (Entries.mem_names.1 hchild))

theorem mem_names_iff : name ∈ files.names place ↔ files.at? (name :: place) ≠ none := by
  rw [names, Entries.mem_names, Std.ExtTreeMap.mem_iff_isSome_getElem?, Option.isSome_iff_ne_none,
    at?, Entries.at?, if_neg (List.cons_ne_nil _ _)]

theorem put?_eq_some_iff {entry : Entry} : files.put? name place entry = some files' ↔
    files.at? place = some .directory ∧ files.at? (name :: place) ≠ some .directory ∧
      files'.entries = files.entries.insert (name :: place) entry ∧ files'.here = files.here := by
  unfold put?
  by_cases h : files.at? place = some .directory ∧ files.at? (name :: place) ≠ some .directory
  · rw [dif_pos h, Option.some.injEq]
    constructor
    · rintro rfl
      exact ⟨h.1, h.2, rfl, rfl⟩
    · rintro ⟨_, _, hentries, hhere⟩
      cases files'
      simp_all
  · rw [dif_neg h]
    simp only [reduceCtorEq, false_iff]
    rintro ⟨h₁, h₂, _⟩
    exact h ⟨h₁, h₂⟩

theorem at?_put? {entry : Entry} (h : files.put? name place entry = some files') (q : Location) :
    files'.at? q = if q = name :: place then some entry else files.at? q := by
  rw [at?, (put?_eq_some_iff.1 h).2.2.1, Entries.at?_insert]
  rfl

theorem delete?_eq_some_iff : files.delete? name place = some files' ↔
    files.names (name :: place) = [] ∧ files.at? (name :: place) ≠ none ∧
      files'.entries = files.entries.erase (name :: place) ∧ files'.here = files.here := by
  unfold delete?
  by_cases h : files.names (name :: place) = [] ∧ files.at? (name :: place) ≠ none
  · rw [dif_pos h, Option.some.injEq]
    constructor
    · rintro rfl
      exact ⟨h.1, h.2, rfl, rfl⟩
    · rintro ⟨_, _, hentries, hhere⟩
      cases files'
      simp_all
  · rw [dif_neg h]
    simp only [reduceCtorEq, false_iff]
    rintro ⟨h₁, h₂, _⟩
    exact h ⟨h₁, h₂⟩

theorem at?_delete? (h : files.delete? name place = some files') (q : Location) :
    files'.at? q = if q = name :: place then none else files.at? q := by
  rw [at?, (delete?_eq_some_iff.1 h).2.2.1, Entries.at?_erase]
  rfl

/-- The same places hold directories, and relative paths start at the same one. -/
structure SameDirectories (files files' : Files) : Prop where
  directory : ∀ q, files'.at? q = some .directory ↔ files.at? q = some .directory
  here : files'.here = files.here

theorem SameDirectories.trans (h : SameDirectories files files')
    (h' : SameDirectories files' files'') : SameDirectories files files'' :=
  ⟨fun q => (h'.directory q).trans (h.directory q), h'.here.trans h.here⟩

theorem sameDirectories_put? {content : Text}
    (h : files.put? name place (.file content) = some files') : SameDirectories files files' where
  directory q := by
    rw [at?_put? h]
    by_cases hq : q = name :: place
    · subst hq
      simp [(put?_eq_some_iff.1 h).2.1]
    · rw [if_neg hq]
  here := (put?_eq_some_iff.1 h).2.2.2

theorem sameDirectories_delete? (h : files.delete? name place = some files')
    (hfile : files.at? (name :: place) ≠ some .directory) : SameDirectories files files' where
  directory q := by
    rw [at?_delete? h]
    by_cases hq : q = name :: place
    · subst hq
      simp [hfile]
    · rw [if_neg hq]
  here := (delete?_eq_some_iff.1 h).2.2.2

theorem step_of_directory (h : files.at? place = some .directory) (component : Text) :
    files.step place component =
      if component = [] ∨ component = "." then .ok place
      else if component = ".." then .ok place.tail
      else if longestName < component.length then .error .nameTooLong
      else .ok (component :: place) := by
  rw [step, h]

theorem directory_of_step {component : Text} {q : Location}
    (h : files.step place component = .ok q) : files.at? place = some .directory := by
  unfold step at h
  cases hat : files.at? place with
  | none => simp [hat] at h
  | some entry =>
    cases entry with
    | directory => rfl
    | file _ | special | loop => simp [hat] at h

theorem exists_of_entryAt {path : Path} {entry : Entry} (h : files.entryAt path = .ok entry) :
    ∃ place, files.locate path = .ok place ∧ files.at? place = some entry := by
  unfold entryAt at h
  cases hlocate : files.locate path with
  | error cause => simp [hlocate] at h
  | ok place =>
    refine ⟨place, rfl, ?_⟩
    simp only [hlocate] at h
    cases hat : files.at? place with
    | none => simp [hat, Entry.found] at h
    | some found => cases found <;> simp_all [Entry.found]

/-- No directory is taken away, and relative paths start at the same one. -/
structure KeepsDirectories (files files' : Files) : Prop where
  directory : ∀ q, files.at? q = some .directory → files'.at? q = some .directory
  here : files'.here = files.here

theorem KeepsDirectories.trans (h : KeepsDirectories files files')
    (h' : KeepsDirectories files' files'') : KeepsDirectories files files'' :=
  ⟨fun q hq => h'.directory q (h.directory q hq), h'.here.trans h.here⟩

theorem SameDirectories.keepsDirectories (h : SameDirectories files files') :
    KeepsDirectories files files' :=
  ⟨fun q => (h.directory q).2, h.here⟩

theorem step_congr (h : KeepsDirectories files files')
    (hplace : files.at? place = some .directory) (component : Text) :
    files'.step place component = files.step place component := by
  rw [step_of_directory hplace, step_of_directory (h.directory place hplace)]

theorem foldlM_step_eq_ok (h : KeepsDirectories files files') {components : List Text}
    {q : Location} (hq : components.foldlM files.step place = .ok q) :
    components.foldlM files'.step place = .ok q := by
  induction components generalizing place with
  | nil => exact hq
  | cons component components ih =>
    rw [List.foldlM_cons] at hq ⊢
    cases hs : files.step place component with
    | error cause =>
      rw [hs] at hq
      cases hq
    | ok next =>
      rw [hs] at hq
      rw [step_congr h (directory_of_step hs), hs]
      exact ih hq

theorem KeepsDirectories.locate_eq_ok (h : KeepsDirectories files files') {path : Path}
    {q : Location} (hq : files.locate path = .ok q) : files'.locate path = .ok q := by
  have horigin (p : Path) : files'.origin p = files.origin p := by
    unfold origin
    rw [h.here]
  unfold locate at hq ⊢
  by_cases hempty : Text.beforeNul path = []
  · simp [hempty] at hq
  · by_cases hlong : longestPath < (Text.beforeNul path).length
    · simp [hempty, hlong] at hq
    · simp only [if_neg hempty, if_neg hlong] at hq ⊢
      rw [horigin]
      exact foldlM_step_eq_ok h hq

theorem SameDirectories.locate_eq_ok (h : SameDirectories files files') {path : Path}
    {q : Location} (hq : files.locate path = .ok q) : files'.locate path = .ok q :=
  h.keepsDirectories.locate_eq_ok hq

end Files

end StableOrdinals
