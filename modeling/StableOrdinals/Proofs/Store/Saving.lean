import Mathlib.Tactic.SplitIfs
import StableOrdinals.Proofs.Store.Save

/-!
# What it takes to save an object

Saving makes the directory of the store, opens the draft and renames it. Provided that drafts can be
renamed (`RenamesDraft`), an object that can be written is saved exactly if the first two succeed
(`save_fst_eq_ok_iff`). If saving fails, the directories that were made are all that has changed
(`save_error_of_renamesDraft`). A draft in the directory of the store is renamed unless a
directory bears the name of the object's file (`renamesDraft_iff`).
-/

namespace StableOrdinals

open StableOrdinals.Path

theorem eq_ok_of_toOption {ε α : Type} {answer : Except ε α} {a : α}
    (h : answer.toOption = some a) : answer = .ok a := by
  cases answer with
  | error e => cases h
  | ok b => rw [Option.some.inj h]

abbrev Files.CanOpen (files : Files) (path : Path) : Prop := (files.write? path []).isSome = true

theorem Files.canOpen_iff {files : Files} {path : Path} (content : Text) :
    files.CanOpen path ↔ ∃ written, files.write? path content = some written := by
  rw [CanOpen, ← Option.isSome_iff_exists]
  unfold write?
  cases files.locate path with
  | error cause => exact Iff.rfl
  | ok place =>
    cases place with
    | nil => exact Iff.rfl
    | cons name place =>
      unfold put?
      dsimp only
      split_ifs <;> exact Iff.rfl

namespace Store

variable (store : Store) {files files' : Files} {w current : Workload} {name : Text}
  {holder : Location}

/-- Once the draft of an object has been written, it can be renamed. -/
def RenamesDraft (files : Files) (name : Text) : Prop :=
  ∀ content written, files.write? (store.draft name) content = some written →
    ∃ renamed, written.rename? (store.draft name) (store.file name) = some renamed

/-- The directory of the store can be made, and then the draft of an object can be opened. -/
def CanMakeDraft (files : Files) (name : Text) : Prop :=
  (files.makeDirectories store.directory).1 = .ok () ∧
    (files.makeDirectories store.directory).2.CanOpen (store.draft name)

theorem isPlain_of_canMakeDraft (hload : store.load files name = .ok current)
    (hdraft : store.CanMakeDraft files name) : IsPlain store.directory := by
  obtain ⟨hmade, hopen⟩ := hdraft
  by_contra hplain
  rcases store.makeDirectories_of_not_plain hplain hload with ⟨cause, hmake⟩ | ⟨hmake, hdirectory⟩
  · rw [hmake] at hmade
    cases hmade
  · rw [hmake, Files.CanOpen, write?_of_directory hdirectory] at hopen
    cases hopen

theorem canOpen_draft_iff (h : files.IsDirectory store.directory holder)
    (hname : Workload.isValidName name = true) :
    files.CanOpen (store.draft name) ↔ store.CanDraft files holder name := by
  have hleaf := isLeaf_draftLeaf hname
  constructor
  · intro hopen
    obtain ⟨written, hwrite⟩ := (Files.canOpen_iff []).1 hopen
    rw [draft_eq, h.write?_append hleaf] at hwrite
    split_ifs at hwrite with hshort hclosed
    exact ⟨hshort, Bool.not_eq_true _ ▸ hclosed⟩
  · rintro ⟨hshort, hclosed⟩
    obtain ⟨written, hwrite, _⟩ := h.write_file hleaf hshort hclosed []
    exact (Files.canOpen_iff []).2 ⟨written, hwrite⟩

theorem renamesDraft_iff (h : files.IsDirectory store.directory holder)
    (hname : Workload.isValidName name = true) (hopen : files.CanOpen (store.draft name)) :
    store.RenamesDraft files name ↔ files.at? (fileLeaf name :: holder) ≠ some .directory := by
  have hleaf := isLeaf_draftLeaf hname
  have hleaf' := isLeaf_fileLeaf hname
  obtain ⟨hshort, hclosed⟩ := (store.canOpen_draft_iff h hname).1 hopen
  have hshort' := hshort.of_length_le h.plain.ne_nil hleaf hleaf' (length_fileLeaf_le name)
  have hwritten (content written) (hwrite : files.write? (store.draft name) content = some written) :
      Files.SameDirectories files written ∧
        written.at? (draftLeaf name :: holder) = some (.file content) := by
    obtain ⟨found, hfound, hsame, hat⟩ := h.write_file hleaf hshort hclosed content
    rw [draft_eq, hfound] at hwrite
    obtain rfl := Option.some.inj hwrite
    exact ⟨hsame, by rw [hat, if_pos rfl]⟩
  constructor
  · intro hrename hdirectory
    obtain ⟨written, hwrite⟩ := (Files.canOpen_iff []).1 hopen
    obtain ⟨hsame, hfile⟩ := hwritten [] written hwrite
    obtain ⟨renamed, hrenamed⟩ := hrename [] written hwrite
    rw [draft_eq, file_eq, (h.of_sameDirectories hsame).rename_onto_directory hleaf hleaf' hshort
      hfile ((hsame.directory _).2 hdirectory)] at hrenamed
    cases hrenamed
  · intro hplace content written hwrite
    obtain ⟨hsame, hfile⟩ := hwritten content written hwrite
    obtain ⟨renamed, hrenamed, _⟩ := (h.of_sameDirectories hsame).rename_file hleaf hleaf' hshort
      hfile hshort' (fun hdirectory => hplace ((hsame.directory _).1 hdirectory))
      (draftLeaf_ne_fileLeaf hname name)
    exact ⟨renamed, hrenamed⟩

theorem save_fst_eq_ok_iff {content : Text} (hcontent : w.render store.format = .ok content)
    (hrename : store.RenamesDraft (files.makeDirectories store.directory).2 w.name) :
    (store.save files w).1 = .ok () ↔ store.CanMakeDraft files w.name := by
  unfold CanMakeDraft
  cases hmake : files.makeDirectories store.directory with
  | mk answer made =>
    rw [hmake] at hrename
    cases answer with
    | error cause => simp only [save, hmake, reduceCtorEq, false_and]
    | ok _ =>
      rw [Files.canOpen_iff content]
      cases hwrite : made.write? (store.draft w.name) content with
      | none => simp [save, hmake, hcontent, hwrite]
      | some written =>
        obtain ⟨renamed, hrenamed⟩ := hrename _ written hwrite
        simp [save, hmake, hcontent, hwrite, hrenamed]

/-- Why saving fails although drafts can be renamed: the directory of the store could not be made,
the object could not be written, or the draft could not be opened. -/
theorem save_error_of_renamesDraft {e : StoreError}
    (hrename : store.RenamesDraft (files.makeDirectories store.directory).2 w.name)
    (hsave : store.save files w = (.error e, files')) :
    files' = (files.makeDirectories store.directory).2 ∧
      ((∃ cause, (files.makeDirectories store.directory).1 = .error cause) ∨
        (∃ cause, e = .notEncoded w.name cause) ∨ e = .unwritable (store.draft w.name)) := by
  cases hmake : files.makeDirectories store.directory with
  | mk answer made =>
    rw [hmake] at hrename
    cases answer with
    | error cause =>
      simp only [save, hmake, Prod.mk.injEq] at hsave
      exact ⟨hsave.2.symm, Or.inl ⟨cause, rfl⟩⟩
    | ok _ =>
      cases hcontent : w.render store.format with
      | error cause =>
        simp only [save, hmake, hcontent, Prod.mk.injEq, Except.error.injEq] at hsave
        exact ⟨hsave.2.symm, Or.inr (Or.inl ⟨cause, hsave.1.symm⟩)⟩
      | ok content =>
        cases hwrite : made.write? (store.draft w.name) content with
        | none =>
          simp only [save, hmake, hcontent, hwrite, Prod.mk.injEq, Except.error.injEq] at hsave
          exact ⟨hsave.2.symm, Or.inr (Or.inr hsave.1.symm)⟩
        | some written =>
          obtain ⟨renamed, hrenamed⟩ := hrename _ written hwrite
          simp [save, hmake, hcontent, hwrite, hrenamed] at hsave

end Store

end StableOrdinals
