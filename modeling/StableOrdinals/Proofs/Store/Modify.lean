import StableOrdinals.Proofs.Files.Paths
import StableOrdinals.Proofs.Store.Outcomes

/-!
# Modifications

A change that does not touch the files is never overtaken, so that a modification makes one attempt
with it: it fails and leaves every file but a draft as it was, or it updates the object that it has
loaded and changed (`modify_cases`).

A change that touches files elsewhere may leave the store alone all the same (`Untouched`). Then the
objects are loaded as before: `Untouched.load_eq`.
-/

namespace StableOrdinals.Store

open StableOrdinals.Path

variable {ε σ : Type} (store : Store) {name : Text} {change : Change ε σ}

theorem zero_le_defaultRetries : 0 ≤ defaultRetries := by decide

/-- The change does not touch the files. -/
def Change.LeavesFiles (change : Change ε σ) : Prop :=
  ∀ w state, (change w state).2.1.files = state.1.files

/-- The object that is loaded is changed, and the update by it is accepted. -/
def Modified (name : Text) (change : Change ε σ) (before after : World × σ) (stored : Workload) :
    Prop :=
  ∃ seen w between, store.load before.1.files name = .ok seen ∧
    change seen before = (.ok w, between) ∧ between.1.files = before.1.files ∧
    store.update between.1 w = (.ok stored, after.1) ∧ after.2 = between.2

theorem isOvertaken_of_load {files : Files} {seen : Workload}
    (h : store.load files name = .ok seen) (failure : StoreError) :
    store.isOvertaken files name seen.version failure = false := by
  simp [isOvertaken, h]

theorem attempt_cases (hchange : change.LeavesFiles) (state : World × σ) :
    (∃ e after, store.attempt name change state = (.error e, false, after) ∧
        store.KeepsFiles state.1.files after.1.files) ∨
      ∃ stored after, store.attempt name change state = (.ok stored, false, after) ∧
        store.Modified name change state after stored := by
  cases hload : store.load state.1.files name with
  | error e =>
    refine Or.inl ⟨.store e, state, ?_, store.keepsFiles_refl state.1.files⟩
    simp only [attempt, hload]
  | ok seen =>
    have hfiles := hchange seen state
    cases happly : change seen state with
    | mk answer between =>
      rw [happly] at hfiles
      obtain ⟨world, kept⟩ := between
      cases answer with
      | error e =>
        refine Or.inl ⟨.refused e, (world, kept), ?_, ?_⟩
        · simp only [attempt, hload, happly]
        · rw [hfiles]
          exact store.keepsFiles_refl state.1.files
      | ok w =>
        cases hupdate : store.update world w with
        | mk answer after =>
          cases answer with
          | error e =>
            -- What was seen is still stored, so that nobody else has written in between.
            have hstill : store.load after.files name = .ok seen := by
              rw [(store.update_error hupdate).2 name, hfiles, hload]
            refine Or.inl ⟨.store e, (after, kept), ?_, ?_⟩
            · simp only [attempt, hload, happly, hupdate, store.isOvertaken_of_load hstill]
            · rw [← hfiles]
              exact store.update_keepsFiles hupdate
          | ok stored =>
            refine Or.inr ⟨stored, (after, kept), ?_, ⟨seen, w, (world, kept), hload, happly, hfiles,
              hupdate, rfl⟩⟩
            simp only [attempt, hload, happly, hupdate]

theorem modify_eq_attempt (hchange : change.LeavesFiles) {retries : Int} (hretries : 0 ≤ retries)
    (state : World × σ) : store.modify name change retries state =
      ((store.attempt name change state).1, (store.attempt name change state).2.2) := by
  obtain ⟨left, hleft⟩ := Nat.exists_eq_succ_of_ne_zero (by omega : (retries + 1).toNat ≠ 0)
  unfold modify
  rw [hleft, attempts]
  rcases store.attempt_cases hchange state with ⟨e, after, h, _⟩ | ⟨stored, after, h, _⟩ <;> rw [h]

section Outcome

variable (hchange : change.LeavesFiles) {retries : Int} (hretries : 0 ≤ retries)
  {state between : World × σ} {seen : Workload} (hload : store.load state.1.files name = .ok seen)

include hchange hretries hload

theorem modify_of_refused {e : ε} (happly : change seen state = (.error e, between)) :
    store.modify name change retries state = (.error (.refused e), between) := by
  rw [store.modify_eq_attempt hchange hretries]
  simp only [attempt, hload, happly]

theorem modify_of_updated {w stored : Workload} {world : World}
    (happly : change seen state = (.ok w, between))
    (hupdate : store.update between.1 w = (.ok stored, world)) :
    store.modify name change retries state = (.ok stored, (world, between.2)) := by
  rw [store.modify_eq_attempt hchange hretries]
  simp only [attempt, hload, happly, hupdate]

end Outcome

theorem modify_cases (hchange : change.LeavesFiles) (retries : Int) (state : World × σ) :
    (∃ e after, store.modify name change retries state = (.error e, after) ∧
        store.KeepsFiles state.1.files after.1.files) ∨
      ∃ stored after, store.modify name change retries state = (.ok stored, after) ∧
        store.Modified name change state after stored := by
  unfold modify
  cases (retries + 1).toNat with
  | zero =>
    exact Or.inl ⟨.store (.gaveUp name (retries + 1)), state, rfl,
      store.keepsFiles_refl state.1.files⟩
  | succ left =>
    rw [attempts]
    rcases store.attempt_cases hchange state with ⟨e, after, h, hkeeps⟩ | ⟨stored, after, h, hmod⟩
    · rw [h]
      exact Or.inl ⟨e, after, rfl, hkeeps⟩
    · rw [h]
      exact Or.inr ⟨stored, after, rfl, hmod⟩

/-- The store is where it was, with all that it holds. -/
structure Untouched (before after : Files) : Prop where
  locate : after.locate store.directory = before.locate store.directory
  target : after.target store.directory = before.target store.directory
  at? : ∀ q, before.target store.directory <:+ q → after.at? q = before.at? q

/-- The change does not touch the store. -/
def Change.LeavesStore (change : Change ε σ) : Prop :=
  ∀ w state, store.Untouched state.1.files (change w state).2.1.files

section Untouched

variable {store} {files files' : Files} {leaf : Text} {holder place q : Location} {path : Path}

theorem suffix_of_step (hleaf : IsLeaf leaf) (h : files.step place leaf = .ok q) : place <:+ q := by
  have hdown : place.follow leaf = leaf :: place := by
    rw [Location.follow, if_neg (by simp [hleaf.ne_nil, hleaf.ne_dots.1]), if_neg hleaf.ne_dots.2]
  rw [Files.eq_follow_of_step h, hdown]
  exact List.suffix_cons leaf place

theorem locate_append_of_eq_nil (hempty : store.directory = []) (hleaf : IsLeaf leaf)
    (files : Files) : files.locate (store.directory.append leaf) =
      if Files.longestPath < leaf.length then .error .nameTooLong
      else files.step (files.target store.directory) leaf := by
  have hpath : store.directory.append leaf = leaf := by
    rw [Path.append, if_pos (Or.inr hempty)]
  have htarget : files.target store.directory = files.origin leaf := by
    rw [hempty, Files.origin, hleaf.not_isAbsolute]
    rfl
  rw [hpath, htarget, Files.locate, Text.beforeNul_of_forall hleaf.no_nul, if_neg hleaf.ne_nil,
    components_of_no_slash hleaf.no_slash]
  split_ifs
  · rfl
  · exact bind_pure _

variable (h : store.Untouched files files')

include h

theorem Untouched.isDirectory (hholder : files.IsDirectory store.directory holder) :
    files'.IsDirectory store.directory holder where
  plain := hholder.plain
  locate := h.locate.trans hholder.locate
  at? := by
    obtain rfl := Files.eq_target_of_locate hholder.locate
    rw [h.at? _ (List.suffix_refl _), hholder.at?]

theorem Untouched.step_eq (leaf : Text) : files'.step (files.target store.directory) leaf =
    files.step (files.target store.directory) leaf := by
  rw [Files.step, Files.step, h.at? _ (List.suffix_refl _)]

theorem Untouched.entryAt_eq (hlocate : files'.locate path = files.locate path)
    (hplace : ∀ place, files.locate path = .ok place → files.target store.directory <:+ place) :
    files'.entryAt path = files.entryAt path := by
  rw [Files.entryAt, Files.entryAt, hlocate]
  cases hfound : files.locate path with
  | error cause => rfl
  | ok place => simp only [h.at? place (hplace place hfound)]

theorem Untouched.entryAt_append_of_nul (hnul : (0 : Byte) ∈ store.directory)
    (hleaf : IsLeaf leaf) : files'.entryAt (store.directory.append leaf) =
      files.entryAt (store.directory.append leaf) := by
  have hcut (tree : Files) : tree.locate (store.directory.append leaf) =
      tree.locate store.directory := locate_congr (beforeNul_append_of_nul hnul hleaf)
  apply h.entryAt_eq
  · rw [hcut, hcut, h.locate]
  · intro place hplace
    rw [hcut] at hplace
    obtain rfl := Files.eq_target_of_locate hplace
    exact List.suffix_refl _

theorem Untouched.entryAt_append_of_eq_nil (hempty : store.directory = []) (hleaf : IsLeaf leaf) :
    files'.entryAt (store.directory.append leaf) =
      files.entryAt (store.directory.append leaf) := by
  have hlocate (tree : Files) := locate_append_of_eq_nil hempty hleaf tree
  apply h.entryAt_eq
  · rw [hlocate, hlocate, h.target, h.step_eq]
  · intro place hplace
    rw [hlocate] at hplace
    split_ifs at hplace
    exact suffix_of_step hleaf hplace

theorem Untouched.entryAt_append_of_isPlain (hplain : IsPlain store.directory) (hleaf : IsLeaf leaf) :
    files'.entryAt (store.directory.append leaf) =
      files.entryAt (store.directory.append leaf) := by
  have hlocate (tree : Files) := Files.locate_append tree hplain hleaf
  cases hfound : files.locate store.directory with
  | error cause =>
    have hfound' : files'.locate store.directory = .error cause := h.locate.trans hfound
    rw [Files.entryAt, Files.entryAt, hlocate, hlocate, hfound, hfound']
    split_ifs <;> rfl
  | ok holder =>
    have hfound' : files'.locate store.directory = .ok holder := h.locate.trans hfound
    obtain rfl := Files.eq_target_of_locate hfound
    apply h.entryAt_eq
    · rw [hlocate, hlocate, hfound, hfound']
      exact if_congr Iff.rfl rfl (h.step_eq leaf)
    · intro place hplace
      rw [hlocate, hfound] at hplace
      split_ifs at hplace
      exact suffix_of_step hleaf hplace

theorem Untouched.entryAt_append (hleaf : IsLeaf leaf) :
    files'.entryAt (store.directory.append leaf) =
      files.entryAt (store.directory.append leaf) := by
  by_cases hnul : (0 : Byte) ∈ store.directory
  · exact h.entryAt_append_of_nul hnul hleaf
  · by_cases hempty : store.directory = []
    · exact h.entryAt_append_of_eq_nil hempty hleaf
    · exact h.entryAt_append_of_isPlain ⟨hempty, fun c hc hzero => hnul (hzero ▸ hc)⟩ hleaf

theorem Untouched.load_eq (name : Text) : store.load files' name = store.load files name := by
  by_cases hname : Workload.isValidName name = true
  · apply store.load_congr
    rw [file_eq, h.entryAt_append (isLeaf_fileLeaf hname)]
  · rw [load, load, if_pos (by simpa using hname), if_pos (by simpa using hname)]

end Untouched

end StableOrdinals.Store
