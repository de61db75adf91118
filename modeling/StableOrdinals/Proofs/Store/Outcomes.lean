import StableOrdinals.Proofs.Files.Places
import StableOrdinals.Proofs.Store.Save

/-!
# What the operations of a store leave alone

An operation that fails leaves every file as it was, but for the draft (`KeepsFiles`). It may have
made directories, and it may have lost the draft (`saved_of_error`).

`kept?` is the object that stands at its place, whether or not the path of the store leads there at
the moment. An operation that fails, or that is about another object, leaves an object alone
(`LeavesAlone`): what is kept stays kept, and is what is loaded whenever anything is loaded under
that name (`kept?_of_load`).
-/

namespace StableOrdinals.Store

open StableOrdinals.Path

variable (store : Store) {files files' made after : Files} {w current : Workload} {holder : Location}
  {name : Text} {world world' : World}

def IsDraftPlace (files : Files) (place : Location) : Prop :=
  ∃ name holder, Workload.isValidName name = true ∧ files.IsDirectory store.directory holder ∧
    place = draftLeaf name :: holder

/-- Behind a NUL byte an object and its draft have no names of their own, so that a draft that can
be written can be renamed. -/
theorem rename?_of_nul (hnul : (0 : Byte) ∈ store.directory)
    (hname : Workload.isValidName name = true) {content : Text}
    (hwrite : made.write? (store.draft name) content = some after) :
    ∃ renamed, after.rename? (store.draft name) (store.file name) = some renamed := by
  cases hlocate : made.locate (store.draft name) with
  | error cause => simp [Files.write?, hlocate] at hwrite
  | ok place =>
    cases place with
    | nil => simp [Files.write?, hlocate] at hwrite
    | cons leaf place =>
      have hput : made.put? leaf place (.file content) = some after := by
        simp only [Files.write?, hlocate, Option.ite_none_left_eq_some] at hwrite
        exact hwrite.2
      have hdraft := (Files.sameDirectories_put? hput).locate_eq_ok hlocate
      have hfile : after.locate (store.file name) = .ok (leaf :: place) := by
        rw [← hdraft]
        exact locate_congr ((beforeNul_append_of_nul hnul (isLeaf_fileLeaf hname)).trans
          (beforeNul_append_of_nul hnul (isLeaf_draftLeaf hname)).symm)
      have hcontent : after.at? (leaf :: place) = some (.file content) := by
        rw [Files.at?_put? hput, if_pos rfl]
      exact Files.exists_rename?_of_locate hdraft hfile hcontent

theorem saved_of_error (hname : Workload.isValidName w.name = true) {e : StoreError}
    (hsave : store.save files w = (.error e, files')) :
    store.Saved w (files.makeDirectories store.directory).2 (.error e) files' := by
  by_cases hplain : IsPlain store.directory
  · have hsaved := store.saved_of_isPlain hplain hname files
    rwa [hsave] at hsaved
  · cases hmake : files.makeDirectories store.directory with
    | mk answer made =>
      cases answer with
      | error cause =>
        simp only [save, hmake, Prod.mk.injEq, Except.error.injEq] at hsave
        obtain ⟨rfl, rfl⟩ := hsave
        exact .refused _
      | ok _ =>
        cases hcontent : w.render store.format with
        | error cause =>
          simp only [save, hmake, hcontent, Prod.mk.injEq, Except.error.injEq] at hsave
          obtain ⟨rfl, rfl⟩ := hsave
          exact .refused _
        | ok content =>
          cases hwrite : made.write? (store.draft w.name) content with
          | none =>
            simp only [save, hmake, hcontent, hwrite, Prod.mk.injEq, Except.error.injEq] at hsave
            obtain ⟨rfl, rfl⟩ := hsave
            exact .refused _
          | some written =>
            -- Only a NUL byte is left, and then the draft is the object's file and can be renamed.
            have hnul : (0 : Byte) ∈ store.directory := by
              by_contra hnul
              refine hplain ⟨?_, fun c hc hzero => hnul (hzero ▸ hc)⟩
              intro hempty
              simp [Files.makeDirectories, hempty] at hmake
            obtain ⟨renamed, hrename⟩ := store.rename?_of_nul hnul hname hwrite
            simp [save, hmake, hcontent, hwrite, hrename] at hsave

theorem Saved.fileAt?_eq {e : StoreError} (h : store.Saved w made (.error e) after)
    (hname : Workload.isValidName w.name = true) {place : Location}
    (hplace : ¬ store.IsDraftPlace after place) : after.fileAt? place = made.fileAt? place := by
  cases h with
  | refused cause => rfl
  | @draftLost holder after cause directory short same at? =>
    have hne : place ≠ draftLeaf w.name :: holder := by
      rintro rfl
      exact hplace ⟨w.name, holder, hname, directory.of_sameDirectories same, rfl⟩
    rw [Files.fileAt?, at?, if_neg hne, Files.fileAt?]

theorem error_of_map_error {answer : Except StoreError Unit} {stored : Workload} {e : StoreError}
    (h : answer.map (fun _ => stored) = .error e) : answer = .error e := by
  cases answer with
  | ok _ => cases h
  | error cause => rw [Except.error.inj h]

/-- A removal is refused before anything is deleted, or it deletes what bears the name of the
object's file. -/
theorem remove_cases (world : World) (name : Text) :
    ((∃ e, (store.remove world name).1 = .error e) ∧
        (store.remove world name).2.files = world.files) ∨
      Workload.isValidName name = true ∧ (store.remove world name).1 = .ok () ∧
        world.files.remove (store.file name) = .ok (store.remove world name).2.files := by
  unfold remove
  cases hcontains : store.contains world.files name with
  | error e => exact Or.inl ⟨⟨_, rfl⟩, rfl⟩
  | ok found =>
    cases found with
    | false => exact Or.inl ⟨⟨_, rfl⟩, rfl⟩
    | true =>
      have hname : Workload.isValidName name = true := by
        by_contra hname
        simp [contains, hname] at hcontains
      cases world.files.remove (store.file name) with
      | error cause => exact Or.inl ⟨⟨_, rfl⟩, rfl⟩
      | ok files' => exact Or.inr ⟨hname, rfl, rfl⟩

/-- Every file stands as it did, unless it is a draft. -/
def KeepsFiles (before after : Files) : Prop :=
  ∀ place, ¬ store.IsDraftPlace after place → after.fileAt? place = before.fileAt? place

theorem keepsFiles_refl (files : Files) : store.KeepsFiles files files := fun _ _ => rfl

/-- An operation that saves an object of that name, if any: it is refused before anything is
written, or its answer is that of saving. -/
def SavesAtMost (name : Text) (before : Files) (answer : Except StoreError Workload)
    (after : Files) : Prop :=
  (∃ e, answer = .error e ∧ after = before) ∨
    ∃ stored, stored.name = name ∧ Workload.isValidName name = true ∧
      answer = (store.save before stored).1.map (fun _ => stored) ∧
      after = (store.save before stored).2

theorem create_savesAtMost (world : World) (w : Workload) :
    store.SavesAtMost w.name world.files (store.create world w).1
      (store.create world w).2.files := by
  rcases store.create_cases world w with
    ⟨⟨e, hanswer⟩, hfiles⟩ | ⟨stored, hname, _, hstored, hanswer, hfiles⟩
  · exact Or.inl ⟨e, hanswer, hfiles⟩
  · exact Or.inr ⟨stored, by rw [hstored], hname, hanswer, hfiles⟩

theorem update_savesAtMost (world : World) (w : Workload) :
    store.SavesAtMost w.name world.files (store.update world w).1
      (store.update world w).2.files := by
  rcases store.update_cases world w with
    ⟨⟨e, hanswer⟩, hfiles⟩ | ⟨current, stored, hload, _, hstored, hanswer, hfiles⟩
  · exact Or.inl ⟨e, hanswer, hfiles⟩
  · exact Or.inr ⟨stored, by rw [hstored], store.isValidName_of_load hload, hanswer, hfiles⟩

section KeepsFiles

variable {e : StoreError}

theorem SavesAtMost.keepsFiles (h : store.SavesAtMost name files (.error e) files') :
    store.KeepsFiles files files' := by
  rcases h with ⟨_, _, rfl⟩ | ⟨stored, rfl, hname, hanswer, rfl⟩
  · exact store.keepsFiles_refl files'
  · intro place hplace
    have hsave : store.save files stored = (.error e, (store.save files stored).2) :=
      Prod.ext (error_of_map_error hanswer.symm) rfl
    rw [(store.saved_of_error hname hsave).fileAt?_eq store hname hplace,
      (Files.addsDirectories_makeDirectories files store.directory).fileAt?_eq]

theorem create_keepsFiles (h : store.create world w = (.error e, world')) :
    store.KeepsFiles world.files world'.files := by
  have hsaves := store.create_savesAtMost world w
  rw [h] at hsaves
  exact hsaves.keepsFiles store

theorem update_keepsFiles (h : store.update world w = (.error e, world')) :
    store.KeepsFiles world.files world'.files := by
  have hsaves := store.update_savesAtMost world w
  rw [h] at hsaves
  exact hsaves.keepsFiles store

theorem remove_keepsFiles (h : store.remove world name = (.error e, world')) :
    store.KeepsFiles world.files world'.files := by
  rcases store.remove_cases world name with ⟨_, hfiles⟩ | ⟨_, hanswer, _⟩
  · rw [h] at hfiles
    rw [hfiles]
    exact store.keepsFiles_refl world.files
  · rw [h] at hanswer
    cases hanswer

end KeepsFiles

/-- Wherever the object may stand, it is still there, and relative paths start where they did. -/
structure LeavesAlone (before after : Files) (name : Text) : Prop where
  here : after.here = before.here
  at? : ∀ holder, before.at? (fileLeaf name :: holder) ≠ none →
    after.at? (fileLeaf name :: holder) = before.at? (fileLeaf name :: holder)

theorem leavesAlone_refl (files : Files) (name : Text) : LeavesAlone files files name :=
  ⟨rfl, fun _ _ => rfl⟩

theorem SavesAtMost.leavesAlone {other : Text} {answer : Except StoreError Workload}
    (h : store.SavesAtMost other files answer files') (hplain : IsPlain store.directory)
    (hname : Workload.isValidName name = true)
    (hother : name ≠ other ∨ ∃ e, answer = .error e) : LeavesAlone files files' name := by
  rcases h with ⟨_, _, rfl⟩ | ⟨stored, rfl, hvalid, rfl, rfl⟩
  · exact leavesAlone_refl files' name
  · have hmade := Files.addsDirectories_makeDirectories files store.directory
    have hsaved := store.saved_of_isPlain hplain hvalid files
    have hsave : name ≠ stored.name ∨ ∃ e, (store.save files stored).1 = .error e :=
      hother.imp_right fun ⟨e, he⟩ => ⟨e, error_of_map_error he⟩
    constructor
    · rw [hsaved.here_eq, hmade.here]
    · intro holder hne
      rw [hsaved.at?_eq store hname hsave, hmade.at?_eq hne]

theorem remove_leavesAlone (hplain : IsPlain store.directory) (world : World) (name other : Text)
    (hother : name ≠ other ∨ ∃ e, (store.remove world other).1 = .error e) :
    LeavesAlone world.files (store.remove world other).2.files name := by
  rcases store.remove_cases world other with ⟨_, hfiles⟩ | ⟨hvalid, hanswer, hremove⟩
  · rw [hfiles]
    exact leavesAlone_refl world.files name
  · have hne : name ≠ other := by
      rcases hother with hne | ⟨e, he⟩
      · exact hne
      · cases hanswer.symm.trans he
    obtain ⟨place, _, hdelete⟩ := Files.delete?_of_remove hplain (isLeaf_fileLeaf hvalid) hremove
    refine ⟨(Files.delete?_eq_some_iff.1 hdelete).2.2.2, ?_⟩
    intro holder _
    rw [Files.at?_delete? hdelete, if_neg]
    intro heq
    exact hne (fileLeaf_injective (List.cons.inj heq).1)

/-- What is read under a name at the target of the store's path, whether or not the path leads
there at the moment. -/
def kept? (files : Files) (name : Text) : Option Workload :=
  (files.at? (fileLeaf name :: files.target store.directory)).bind fun entry =>
    entry.content?.bind fun content =>
      ((store.format.read content).bind (Workload.ofDocument name)).toOption

theorem kept?_of_load (hplain : IsPlain store.directory) (h : store.load files name = .ok w) :
    store.kept? files name = some w := by
  have hfile := (store.loadFile_of_load h).2
  obtain ⟨entry, hentry⟩ := store.entryAt_of_load h
  have hat : files.at? (fileLeaf name :: files.target store.directory) = some entry := by
    obtain ⟨place, hlocate, hat⟩ := Files.exists_of_entryAt hentry
    obtain ⟨holder, hholder, rfl⟩ :=
      Files.isDirectory_of_locate hplain (isLeaf_fileLeaf (store.isValidName_of_load h)) hlocate
    rw [← Files.eq_target_of_locate hholder.locate, hat]
  rw [kept?, hat, Option.bind_some]
  rw [loadFile, Files.read?, hentry] at hfile
  cases hcontent : entry.content? with
  | none => simp [Except.toOption, hcontent] at hfile
  | some content =>
    simp only [Except.toOption, Option.bind_some, hcontent] at hfile ⊢
    cases hobject : (store.format.read content).bind (Workload.ofDocument name) with
    | error cause => simp [hobject] at hfile
    | ok found =>
      simp only [hobject] at hfile
      split_ifs at hfile
      exact congrArg some (Except.ok.inj hfile)

theorem LeavesAlone.kept?_eq (h : LeavesAlone files files' name)
    (hkept : store.kept? files name = some w) : store.kept? files' name = some w := by
  have hne : files.at? (fileLeaf name :: files.target store.directory) ≠ none := by
    intro hnone
    simp [kept?, hnone] at hkept
  rw [kept?, Files.target_congr h.here, h.at? _ hne, ← hkept, kept?]

end StableOrdinals.Store
