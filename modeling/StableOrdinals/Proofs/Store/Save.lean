import StableOrdinals.Proofs.Store.Load

/-!
# What writing an object changes

An object is saved by way of its draft. Once the directory of the store stands, saving ends in one
of three ways, which `Saved` lists. The object cannot be written or the draft cannot be opened, and
nothing happens; a directory bears the name of the object's file, and only the draft is lost; or the
object's file holds the object, and nothing else has changed but the draft. `Saved.load_stored` and
`Saved.load_eq` say what is loaded afterwards, where it takes a format that reads the object back
for the object itself.

A store whose path is not plain holds objects at best as long as nobody writes to it: saving fails
there, and changes nothing (`save_of_not_plain`).

Creations and updates save at most once (`create_cases`, `update_cases`). `create_ok`, `update_ok`
and `update_error` draw the conclusions.
-/

namespace StableOrdinals.Store

open StableOrdinals.Path

variable (store : Store) {files files' : Files} {w current : Workload} {holder : Location}

theorem makeDirectories_of_isDirectory {directory : Path}
    (h : files.IsDirectory directory holder) :
    files.makeDirectories directory = (.ok (), files) := by
  have hstatus : files.status directory = .ok (some .directory) := by
    rw [Files.status, Files.entryAt, h.locate]
    simp only [h.at?, Entry.found]
  unfold Files.makeDirectories
  rw [if_neg h.plain.ne_nil, Text.beforeNul_of_forall h.plain.no_nul, if_neg h.plain.ne_nil,
    hstatus]
  simp

def CanDraft (files : Files) (holder : Location) (name : Text) : Prop :=
  Files.IsShort store.directory (draftLeaf name) ∧
    files.isClosed (draftLeaf name :: holder) = false

section Save

variable {content : Text} (h : files.IsDirectory store.directory holder)
  (hname : Workload.isValidName w.name = true) (hcontent : w.render store.format = .ok content)

include h in
theorem save_of_notEncoded {cause : Text} (hcause : w.render store.format = .error cause) :
    store.save files w = (.error (.notEncoded w.name cause), files) := by
  unfold save
  rw [makeDirectories_of_isDirectory h]
  simp only [hcause]

include h hname hcontent

theorem save_of_not_canDraft (hdraft : ¬ store.CanDraft files holder w.name) :
    store.save files w = (.error (.unwritable (store.draft w.name)), files) := by
  have hwrite : files.write? (store.draft w.name) content = none := by
    by_cases hshort : Files.IsShort store.directory (draftLeaf w.name)
    · apply h.write_closed (isLeaf_draftLeaf hname)
      by_contra hopen
      exact hdraft ⟨hshort, Bool.not_eq_true _ ▸ hopen⟩
    · rw [draft_eq, h.write?_append (isLeaf_draftLeaf hname), if_neg hshort]
  unfold save
  rw [makeDirectories_of_isDirectory h]
  simp only [hcontent, hwrite]

theorem save_of_directory (hdraft : store.CanDraft files holder w.name)
    (hdirectory : files.at? (fileLeaf w.name :: holder) = some .directory) :
    ∃ files', store.save files w = (.error (.notStored w.name), files') ∧
      Files.SameDirectories files files' ∧
      ∀ q, files'.at? q = if q = draftLeaf w.name :: holder then none else files.at? q := by
  have hleaf := isLeaf_draftLeaf hname
  obtain ⟨written, hwrite, hsame, hat⟩ := h.write_file hleaf hdraft.1 hdraft.2 content
  have hwritten := h.of_sameDirectories hsame
  have hfile : written.at? (draftLeaf w.name :: holder) = some (.file content) := by
    rw [hat, if_pos rfl]
  have hrename : written.rename? (store.draft w.name) (store.file w.name) = none :=
    hwritten.rename_onto_directory hleaf (isLeaf_fileLeaf hname) hdraft.1 hfile
      ((hsame.directory _).2 hdirectory)
  obtain ⟨files', hremove, hsame', hat'⟩ := hwritten.remove_file hleaf hdraft.1 hfile
  refine ⟨files', ?_, hsame.trans hsame', ?_⟩
  · unfold save
    rw [makeDirectories_of_isDirectory h]
    simp only [hcontent, draft_eq, hwrite]
    rw [draft_eq] at hrename
    simp only [hrename, hremove, Except.toOption, Option.getD_some]
  · intro q
    rw [hat', hat]
    by_cases hq : q = draftLeaf w.name :: holder
    · rw [if_pos hq, if_pos hq]
    · rw [if_neg hq, if_neg hq, if_neg hq]

theorem save_file (hdraft : store.CanDraft files holder w.name)
    (hfree : files.at? (fileLeaf w.name :: holder) ≠ some .directory) :
    ∃ files', store.save files w = (.ok (), files') ∧ Files.SameDirectories files files' ∧
      ∀ q, files'.at? q = if q = draftLeaf w.name :: holder then none
        else if q = fileLeaf w.name :: holder then some (.file content) else files.at? q := by
  have hleaf := isLeaf_draftLeaf hname
  have hleaf' := isLeaf_fileLeaf hname
  have hshort' := hdraft.1.of_length_le h.plain.ne_nil hleaf hleaf' (length_fileLeaf_le w.name)
  obtain ⟨written, hwrite, hsame, hat⟩ := h.write_file hleaf hdraft.1 hdraft.2 content
  have hfile : written.at? (draftLeaf w.name :: holder) = some (.file content) := by
    rw [hat, if_pos rfl]
  obtain ⟨files', hrename, hsame', hat'⟩ := (h.of_sameDirectories hsame).rename_file hleaf hleaf'
    hdraft.1 hfile hshort' (fun hd => hfree ((hsame.directory _).1 hd))
    (draftLeaf_ne_fileLeaf hname w.name)
  refine ⟨files', ?_, hsame.trans hsame', ?_⟩
  · unfold save
    rw [makeDirectories_of_isDirectory h]
    simp only [hcontent, draft_eq, hwrite]
    simp only [file_eq, hrename]
  · intro q
    rw [hat', hat]
    by_cases hq : q = draftLeaf w.name :: holder
    · rw [if_pos hq, if_pos hq]
    · rw [if_neg hq, if_neg hq, if_neg hq]

end Save

/-- How saving an object ends, once directories have been made. -/
inductive Saved (w : Workload) (made : Files) : Except StoreError Unit → Files → Prop
  | refused (cause : StoreError) : Saved w made (.error cause) made
  | draftLost {holder : Location} {after : Files} (cause : StoreError)
      (directory : made.IsDirectory store.directory holder)
      (short : Files.IsShort store.directory (draftLeaf w.name))
      (same : Files.SameDirectories made after)
      (at? : ∀ q, after.at? q = if q = draftLeaf w.name :: holder then none else made.at? q) :
      Saved w made (.error cause) after
  | stored {holder : Location} {after : Files} {content : Text}
      (rendered : w.render store.format = .ok content)
      (directory : made.IsDirectory store.directory holder)
      (short : Files.IsShort store.directory (draftLeaf w.name))
      (same : Files.SameDirectories made after)
      (at? : ∀ q, after.at? q = if q = draftLeaf w.name :: holder then none
        else if q = fileLeaf w.name :: holder then some (.file content) else made.at? q) :
      Saved w made (.ok ()) after

theorem saved_of_isDirectory (h : made.IsDirectory store.directory holder)
    (hname : Workload.isValidName w.name = true) :
    store.Saved w made (store.save made w).1 (store.save made w).2 := by
  cases hcontent : w.render store.format with
  | error cause =>
    rw [store.save_of_notEncoded h hcontent]
    exact .refused _
  | ok content =>
    by_cases hdraft : store.CanDraft made holder w.name
    · by_cases hdirectory : made.at? (fileLeaf w.name :: holder) = some .directory
      · obtain ⟨after, hsave, hsame, hat⟩ :=
          store.save_of_directory h hname hcontent hdraft hdirectory
        rw [hsave]
        exact .draftLost _ h hdraft.1 hsame hat
      · obtain ⟨after, hsave, hsame, hat⟩ := store.save_file h hname hcontent hdraft hdirectory
        rw [hsave]
        exact .stored hcontent h hdraft.1 hsame hat
    · rw [store.save_of_not_canDraft h hname hcontent hdraft]
      exact .refused _

theorem saved_of_isPlain (hplain : IsPlain store.directory)
    (hname : Workload.isValidName w.name = true) (files : Files) :
    store.Saved w (files.makeDirectories store.directory).2 (store.save files w).1
      (store.save files w).2 := by
  cases hmake : files.makeDirectories store.directory with
  | mk answer made =>
    cases answer with
    | error cause =>
      simp only [save, hmake]
      exact .refused _
    | ok _ =>
      cases hlocate : made.locate (store.draft w.name) with
      | error cause =>
        have hwrite (content : Text) : made.write? (store.draft w.name) content = none := by
          rw [Files.write?, hlocate]
        simp only [save, hmake, hwrite]
        cases w.render store.format <;> exact .refused _
      | ok place =>
        obtain ⟨holder, h, _⟩ :=
          Files.isDirectory_of_locate hplain (isLeaf_draftLeaf hname) hlocate
        have hmade : store.save files w = store.save made w := by
          rw [save, save, hmake, makeDirectories_of_isDirectory h]
        rw [hmade]
        exact store.saved_of_isDirectory h hname

theorem locate_congr {path path' : Path} (h : Text.beforeNul path = Text.beforeNul path') :
    files.locate path = files.locate path' := by
  rw [Files.locate, Files.locate, h]

theorem write?_of_directory {path : Path} (h : files.entryAt path = .ok .directory)
    (content : Text) : files.write? path content = none := by
  obtain ⟨place, hlocate, hat⟩ := Files.exists_of_entryAt h
  rw [Files.write?, hlocate]
  cases place with
  | nil => rfl
  | cons name place => exact if_pos (by rw [Files.isClosed, hat]; rfl)

/-- Behind a NUL byte an object is loaded from the path of the store itself, where there is nothing
to make. If a directory stands there, the path of the draft leads to it as well. -/
theorem makeDirectories_of_not_plain {name : Text} (hplain : ¬ IsPlain store.directory)
    (hload : store.load files name = .ok current) :
    (∃ cause, files.makeDirectories store.directory = (.error cause, files)) ∨
      files.makeDirectories store.directory = (.ok (), files) ∧
        files.entryAt (store.draft name) = .ok .directory := by
  have hname := store.isValidName_of_load hload
  by_cases hdir : store.directory = []
  · exact Or.inl ⟨.invalid, by rw [Files.makeDirectories, if_pos hdir]⟩
  · have hnul : (0 : Byte) ∈ store.directory := by
      by_contra hnul
      exact hplain ⟨hdir, fun c hc hzero => hnul (hzero ▸ hc)⟩
    obtain ⟨entry, hentry⟩ := store.entryAt_of_load hload
    have hdirectory : files.entryAt store.directory = .ok entry := by
      have hlocate : files.locate (store.file name) = files.locate store.directory :=
        locate_congr (beforeNul_append_of_nul hnul (isLeaf_fileLeaf hname))
      rw [← hentry, Files.entryAt, Files.entryAt, hlocate]
    have hne : Text.beforeNul store.directory ≠ [] := by
      intro hempty
      simp [Files.entryAt, Files.locate, hempty] at hdirectory
    have hmake : files.makeDirectories store.directory =
        (if entry = .directory then .ok () else .error .notDirectory, files) := by
      rw [Files.makeDirectories, if_neg hdir, if_neg hne, Files.status, hdirectory]
    by_cases hentryDirectory : entry = .directory
    · have hdraft : files.locate (store.draft name) = files.locate store.directory :=
        locate_congr (beforeNul_append_of_nul hnul (isLeaf_draftLeaf hname))
      rw [hmake, if_pos hentryDirectory, ← hentryDirectory, ← hdirectory, Files.entryAt,
        Files.entryAt, hdraft]
      exact Or.inr ⟨rfl, rfl⟩
    · rw [hmake, if_neg hentryDirectory]
      exact Or.inl ⟨_, rfl⟩

theorem save_of_not_plain (hplain : ¬ IsPlain store.directory)
    (hload : store.load files w.name = .ok current) : ∃ e, store.save files w = (.error e, files) := by
  rcases store.makeDirectories_of_not_plain hplain hload with ⟨cause, hmake⟩ | ⟨hmake, hdraft⟩
  · exact ⟨.noDirectory store.directory cause, by rw [save, hmake]⟩
  · rw [save, hmake]
    simp only [write?_of_directory hdraft]
    cases w.render store.format <;> exact ⟨_, rfl⟩

/-- The entries are the same at every place but where the draft of an object leads. -/
def SameButDraft (before after : Files) (name : Text) : Prop :=
  ∀ q, before.locate (store.draft name) ≠ .ok q → after.at? q = before.at? q

section Saved

variable {made after : Files} {name : Text} {answer : Except StoreError Unit}

section

variable (h : store.Saved w made answer after)

include h

theorem Saved.here_eq : after.here = made.here := by
  cases h with
  | refused cause => rfl
  | draftLost cause directory short same at? => exact same.here
  | stored rendered directory short same at? => exact same.here

/-- Saving an object leaves the others alone, and if it fails that object as well. -/
theorem Saved.at?_eq (hname : Workload.isValidName name = true)
    (hother : name ≠ w.name ∨ ∃ e, answer = .error e) (holder : Location) :
    after.at? (fileLeaf name :: holder) = made.at? (fileLeaf name :: holder) := by
  have hdraft (place : Location) : fileLeaf name :: holder ≠ draftLeaf w.name :: place := by
    intro heq
    exact draftLeaf_ne_fileLeaf hname w.name (List.cons.inj heq).1.symm
  cases h with
  | refused cause => rfl
  | draftLost cause directory short same at? => rw [at?, if_neg (hdraft _)]
  | @stored place after content rendered directory short same at? =>
    have hne : name ≠ w.name := by
      rcases hother with hne | ⟨e, he⟩
      · exact hne
      · cases he
    have hfile : fileLeaf name :: holder ≠ fileLeaf w.name :: place := by
      intro heq
      exact hne (fileLeaf_injective (List.cons.inj heq).1)
    rw [at?, if_neg (hdraft _), if_neg hfile]

theorem Saved.load_eq (hmade : made.IsDirectory store.directory holder)
    (hother : name ≠ w.name ∨ ∃ e, answer = .error e) :
    store.load after name = store.load made name := by
  have hafter : after.IsDirectory store.directory holder := by
    cases h with
    | refused cause => exact hmade
    | draftLost cause directory short same at? => exact hmade.of_sameDirectories same
    | stored rendered directory short same at? => exact hmade.of_sameDirectories same
  apply store.load_of_at?_eq hmade hafter
  exact fun hname => h.at?_eq store hname hother holder

end

theorem Saved.load_stored (h : store.Saved w made (.ok ()) after)
    (hname : Workload.isValidName w.name = true) (hback : store.format.ReadsBack w) :
    store.load after w.name = .ok w := by
  cases h with
  | @stored holder after content rendered directory short same at? =>
    have hleaf := isLeaf_fileLeaf hname
    have hne := draftLeaf_ne_fileLeaf hname w.name
    have hshort := short.of_length_le directory.plain.ne_nil (isLeaf_draftLeaf hname) hleaf
      (length_fileLeaf_le w.name)
    apply store.load_of_entryAt hname hback rendered
    rw [file_eq, (directory.of_sameDirectories same).entryAt_append hleaf, if_pos hshort, at?,
      if_neg (by simpa using hne.symm), if_pos rfl]
    rfl

theorem Saved.sameButDraft {e : StoreError} (h : store.Saved w made (.error e) after)
    (hname : Workload.isValidName w.name = true) : store.SameButDraft made after w.name := by
  intro q hq
  cases h with
  | refused cause => rfl
  | @draftLost holder after cause directory short same at? =>
    rw [at?, if_neg]
    rintro rfl
    apply hq
    rw [draft_eq, directory.locate_append (isLeaf_draftLeaf hname), if_pos short]

end Saved

/-- If the object that is to be replaced can be loaded and saving fails, the draft is all that may
be lost. -/
theorem save_error {e : StoreError} (hsave : store.save files w = (.error e, files'))
    (hload : store.load files w.name = .ok current) :
    store.SameButDraft files files' w.name ∧
      ∀ other, store.load files' other = store.load files other := by
  by_cases hplain : IsPlain store.directory
  · have hname := store.isValidName_of_load hload
    obtain ⟨holder, h⟩ := store.isDirectory_of_load hplain hload
    have hsaved := store.saved_of_isDirectory h hname
    rw [hsave] at hsaved
    exact ⟨hsaved.sameButDraft store hname, fun _ => hsaved.load_eq store h (Or.inr ⟨e, rfl⟩)⟩
  · obtain ⟨cause, hcause⟩ := store.save_of_not_plain hplain hload
    obtain rfl : files = files' := congrArg Prod.snd (hcause.symm.trans hsave)
    exact ⟨fun _ _ => rfl, fun _ => rfl⟩

theorem isPlain_of_save_ok (hsave : store.save files w = (.ok (), files'))
    (hload : store.load files w.name = .ok current) : IsPlain store.directory := by
  by_contra hplain
  obtain ⟨cause, hcause⟩ := store.save_of_not_plain hplain hload
  rw [hcause] at hsave
  cases hsave

theorem save_ok (hsave : store.save files w = (.ok (), files'))
    (hload : store.load files w.name = .ok current) :
    (store.format.ReadsBack w → store.load files' w.name = .ok w) ∧
      ∀ other, other ≠ w.name → store.load files' other = store.load files other := by
  have hname := store.isValidName_of_load hload
  obtain ⟨holder, h⟩ := store.isDirectory_of_load (store.isPlain_of_save_ok hsave hload) hload
  have hsaved := store.saved_of_isDirectory h hname
  rw [hsave] at hsaved
  exact ⟨hsaved.load_stored store hname, fun _ hother => hsaved.load_eq store h (Or.inl hother)⟩

theorem load_of_save (hplain : IsPlain store.directory)
    (hsave : store.save files w = (.ok (), files'))
    (hname : Workload.isValidName w.name = true) (hback : store.format.ReadsBack w) :
    store.load files' w.name = .ok w := by
  have hsaved := store.saved_of_isPlain hplain hname files
  rw [hsave] at hsaved
  exact hsaved.load_stored store hname hback

/-- A creation is refused before anything is written, or it saves the object under version 1 and its
answer is that of saving. -/
theorem create_cases (world : World) (w : Workload) :
    ((∃ e, (store.create world w).1 = .error e) ∧ (store.create world w).2.files = world.files) ∨
      ∃ stored, Workload.isValidName w.name = true ∧ 0 ≤ w.replicas.toInt ∧
        stored = { w with version := 1 } ∧
        (store.create world w).1 = (store.save world.files stored).1.map (fun _ => stored) ∧
        (store.create world w).2.files = (store.save world.files stored).2 := by
  unfold create
  by_cases hname : Workload.isValidName w.name = false
  · rw [if_pos hname]
    exact Or.inl ⟨⟨_, rfl⟩, rfl⟩
  · by_cases hreplicas : w.replicas.toInt < 0
    · rw [if_neg hname, if_pos hreplicas]
      exact Or.inl ⟨⟨_, rfl⟩, rfl⟩
    · rw [if_neg hname, if_neg hreplicas]
      cases store.contains world.files w.name with
      | error e => exact Or.inl ⟨⟨_, rfl⟩, rfl⟩
      | ok found =>
        cases found with
        | true => exact Or.inl ⟨⟨_, rfl⟩, rfl⟩
        | false =>
          refine Or.inr ⟨_, by simpa using hname, by omega, rfl, ?_⟩
          simp only [put]
          cases store.save world.files { w with version := 1 } with
          | mk answer files' => cases answer <;> exact ⟨rfl, rfl⟩

theorem save_of_create_ok {world world' : World} {stored : Workload}
    (h : store.create world w = (.ok stored, world')) :
    Workload.isValidName w.name = true ∧ 0 ≤ w.replicas.toInt ∧
      stored = { w with version := 1 } ∧ store.save world.files stored = (.ok (), world'.files) := by
  rcases store.create_cases world w with
    ⟨⟨e, hanswer⟩, _⟩ | ⟨next, hname, hreplicas, hnext, hanswer, hfiles⟩
  · rw [h] at hanswer
    cases hanswer
  · rw [h] at hanswer hfiles
    cases hsave : store.save world.files next with
    | mk answer files' =>
      rw [hsave] at hanswer hfiles
      cases answer with
      | error e => cases hanswer
      | ok _ =>
        obtain rfl := Except.ok.inj hanswer
        exact ⟨hname, hreplicas, hnext, by rw [hsave, hfiles]⟩

theorem create_ok {world world' : World} {stored : Workload} (hplain : IsPlain store.directory)
    (h : store.create world w = (.ok stored, world')) :
    stored = { w with version := 1 } ∧
      (store.format.ReadsBack stored → store.load world'.files w.name = .ok stored) := by
  obtain ⟨hname, _, rfl, hsave⟩ := store.save_of_create_ok h
  exact ⟨rfl, store.load_of_save hplain hsave hname⟩

theorem create_of_load {world : World} (hload : store.load world.files w.name = .ok current) :
    ∃ e, store.create world w = (.error e, world) := by
  have hname := store.isValidName_of_load hload
  have hcontains : store.contains world.files w.name = .ok true := by
    rw [contains, if_pos hname, (store.loadFile_of_load hload).1]
  unfold create
  rw [if_neg (by simp [hname])]
  by_cases hreplicas : w.replicas.toInt < 0
  · rw [if_pos hreplicas]
    exact ⟨_, rfl⟩
  · rw [if_neg hreplicas, hcontains]
    exact ⟨_, rfl⟩

/-- An update is refused before anything is written, or it saves the object under the next version
and its answer is that of saving. -/
theorem update_cases (world : World) (w : Workload) :
    ((∃ e, (store.update world w).1 = .error e) ∧ (store.update world w).2.files = world.files) ∨
      ∃ current stored, store.load world.files w.name = .ok current ∧
        current.version = w.version ∧ stored = { w with version := w.version + 1 } ∧
        (store.update world w).1 = (store.save world.files stored).1.map (fun _ => stored) ∧
        (store.update world w).2.files = (store.save world.files stored).2 := by
  unfold update
  by_cases hreplicas : w.replicas.toInt < 0
  · rw [if_pos hreplicas]
    exact Or.inl ⟨⟨_, rfl⟩, rfl⟩
  · rw [if_neg hreplicas]
    cases hload : store.load world.files w.name with
    | error e => exact Or.inl ⟨⟨_, rfl⟩, rfl⟩
    | ok current =>
      by_cases hversion : current.version ≠ w.version
      · simp only [if_pos hversion]
        exact Or.inl ⟨⟨_, rfl⟩, rfl⟩
      · simp only [if_neg hversion, put]
        refine Or.inr ⟨current, _, rfl, not_not.1 hversion, rfl, ?_⟩
        cases store.save world.files { w with version := w.version + 1 } with
        | mk answer files' => cases answer <;> exact ⟨rfl, rfl⟩

theorem save_of_update_ok {world world' : World} {stored : Workload}
    (h : store.update world w = (.ok stored, world')) :
    ∃ current, store.load world.files w.name = .ok current ∧ current.version = w.version ∧
      stored = { w with version := w.version + 1 } ∧
      store.save world.files stored = (.ok (), world'.files) := by
  rcases store.update_cases world w with
    ⟨⟨e, hanswer⟩, _⟩ | ⟨current, next, hload, hversion, hnext, hanswer, hfiles⟩
  · rw [h] at hanswer
    cases hanswer
  · rw [h] at hanswer hfiles
    cases hsave : store.save world.files next with
    | mk answer files' =>
      rw [hsave] at hanswer hfiles
      cases answer with
      | error e => cases hanswer
      | ok _ =>
        obtain rfl := Except.ok.inj hanswer
        exact ⟨current, hload, hversion, hnext, by rw [hsave, hfiles]⟩

theorem replicas_of_update_ok {world world' : World} {stored : Workload}
    (h : store.update world w = (.ok stored, world')) : 0 ≤ w.replicas.toInt := by
  by_contra hreplicas
  rw [update, if_pos (by omega)] at h
  cases h

theorem isPlain_of_update_ok {world world' : World} {stored : Workload}
    (h : store.update world w = (.ok stored, world')) : IsPlain store.directory := by
  obtain ⟨current, hload, _, rfl, hsave⟩ := store.save_of_update_ok h
  exact store.isPlain_of_save_ok hsave hload

theorem update_ok {world world' : World} {stored : Workload}
    (h : store.update world w = (.ok stored, world')) :
    ∃ current, store.load world.files w.name = .ok current ∧ current.version = w.version ∧
      stored = { w with version := w.version + 1 } ∧
      (store.format.ReadsBack stored → store.load world'.files w.name = .ok stored) ∧
      ∀ other, other ≠ w.name → store.load world'.files other = store.load world.files other := by
  obtain ⟨current, hload, hversion, rfl, hsave⟩ := store.save_of_update_ok h
  obtain ⟨hstored, hothers⟩ := store.save_ok hsave hload
  exact ⟨current, hload, hversion, rfl, hstored, hothers⟩

theorem update_error {world world' : World} {e : StoreError}
    (h : store.update world w = (.error e, world')) :
    store.SameButDraft world.files world'.files w.name ∧
      ∀ other, store.load world'.files other = store.load world.files other := by
  rcases store.update_cases world w with
    ⟨_, hfiles⟩ | ⟨current, next, hload, _, rfl, hanswer, hfiles⟩
  · rw [h] at hfiles
    rw [hfiles]
    exact ⟨fun _ _ => rfl, fun _ => rfl⟩
  · rw [h] at hanswer hfiles
    cases hsave : store.save world.files { w with version := w.version + 1 } with
    | mk answer files' =>
      rw [hsave] at hanswer hfiles
      cases answer with
      | ok _ => cases hanswer
      | error cause =>
        rw [hfiles]
        have hlost := store.save_error hsave hload
        exact hlost

end StableOrdinals.Store
