import StableOrdinals.Proofs.Files.Footprint
import StableOrdinals.Proofs.Store.Outcomes

/-!
# What requests touch

The files of an object are its own file and its draft (`ownLeaves`). Both are children of the
directory of the store, whatever the name, for a name that is not valid has no files at all. A
request changes the files of its object and no other ones (`Request.perform_changes`), and in worlds
that are alike as far as these are concerned it has the same outcome (`Alike.perform`).
-/

namespace StableOrdinals.Store

open StableOrdinals.Path StableOrdinals.Files

inductive Request
  | contains (name : Text)
  | load (name : Text)
  | create (w : Workload)
  | update (w : Workload)
  | remove (name : Text)

inductive Reply
  | found (answer : Except StoreError Bool)
  | object (answer : Except StoreError Workload)
  | removed (answer : Except StoreError Unit)

def Request.name : Request → Text
  | contains name => name
  | load name => name
  | create w => w.name
  | update w => w.name
  | remove name => name

variable (store : Store) {files : Files} {world : World} {name leaf : Text} {w : Workload}
  {leaves : Set Text} {logs : List Text × List Text}

/-- The names of the files that belong to an object. -/
def ownLeaves (name : Text) : Set Text :=
  {leaf | Workload.isValidName name = true ∧ (leaf = fileLeaf name ∨ leaf = draftLeaf name)}

theorem isLeaf_of_mem_ownLeaves (h : leaf ∈ ownLeaves name) : IsLeaf leaf := by
  rcases h with ⟨hvalid, rfl | rfl⟩
  · exact isLeaf_fileLeaf hvalid
  · exact isLeaf_draftLeaf hvalid

/-- Some files have changed, after the directory of the store may have been made, and the log has
only grown. -/
structure Changes (leaves : Set Text) (before after : World) : Prop where
  files : before.files.ChangesOnly store.directory leaves after.files ∨
    (before.files.makeDirectories store.directory).2.ChangesOnly store.directory leaves after.files
  log : before.log <+: after.log

/-- Two worlds that a store cannot tell apart by its work on some files. Their logs have grown by
the same lines. -/
structure Alike (leaves : Set Text) (logs : List Text × List Text) (left right : World) : Prop where
  files : left.files.Alike store.directory leaves right.files
  log : ∃ lines, left.log = logs.1 ++ lines ∧ right.log = logs.2 ++ lines

def Request.perform (world : World) : Request → Reply × World
  | contains name => (.found (store.contains world.files name), world)
  | load name => (.object (store.load world.files name), world)
  | create w => ((store.create world w).map .object id)
  | update w => ((store.update world w).map .object id)
  | remove name => ((store.remove world name).map .removed id)

theorem isValidName_of_contains (h : store.contains files name = .ok true) :
    Workload.isValidName name = true := by
  by_contra hinvalid
  simp [contains, hinvalid] at h

section Changes

variable (hnul : ∀ c ∈ store.directory, c ≠ 0)

include hnul

theorem save_changesOnly (hvalid : Workload.isValidName w.name = true) (files : Files) :
    (files.makeDirectories store.directory).2.ChangesOnly store.directory (ownLeaves w.name)
      (store.save files w).2 := by
  have hdraft : draftLeaf w.name ∈ ownLeaves w.name := ⟨hvalid, Or.inr rfl⟩
  have hfile : fileLeaf w.name ∈ ownLeaves w.name := ⟨hvalid, Or.inl rfl⟩
  unfold save
  cases files.makeDirectories store.directory with
  | mk answer made =>
    cases answer with
    | error cause => exact .refl made
    | ok _ =>
      cases w.render store.format with
      | error cause => exact .refl made
      | ok content =>
        cases hwrite : made.write? (store.draft w.name) content with
        | none =>
          simp only [hwrite]
          exact .refl made
        | some written =>
          have hwritten := changesOnly_write? hnul (isLeaf_draftLeaf hvalid) hdraft hwrite
          cases hrename : written.rename? (store.draft w.name) (store.file w.name) with
          | some renamed =>
            simpa only [hwrite, hrename] using hwritten.trans (changesOnly_rename? hnul
              (isLeaf_draftLeaf hvalid) hdraft (isLeaf_fileLeaf hvalid) hfile hrename)
          | none =>
            simp only [hwrite, hrename]
            cases hremove : written.remove (store.draft w.name) with
            | error cause => exact hwritten
            | ok removed =>
              exact hwritten.trans
                (changesOnly_remove hnul (isLeaf_draftLeaf hvalid) hdraft hremove)

omit hnul in
theorem Changes.refl (world : World) : store.Changes leaves world world :=
  ⟨Or.inl (.refl world.files), List.prefix_refl world.log⟩

omit hnul in
theorem changes_note (world : World) (lines : List Text) :
    store.Changes leaves world (world.note lines) :=
  ⟨Or.inl (.refl world.files), List.prefix_append world.log lines⟩

variable {store} in
theorem Changes.confined {after : World} (h : store.Changes leaves world after) :
    world.files.Confined store.directory leaves after.files := by
  rcases h.files with hkept | hmade
  · exact hkept.confined
  · exact (confined_makeDirectories hnul world.files).trans hmade.confined

theorem put_changes (hvalid : Workload.isValidName w.name = true) (world : World) (line : Text) :
    store.Changes (ownLeaves w.name) world (store.put world w line).2 := by
  have hsave := store.save_changesOnly hnul hvalid world.files
  unfold put
  cases hsaved : store.save world.files w with
  | mk answer files =>
    rw [hsaved] at hsave
    cases answer with
    | ok _ => exact ⟨Or.inr hsave, List.prefix_append world.log [line]⟩
    | error e => exact ⟨Or.inr hsave, List.prefix_refl world.log⟩

theorem create_changes (world : World) (w : Workload) :
    store.Changes (ownLeaves w.name) world (store.create world w).2 := by
  unfold create
  split_ifs with hinvalid hnegative
  · exact .refl store world
  · exact .refl store world
  · cases store.contains world.files w.name with
    | error e => exact .refl store world
    | ok found =>
      cases found with
      | true => exact .refl store world
      | false =>
        exact store.put_changes (w := { w with version := 1 }) hnul (by simpa using hinvalid) world _

theorem update_changes (world : World) (w : Workload) :
    store.Changes (ownLeaves w.name) world (store.update world w).2 := by
  unfold update
  split_ifs with hnegative
  · exact .refl store world
  · cases hload : store.load world.files w.name with
    | error e => exact .refl store world
    | ok current =>
      dsimp only
      split_ifs with hconflict
      · exact store.changes_note world _
      · exact store.put_changes (w := { w with version := w.version + 1 }) hnul
          (store.isValidName_of_load hload) world _

theorem remove_changes (world : World) (name : Text) :
    store.Changes (ownLeaves name) world (store.remove world name).2 := by
  unfold remove
  cases hcontains : store.contains world.files name with
  | error e => exact .refl store world
  | ok found =>
    cases found with
    | false => exact .refl store world
    | true =>
      have hvalid := store.isValidName_of_contains hcontains
      dsimp only
      cases hremove : world.files.remove (store.file name) with
      | error cause => exact .refl store world
      | ok files =>
        have hmem : fileLeaf name ∈ ownLeaves name := ⟨hvalid, Or.inl rfl⟩
        exact ⟨Or.inl (changesOnly_remove hnul (isLeaf_fileLeaf hvalid) hmem hremove),
          List.prefix_append world.log _⟩

theorem Request.perform_changes (request : Request) (world : World) :
    store.Changes (ownLeaves request.name) world (request.perform store world).2 := by
  cases request with
  | contains name => exact .refl store world
  | load name => exact .refl store world
  | create w => exact store.create_changes hnul world w
  | update w => exact store.update_changes hnul world w
  | remove name => exact store.remove_changes hnul world name

end Changes

section Alike

variable {store} {left right : World} (hnul : ∀ c ∈ store.directory, c ≠ 0)
  (h : store.Alike leaves logs left right)

include h

omit h hnul in
theorem alike_of_files (h : left.files.Alike store.directory leaves right.files) :
    store.Alike leaves (left.log, right.log) left right :=
  ⟨h, [], (List.append_nil _).symm, (List.append_nil _).symm⟩

omit hnul in
theorem Alike.note (lines : List Text) :
    store.Alike leaves logs (left.note lines) (right.note lines) where
  files := h.files
  log := by
    obtain ⟨before, hleft, hright⟩ := h.log
    refine ⟨before ++ lines, ?_, ?_⟩
    · rw [World.note, hleft, List.append_assoc]
    · rw [World.note, hright, List.append_assoc]

omit hnul in
theorem Alike.withFiles {made made' : Files} (hmade : made.Alike store.directory leaves made') :
    store.Alike leaves logs { left with files := made } { right with files := made' } :=
  ⟨hmade, h.log⟩

variable (hown : ownLeaves name ⊆ leaves)

include hnul hown

theorem Alike.hasFile_eq (hvalid : Workload.isValidName name = true) :
    store.hasFile right.files name = store.hasFile left.files name := by
  have hentry := h.files.entryAt_child hnul (isLeaf_fileLeaf hvalid) (hown ⟨hvalid, Or.inl rfl⟩)
  rw [hasFile, hasFile, existsAt, existsAt, status, status, file_eq, hentry]

theorem Alike.contains_eq : store.contains right.files name = store.contains left.files name := by
  unfold contains
  split_ifs with hvalid
  · exact h.hasFile_eq hnul hown hvalid
  · rfl

theorem Alike.load_eq : store.load right.files name = store.load left.files name := by
  by_cases hvalid : Workload.isValidName name = true
  · exact store.load_congr
      (h.files.entryAt_child hnul (isLeaf_fileLeaf hvalid) (hown ⟨hvalid, Or.inl rfl⟩))
  · rw [load, load, if_pos (by simpa using hvalid), if_pos (by simpa using hvalid)]

end Alike

section Saving

variable {store} {left right : World} (hnul : ∀ c ∈ store.directory, c ≠ 0)
  (h : store.Alike leaves logs left right) (hown : ownLeaves w.name ⊆ leaves)

include hnul h hown

theorem Alike.save (hvalid : Workload.isValidName w.name = true) :
    SameOutcome (Files.Alike store.directory leaves) (store.save left.files w)
      (store.save right.files w) := by
  have hdraft := isLeaf_draftLeaf hvalid
  have hfile := isLeaf_fileLeaf hvalid
  have hdraftMem : draftLeaf w.name ∈ leaves := hown ⟨hvalid, Or.inr rfl⟩
  have hfileMem : fileLeaf w.name ∈ leaves := hown ⟨hvalid, Or.inl rfl⟩
  obtain ⟨hanswer, hmade⟩ := h.files.makeDirectories hnul
  unfold Store.save
  generalize left.files.makeDirectories store.directory = leftMade at hanswer hmade ⊢
  generalize right.files.makeDirectories store.directory = rightMade at hanswer hmade ⊢
  obtain ⟨answer, made⟩ := leftMade
  obtain ⟨answer', made'⟩ := rightMade
  dsimp only at hanswer hmade
  subst hanswer
  cases answer' with
  | error cause => exact ⟨rfl, hmade⟩
  | ok _ =>
    rw [draft_eq, file_eq]
    cases w.render store.format with
    | error cause => exact ⟨rfl, hmade⟩
    | ok content =>
      rcases rel_cases (hmade.write?_child hnul hdraft hdraftMem content) with
        ⟨hleft, hright⟩ | ⟨written, written', hleft, hright, hwritten⟩
      · simp only [hleft, hright]
        exact ⟨rfl, hmade⟩
      simp only [hleft, hright]
      rcases rel_cases (hwritten.rename?_child hnul hdraft hdraftMem hfile hfileMem) with
        ⟨hleft, hright⟩ | ⟨renamed, renamed', hleft, hright, hrenamed⟩
      · simp only [hleft, hright]
        rcases rel_cases (hwritten.remove_child hnul hdraft hdraftMem).toOption with
          ⟨hleft, hright⟩ | ⟨removed, removed', hleft, hright, hremoved⟩
        · simp only [hleft, hright]
          exact ⟨rfl, hwritten⟩
        · simp only [hleft, hright]
          exact ⟨rfl, hremoved⟩
      · simp only [hleft, hright]
        exact ⟨rfl, hrenamed⟩

theorem Alike.put (hvalid : Workload.isValidName w.name = true) (line : Text) :
    SameOutcome (store.Alike leaves logs) (store.put left w line) (store.put right w line) := by
  obtain ⟨hanswer, hsaved⟩ := h.save hnul hown hvalid
  unfold Store.put
  generalize store.save left.files w = leftSaved at hanswer hsaved ⊢
  generalize store.save right.files w = rightSaved at hanswer hsaved ⊢
  obtain ⟨answer, saved⟩ := leftSaved
  obtain ⟨answer', saved'⟩ := rightSaved
  dsimp only at hanswer hsaved
  subst hanswer
  cases answer' with
  | ok _ => exact ⟨rfl, (h.withFiles hsaved).note [line]⟩
  | error e => exact ⟨rfl, h.withFiles hsaved⟩

theorem Alike.create :
    SameOutcome (store.Alike leaves logs) (store.create left w) (store.create right w) := by
  unfold Store.create
  rw [h.contains_eq hnul hown]
  split_ifs with hinvalid hnegative
  · exact ⟨rfl, h⟩
  · exact ⟨rfl, h⟩
  · cases store.contains left.files w.name with
    | error e => exact ⟨rfl, h⟩
    | ok found =>
      cases found with
      | true => exact ⟨rfl, h⟩
      | false => exact h.put (w := { w with version := 1 }) hnul hown (by simpa using hinvalid) _

theorem Alike.update :
    SameOutcome (store.Alike leaves logs) (store.update left w) (store.update right w) := by
  unfold Store.update
  rw [h.load_eq hnul hown]
  split_ifs with hnegative
  · exact ⟨rfl, h⟩
  · cases hload : store.load left.files w.name with
    | error e => exact ⟨rfl, h⟩
    | ok current =>
      dsimp only
      split_ifs with hconflict
      · exact ⟨rfl, h.note _⟩
      · exact h.put (w := { w with version := w.version + 1 }) hnul hown
          (store.isValidName_of_load hload) _

end Saving

section Requests

variable {store} {left right : World} (hnul : ∀ c ∈ store.directory, c ≠ 0)
  (h : store.Alike leaves logs left right)

include hnul h

theorem Alike.remove (hown : ownLeaves name ⊆ leaves) :
    SameOutcome (store.Alike leaves logs) (store.remove left name) (store.remove right name) := by
  unfold Store.remove
  rw [h.contains_eq hnul hown]
  cases hcontains : store.contains left.files name with
  | error e => exact ⟨rfl, h⟩
  | ok found =>
    cases found with
    | false => exact ⟨rfl, h⟩
    | true =>
      have hvalid := store.isValidName_of_contains hcontains
      have hremove := h.files.remove_child hnul (isLeaf_fileLeaf hvalid)
        (hown ⟨hvalid, Or.inl rfl⟩)
      rw [file_eq]
      dsimp only
      generalize left.files.remove (store.directory.append (fileLeaf name)) = leftRemoved
        at hremove ⊢
      generalize right.files.remove (store.directory.append (fileLeaf name)) = rightRemoved
        at hremove ⊢
      cases hremove with
      | failed cause => exact ⟨rfl, h⟩
      | done hremoved => exact ⟨rfl, (h.withFiles hremoved).note _⟩

theorem Alike.perform (request : Request) (hown : ownLeaves request.name ⊆ leaves) :
    SameOutcome (store.Alike leaves logs) (request.perform store left)
      (request.perform store right) := by
  cases request with
  | contains name =>
    exact ⟨congrArg Reply.found (h.contains_eq hnul hown), h⟩
  | load name => exact ⟨congrArg Reply.object (h.load_eq hnul hown), h⟩
  | create w =>
    obtain ⟨hanswer, hstate⟩ := h.create hnul hown
    exact ⟨congrArg Reply.object hanswer, hstate⟩
  | update w =>
    obtain ⟨hanswer, hstate⟩ := h.update hnul hown
    exact ⟨congrArg Reply.object hanswer, hstate⟩
  | remove name =>
    obtain ⟨hanswer, hstate⟩ := h.remove hnul hown
    exact ⟨congrArg Reply.removed hanswer, hstate⟩

end Requests

end StableOrdinals.Store
