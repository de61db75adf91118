import Mathlib.Logic.Function.Basic
import StableOrdinals.Proofs.Store.Listing
import StableOrdinals.Proofs.Store.Outcomes

/-!
# What a store holds

`Holds` relates the directory of a store to the objects in it: each stands in the file that bears
its name, as it was saved and as it is read back, and nothing else stands there. The directory need
not be there as long as there are no objects.

The three ways to look at a store then agree with the objects and so with each other:
`load_eq_ok_iff`, `contains_eq_ok_iff` and `list_eq`. Creating, updating and removing an object
changes the objects at its name if it succeeds, and leaves them as they are if it fails.
-/

namespace StableOrdinals

namespace Store

open StableOrdinals.Path

abbrev Objects := Text → Option Workload

variable (store : Store)

structure IsStored (files : Files) (w : Workload) : Prop where
  valid : Workload.isValidName w.name = true
  short : Files.IsShort store.directory (draftLeaf w.name)
  directory : files.IsDirectory store.directory (files.target store.directory)
  readsBack : store.format.ReadsBack w
  at? : ∃ content, w.render store.format = .ok content ∧
    files.at? (fileLeaf w.name :: files.target store.directory) = some (.file content)

structure Holds (files : Files) (objects : Objects) : Prop where
  object : ∀ name w, objects name = some w → w.name = name ∧ store.IsStored files w
  only : ∀ leaf, files.at? (leaf :: files.target store.directory) ≠ none →
    ∃ name w, objects name = some w ∧ leaf = fileLeaf name

/-- Making the directory of the store puts nothing into it. -/
def StaysEmpty (files : Files) : Prop :=
  ∀ leaf, (files.makeDirectories store.directory).2.at? (leaf :: files.target store.directory) =
    files.at? (leaf :: files.target store.directory)

variable {store}
variable {files files' made : Files} {objects : Objects} {name leaf : Text} {w v stored : Workload}
  {world world' : World} {holder : Location}

theorem target_of_isDirectory (h : files.IsDirectory store.directory holder) :
    files.target store.directory = holder :=
  (Files.eq_target_of_locate h.locate).symm

theorem target_of_keepsDirectories (h : Files.KeepsDirectories files files') :
    files'.target store.directory = files.target store.directory :=
  Files.target_congr h.here _

theorem IsStored.of_keepsDirectories (h : store.IsStored files w)
    (hkeeps : Files.KeepsDirectories files files')
    (hat : files'.at? (fileLeaf w.name :: files.target store.directory) =
      files.at? (fileLeaf w.name :: files.target store.directory)) : store.IsStored files' w where
  valid := h.valid
  short := h.short
  directory := by
    rw [target_of_keepsDirectories hkeeps]
    exact h.directory.of_keepsDirectories hkeeps
  readsBack := h.readsBack
  at? := by
    rw [target_of_keepsDirectories hkeeps, hat]
    exact h.at?

theorem IsStored.load_eq (h : store.IsStored files w) : store.load files w.name = .ok w := by
  have hshort := h.short.of_length_le h.directory.plain.ne_nil (isLeaf_draftLeaf h.valid)
    (isLeaf_fileLeaf h.valid) (length_fileLeaf_le w.name)
  obtain ⟨content, hcontent, hat⟩ := h.at?
  apply store.load_of_entryAt h.valid h.readsBack hcontent
  rw [file_eq, h.directory.entryAt_append (isLeaf_fileLeaf h.valid), if_pos hshort, hat]
  rfl

theorem holds_none (h : ∀ leaf, files.at? (leaf :: files.target store.directory) = none) :
    store.Holds files fun _ => none where
  object := nofun
  only leaf hleaf := absurd (h leaf) hleaf

theorem Holds.of_keepsDirectories (h : store.Holds files objects)
    (hkeeps : Files.KeepsDirectories files files')
    (hat : ∀ leaf, files'.at? (leaf :: files.target store.directory) =
      files.at? (leaf :: files.target store.directory)) : store.Holds files' objects where
  object name w hobject := by
    obtain ⟨hname, hstored⟩ := h.object name w hobject
    exact ⟨hname, hstored.of_keepsDirectories hkeeps (hat _)⟩
  only leaf hleaf := by
    rw [target_of_keepsDirectories hkeeps, hat] at hleaf
    exact h.only leaf hleaf

theorem Holds.load_eq (h : store.Holds files objects) (hobject : objects name = some w) :
    store.load files name = .ok w := by
  obtain ⟨rfl, hstored⟩ := h.object name w hobject
  exact hstored.load_eq

section Views

variable (h : store.Holds files objects)

include h

theorem Holds.object_of_entryAt (hplain : IsPlain store.directory)
    (hvalid : Workload.isValidName name = true) {entry : Entry}
    (hentry : files.entryAt (store.file name) = .ok entry) : ∃ w, objects name = some w := by
  obtain ⟨place, hlocate, hat⟩ := Files.exists_of_entryAt hentry
  obtain ⟨holder, hholder, rfl⟩ :=
    Files.isDirectory_of_locate hplain (isLeaf_fileLeaf hvalid) hlocate
  have hne : files.at? (fileLeaf name :: files.target store.directory) ≠ none := by
    rw [target_of_isDirectory hholder, hat]
    exact Option.some_ne_none entry
  obtain ⟨found, w, hobject, hleaf⟩ := h.only _ hne
  rw [fileLeaf_injective hleaf]
  exact ⟨w, hobject⟩

theorem Holds.load_eq_ok_iff (hplain : IsPlain store.directory) :
    store.load files name = .ok w ↔ objects name = some w := by
  refine ⟨?_, h.load_eq⟩
  intro hload
  obtain ⟨entry, hentry⟩ := store.entryAt_of_load hload
  obtain ⟨found, hobject⟩ :=
    h.object_of_entryAt hplain (store.isValidName_of_load hload) hentry
  rw [hobject, Except.ok.inj ((h.load_eq hobject).symm.trans hload)]

theorem Holds.contains_eq_ok_iff (hplain : IsPlain store.directory) :
    store.contains files name = .ok true ↔ ∃ w, objects name = some w := by
  constructor
  · intro hcontains
    rw [contains] at hcontains
    split_ifs at hcontains with hvalid
    · obtain ⟨entry, hentry⟩ := store.entryAt_of_hasFile hcontains
      exact h.object_of_entryAt hplain hvalid hentry
    · cases hcontains
  · rintro ⟨w, hobject⟩
    have hload := h.load_eq hobject
    rw [contains, if_pos (store.isValidName_of_load hload), (store.loadFile_of_load hload).1]

theorem Holds.file_of_at? {entry : Entry}
    (hat : files.at? (leaf :: files.target store.directory) = some entry) :
    ∃ name w content, objects name = some w ∧ leaf = fileLeaf name ∧ entry = .file content := by
  obtain ⟨name, w, hobject, rfl⟩ := h.only leaf (by simp [hat])
  obtain ⟨rfl, hstored⟩ := h.object name w hobject
  obtain ⟨content, _, hfile⟩ := hstored.at?
  exact ⟨w.name, w, content, hobject, rfl, Option.some.inj (hat.symm.trans hfile)⟩

theorem Holds.list_eq : ∃ names, store.list files = .ok names ∧ names.Pairwise (· < ·) ∧
    ∀ name, name ∈ names ↔ ∃ w, objects name = some w := by
  cases hlocate : files.locate store.directory with
  | error cause =>
    refine ⟨[], by simp only [list, hlocate], .nil, ?_⟩
    intro name
    simp only [List.not_mem_nil, false_iff, not_exists]
    intro w hobject
    have hlocated := (h.object name w hobject).2.directory.locate
    rw [hlocate] at hlocated
    cases hlocated
  | ok place =>
    obtain rfl := Files.eq_target_of_locate hlocate
    have hloop : ∀ leaf ∈ files.names (files.target store.directory),
        files.at? (leaf :: files.target store.directory) ≠ some .loop := by
      intro leaf _ hat
      obtain ⟨_, _, _, _, _, hentry⟩ := h.file_of_at? hat
      cases hentry
    obtain ⟨names, hnames, hascending, hmem⟩ :=
      gathered_ascending store hloop (files.names_nodup _)
    refine ⟨names, by simp only [list, hlocate, hnames], hascending, ?_⟩
    intro name
    rw [hmem]
    constructor
    · rintro ⟨_, _, content, hat⟩
      obtain ⟨found, w, _, hobject, hleaf, _⟩ := h.file_of_at? hat
      rw [fileLeaf_injective hleaf]
      exact ⟨w, hobject⟩
    · rintro ⟨w, hobject⟩
      obtain ⟨rfl, hstored⟩ := h.object name w hobject
      obtain ⟨content, _, hat⟩ := hstored.at?
      exact ⟨Files.mem_names_iff.2 (by simp [hat]), hstored.valid, content, hat⟩

end Views

theorem update_eq_some_iff {other : Text} {found : Option Workload} :
    Function.update objects name found other = some v ↔
      other = name ∧ found = some v ∨ other ≠ name ∧ objects other = some v := by
  by_cases hother : other = name
  · subst hother
    simp
  · simp [hother]

section Saving

theorem Holds.makeDirectories (h : store.Holds files objects) (hempty : store.StaysEmpty files) :
    store.Holds (files.makeDirectories store.directory).2 objects := by
  by_cases hsome : ∃ name w, objects name = some w
  · obtain ⟨name, w, hobject⟩ := hsome
    rw [makeDirectories_of_isDirectory (h.object name w hobject).2.directory]
    exact h
  · obtain rfl : objects = fun _ => none := by
      funext name
      cases hobject : objects name with
      | none => rfl
      | some w => exact absurd ⟨name, w, hobject⟩ hsome
    apply holds_none
    intro leaf
    have hhere := (Files.addsDirectories_makeDirectories files store.directory).here
    rw [Files.target_congr hhere, hempty leaf]
    by_contra hne
    obtain ⟨name, w, hobject, _⟩ := h.only leaf hne
    cases hobject

theorem Holds.of_saved_error {e : StoreError} (h : store.Holds made objects)
    (hsaved : store.Saved w made (.error e) files) : store.Holds files objects := by
  cases hsaved with
  | refused cause => exact h
  | @draftLost holder after cause directory short same at? =>
    obtain rfl := target_of_isDirectory directory
    constructor
    · intro name v hobject
      obtain ⟨rfl, hstored⟩ := h.object name v hobject
      refine ⟨rfl, hstored.of_keepsDirectories same.keepsDirectories ?_⟩
      have hne := draftLeaf_ne_fileLeaf hstored.valid w.name
      rw [at?, if_neg (by simpa using hne.symm)]
    · intro leaf hleaf
      rw [target_of_keepsDirectories same.keepsDirectories, at?] at hleaf
      split_ifs at hleaf with hdraft
      · exact absurd rfl hleaf
      · exact h.only leaf hleaf

theorem Holds.of_saved_ok (h : store.Holds made objects)
    (hvalid : Workload.isValidName w.name = true) (hback : store.format.ReadsBack w)
    (hsaved : store.Saved w made (.ok ()) files) :
    store.Holds files (Function.update objects w.name (some w)) := by
  cases hsaved with
  | @stored holder after content rendered directory short same at? =>
    have htarget : files.target store.directory = made.target store.directory :=
      target_of_keepsDirectories same.keepsDirectories
    obtain rfl := target_of_isDirectory directory
    constructor
    · intro name v hobject
      rcases update_eq_some_iff.1 hobject with ⟨rfl, hv⟩ | ⟨hne, hobject⟩
      · obtain rfl := Option.some.inj hv
        refine ⟨rfl, hvalid, short, ?_, hback, content, rendered, ?_⟩
        · rw [htarget]
          exact directory.of_sameDirectories same
        · have hdraft := draftLeaf_ne_fileLeaf hvalid w.name
          rw [htarget, at?, if_neg (by simpa using hdraft.symm), if_pos rfl]
      · obtain ⟨rfl, hstored⟩ := h.object name v hobject
        refine ⟨rfl, hstored.of_keepsDirectories same.keepsDirectories ?_⟩
        have hdraft := draftLeaf_ne_fileLeaf hstored.valid w.name
        have hfile : fileLeaf v.name ≠ fileLeaf w.name := fun heq => hne (fileLeaf_injective heq)
        rw [at?, if_neg (by simpa using hdraft.symm), if_neg (by simpa using hfile)]
    · intro leaf hleaf
      rw [htarget, at?] at hleaf
      split_ifs at hleaf with hdraft hfile
      · exact absurd rfl hleaf
      · exact ⟨w.name, w, Function.update_self .., (List.cons.inj hfile).1⟩
      · obtain ⟨name, v, hobject, rfl⟩ := h.only leaf hleaf
        have hne : name ≠ w.name := by
          rintro rfl
          exact hfile rfl
        exact ⟨name, v, update_eq_some_iff.2 (Or.inr ⟨hne, hobject⟩), rfl⟩

variable (h : store.Holds files objects) (hempty : store.StaysEmpty files)
  (hplain : IsPlain store.directory) (hvalid : Workload.isValidName w.name = true)

include h hempty hplain hvalid

theorem Holds.save_error {e : StoreError} (hsave : store.save files w = (.error e, files')) :
    store.Holds files' objects := by
  have hsaved := store.saved_of_isPlain hplain hvalid files
  rw [hsave] at hsaved
  exact (h.makeDirectories hempty).of_saved_error hsaved

theorem Holds.save_ok (hback : store.format.ReadsBack w)
    (hsave : store.save files w = (.ok (), files')) :
    store.Holds files' (Function.update objects w.name (some w)) := by
  have hsaved := store.saved_of_isPlain hplain hvalid files
  rw [hsave] at hsaved
  exact (h.makeDirectories hempty).of_saved_ok hvalid hback hsaved

end Saving

section Operations

variable (h : store.Holds world.files objects) (hplain : IsPlain store.directory)

include h

theorem Holds.remove_error {e : StoreError} (hremove : store.remove world name = (.error e, world')) :
    store.Holds world'.files objects := by
  rcases store.remove_cases world name with ⟨_, hfiles⟩ | ⟨_, hanswer, _⟩
  · rw [hremove] at hfiles
    rw [hfiles]
    exact h
  · rw [hremove] at hanswer
    cases hanswer

include hplain

theorem Holds.remove_ok (hremove : store.remove world name = (.ok (), world')) :
    (∃ w, objects name = some w) ∧
      store.Holds world'.files (Function.update objects name none) := by
  rcases store.remove_cases world name with ⟨⟨e, herror⟩, _⟩ | ⟨hvalid, _, hfiles⟩
  · rw [hremove] at herror
    cases herror
  · rw [hremove] at hfiles
    obtain ⟨holder, hholder, hdelete⟩ :=
      Files.delete?_of_remove hplain (isLeaf_fileLeaf hvalid) hfiles
    obtain rfl := target_of_isDirectory hholder
    obtain ⟨found, w, hobject, hleaf⟩ := h.only _ (Files.delete?_eq_some_iff.1 hdelete).2.1
    obtain rfl := fileLeaf_injective hleaf
    obtain ⟨rfl, hstored⟩ := h.object name w hobject
    obtain ⟨content, _, hat⟩ := hstored.at?
    have hsame := Files.sameDirectories_delete? hdelete (by simp [hat])
    refine ⟨⟨w, hobject⟩, ?_, ?_⟩
    · intro other v hother
      rcases update_eq_some_iff.1 hother with ⟨_, hv⟩ | ⟨hne, hother⟩
      · cases hv
      · obtain ⟨rfl, hkept⟩ := h.object other v hother
        refine ⟨rfl, hkept.of_keepsDirectories hsame.keepsDirectories ?_⟩
        have hfile : fileLeaf v.name ≠ fileLeaf w.name := fun heq => hne (fileLeaf_injective heq)
        rw [Files.at?_delete? hdelete, if_neg (by simpa using hfile)]
    · intro leaf hleaf
      rw [target_of_keepsDirectories hsame.keepsDirectories, Files.at?_delete? hdelete] at hleaf
      split_ifs at hleaf with hfile
      · exact absurd rfl hleaf
      · obtain ⟨other, v, hother, rfl⟩ := h.only leaf hleaf
        have hne : other ≠ w.name := by
          rintro rfl
          exact hfile rfl
        exact ⟨other, v, update_eq_some_iff.2 (Or.inr ⟨hne, hother⟩), rfl⟩

variable (hempty : store.StaysEmpty world.files)

include hempty

theorem Holds.savesAtMost_error {e : StoreError}
    (hsaves : store.SavesAtMost name world.files (.error e) files') : store.Holds files' objects := by
  rcases hsaves with ⟨_, _, rfl⟩ | ⟨stored, rfl, hvalid, hanswer, rfl⟩
  · exact h
  · exact h.save_error hempty hplain hvalid (Prod.ext (error_of_map_error hanswer.symm) rfl)

theorem Holds.create_error {e : StoreError} (hcreate : store.create world w = (.error e, world')) :
    store.Holds world'.files objects := by
  have hsaves := store.create_savesAtMost world w
  rw [hcreate] at hsaves
  exact h.savesAtMost_error hplain hempty hsaves

theorem Holds.update_error {e : StoreError} (hupdate : store.update world w = (.error e, world')) :
    store.Holds world'.files objects := by
  have hsaves := store.update_savesAtMost world w
  rw [hupdate] at hsaves
  exact h.savesAtMost_error hplain hempty hsaves

theorem Holds.create_ok (hcreate : store.create world w = (.ok stored, world'))
    (hback : store.format.ReadsBack stored) :
    objects w.name = none ∧ 0 ≤ w.replicas.toInt ∧ stored = { w with version := 1 } ∧
      store.Holds world'.files (Function.update objects w.name (some stored)) := by
  obtain ⟨hvalid, hreplicas, rfl, hsave⟩ := store.save_of_create_ok hcreate
  have hheld := h.save_ok (w := { w with version := 1 }) hempty hplain hvalid hback hsave
  refine ⟨?_, hreplicas, rfl, hheld⟩
  cases hobject : objects w.name with
  | none => rfl
  | some current =>
    obtain ⟨e, herror⟩ := store.create_of_load (h.load_eq hobject)
    rw [herror] at hcreate
    cases hcreate

theorem Holds.update_ok (hupdate : store.update world w = (.ok stored, world'))
    (hback : store.format.ReadsBack stored) :
    ∃ current, objects w.name = some current ∧ current.version = w.version ∧ 0 ≤ w.replicas.toInt ∧
      stored = { w with version := w.version + 1 } ∧
      store.Holds world'.files (Function.update objects w.name (some stored)) := by
  have hreplicas := store.replicas_of_update_ok hupdate
  obtain ⟨current, hload, hversion, rfl, hsave⟩ := store.save_of_update_ok hupdate
  have hheld := h.save_ok (w := { w with version := w.version + 1 }) hempty hplain
    (store.isValidName_of_load hload) hback hsave
  exact ⟨current, (h.load_eq_ok_iff hplain).1 hload, hversion, hreplicas, rfl, hheld⟩

end Operations

end Store

end StableOrdinals
