import Mathlib.Tactic.ByContra
import StableOrdinals.Proofs.Files.Children
import StableOrdinals.Store

/-!
# What is loaded

The file of an object and its draft are children of the directory of the store, and no draft bears
the name of an object's file. What is loaded under a name depends on the entry at the object's file
alone (`load_congr`, `load_of_at?_eq`), and what was written there is loaded as it was if the format
reads it back (`load_of_entryAt`).
-/

namespace StableOrdinals

open StableOrdinals.Path

theorem Workload.isLeafByte_of_isNameByte {c : Byte} (h : isNameByte c = true) :
    isLeafByte c = true := by
  have hslash : c ≠ '/' := by
    rintro rfl
    revert h
    decide
  have hnul : c ≠ 0 := by
    rintro rfl
    revert h
    decide
  simp [isLeafByte, isSlash, hslash, hnul]

theorem Workload.all_isLeafByte {name : Text} (h : isValidName name = true) :
    name.all isLeafByte = true := by
  rw [isValidName, Bool.and_eq_true, List.all_eq_true] at h
  rw [List.all_eq_true]
  exact fun c hc => isLeafByte_of_isNameByte (h.2 c hc)

theorem Workload.head?_of_isValidName {name : Text} (h : isValidName name = true) :
    ∃ c rest, name = c :: rest ∧ c ≠ '.' := by
  simp only [isValidName, Bool.and_eq_true, decide_eq_true_eq] at h
  obtain ⟨⟨hne, hhead⟩, _⟩ := h
  cases name with
  | nil => exact absurd rfl hne
  | cons c rest => exact ⟨c, rest, rfl, fun hc => hhead (by rw [hc, List.head?_cons])⟩

namespace Store

variable (store : Store) {files files' : Files} {name : Text} {w current : Workload} {holder : Location}

def fileLeaf (name : Text) : Text := name ++ ".yaml"

def draftLeaf (name : Text) : Text := "." ++ name ++ ".yaml.tmp"

theorem file_eq (name : Text) : store.file name = store.directory.append (fileLeaf name) := rfl

theorem draft_eq (name : Text) : store.draft name = store.directory.append (draftLeaf name) := rfl

theorem isLeaf_of_bytes (before after : Text) (h : Workload.isValidName name = true)
    (hbefore : before.all isLeafByte = true) (hafter : after.all isLeafByte = true)
    (hlength : 2 < (before ++ name ++ after).length) : IsLeaf (before ++ name ++ after) where
  isName := by
    simp only [Path.isName, Bool.and_eq_true, decide_eq_true_eq]
    refine ⟨⟨?_, ?_⟩, ?_⟩ <;> intro heq <;> rw [heq] at hlength <;> revert hlength <;> decide
  bytes := by
    rw [List.all_append, List.all_append, hbefore, Workload.all_isLeafByte h, hafter]
    rfl

theorem isLeaf_fileLeaf (h : Workload.isValidName name = true) : IsLeaf (fileLeaf name) := by
  apply isLeaf_of_bytes [] _ h rfl (by decide)
  have : (".yaml" : Text).length = 5 := by decide
  simp only [List.length_append, this]
  omega

theorem isLeaf_draftLeaf (h : Workload.isValidName name = true) : IsLeaf (draftLeaf name) := by
  apply isLeaf_of_bytes _ _ h (by decide) (by decide)
  have : (".yaml.tmp" : Text).length = 9 := by decide
  simp only [List.length_append, this]
  omega

theorem length_fileLeaf_le (name : Text) : (fileLeaf name).length ≤ (draftLeaf name).length := by
  have hfile : (".yaml" : Text).length = 5 := by decide
  have hdraft : (".yaml.tmp" : Text).length = 9 := by decide
  simp only [fileLeaf, draftLeaf, List.length_append, hfile, hdraft]
  omega

/-- No object's file bears the name of a draft, which starts with a dot. -/
theorem draftLeaf_ne_fileLeaf (h : Workload.isValidName name = true) (other : Text) :
    draftLeaf other ≠ fileLeaf name := by
  obtain ⟨c, rest, rfl, hc⟩ := Workload.head?_of_isValidName h
  intro heq
  exact hc (List.cons.inj heq).1.symm

theorem fileLeaf_injective {other : Text} (h : fileLeaf name = fileLeaf other) : name = other :=
  List.append_cancel_right h

theorem load_congr
    (h : files'.entryAt (store.file name) = files.entryAt (store.file name)) :
    store.load files' name = store.load files name := by
  unfold load hasFile loadFile Files.existsAt Files.status Files.read?
  simp only [h]

theorem load_of_entryAt (hname : Workload.isValidName w.name = true)
    (hback : store.format.ReadsBack w) {content : Text} (hcontent : w.render store.format = .ok content)
    (h : files.entryAt (store.file w.name) = .ok (.file content)) :
    store.load files w.name = .ok w := by
  have hhas : store.hasFile files w.name = .ok true := by
    rw [hasFile, Files.existsAt, Files.status, h]
    rfl
  have hread : files.read? (store.file w.name) = some content := by
    rw [Files.read?, h]
    rfl
  obtain ⟨document, hdocument, hobject⟩ := hback content hcontent
  unfold load
  rw [if_neg (by simp [hname]), hhas]
  simp only [loadFile, hread, hdocument, Except.bind, hobject, if_true]

theorem isValidName_of_load (h : store.load files name = .ok w) :
    Workload.isValidName name = true := by
  by_contra hname
  rw [load, if_pos (by simpa using hname)] at h
  cases h

theorem loadFile_of_load (h : store.load files name = .ok w) :
    store.hasFile files name = .ok true ∧ store.loadFile files name = .ok w := by
  rw [load, if_neg (by simp [store.isValidName_of_load h])] at h
  cases hhas : store.hasFile files name with
  | error e => simp [hhas] at h
  | ok found =>
    cases found with
    | false => simp [hhas] at h
    | true => exact ⟨rfl, by simpa only [hhas] using h⟩

theorem name_of_load (h : store.load files name = .ok w) : w.name = name := by
  have hfile := (store.loadFile_of_load h).2
  unfold loadFile at hfile
  cases hread : files.read? (store.file name) with
  | none => simp [hread] at hfile
  | some content =>
    simp only [hread] at hfile
    cases hobject : (store.format.read content).bind (Workload.ofDocument name) with
    | error cause => simp [hobject] at hfile
    | ok found =>
      simp only [hobject] at hfile
      split at hfile
      · obtain rfl := Except.ok.inj hfile
        assumption
      · cases hfile

/-- The file of an object counts as there only if it can be told what stands there. -/
theorem entryAt_of_hasFile (h : store.hasFile files name = .ok true) :
    ∃ entry, files.entryAt (store.file name) = .ok entry := by
  unfold hasFile Files.existsAt Files.status at h
  cases hentry : files.entryAt (store.file name) with
  | ok entry => exact ⟨entry, rfl⟩
  | error cause =>
    rw [hentry] at h
    cases habsence : cause.isAbsence <;> simp [habsence, Except.map, Except.mapError] at h

theorem entryAt_of_load (h : store.load files name = .ok w) :
    ∃ entry, files.entryAt (store.file name) = .ok entry :=
  store.entryAt_of_hasFile (store.loadFile_of_load h).1

theorem isDirectory_of_load (hplain : IsPlain store.directory)
    (h : store.load files name = .ok w) : ∃ holder, files.IsDirectory store.directory holder := by
  obtain ⟨entry, hentry⟩ := store.entryAt_of_load h
  obtain ⟨place, hlocate, _⟩ := Files.exists_of_entryAt hentry
  obtain ⟨holder, hholder, _⟩ :=
    Files.isDirectory_of_locate hplain (isLeaf_fileLeaf (store.isValidName_of_load h)) hlocate
  exact ⟨holder, hholder⟩

/-- What is loaded depends on the entry at the object's file alone. -/
theorem load_of_at?_eq (h : files.IsDirectory store.directory holder)
    (h' : files'.IsDirectory store.directory holder)
    (hat : Workload.isValidName name = true →
      files'.at? (fileLeaf name :: holder) = files.at? (fileLeaf name :: holder)) :
    store.load files' name = store.load files name := by
  by_cases hname : Workload.isValidName name = true
  · have hleaf := isLeaf_fileLeaf hname
    apply store.load_congr
    rw [file_eq, h'.entryAt_append hleaf, h.entryAt_append hleaf, hat hname]
  · rw [load, load, if_pos (by simpa using hname), if_pos (by simpa using hname)]

end Store

end StableOrdinals
