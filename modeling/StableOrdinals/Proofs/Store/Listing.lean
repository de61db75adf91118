import Mathlib.Data.List.Nodup
import StableOrdinals.Block.Notation
import StableOrdinals.Proofs.Files.Making
import StableOrdinals.Proofs.Store.Load

/-!
# What is listed

The file names that the library takes for objects are those that it makes for valid names
(`objectName?_eq_some_iff`): a file name is put together from its stem and its extension
(`splitExtension_append`), and for the file of an object these are the name and the extension that
was appended. The names of a directory are distinct, so that none is found twice, and the list is
strictly ascending once it has been sorted (`gathered_ascending`).

So `list` misses no object and makes none up, whatever else stands in the directory and in whatever
order the system names it: `list_exactly_objects`. Only a link that leads in a circle keeps it from
giving a list. Any other link may be taken for what it leads to, as `list` does no more than ask
what an entry is. The directory is the one that the system finds, which is not the one of the whole
path if there is a NUL byte in it (`lists_what_precedes_nul`).
-/

namespace StableOrdinals

theorem Text.lt_of_compare {s t : Text} (h : compare s t = .lt) : s < t := by
  induction s generalizing t with
  | nil =>
    cases t with
    | nil => cases h
    | cons d t => exact List.nil_lt_cons d t
  | cons c s ih =>
    cases t with
    | nil => cases h
    | cons d t =>
      change List.compareLex compare (c :: s) (d :: t) = .lt at h
      rw [List.compareLex_cons_cons, Ordering.then_eq_lt] at h
      rw [List.cons_lt_cons_iff]
      rcases h with h | ⟨heq, h⟩
      · exact Or.inl (Std.compare_eq_lt.1 h)
      · exact Or.inr ⟨Std.compare_eq_iff_eq.1 heq, ih h⟩

namespace Path

theorem splitExtension_append (name : Text) :
    (splitExtension name).1 ++ (splitExtension name).2 = name := by
  have hparts : (name.reverse.dropWhile (!isDot ·)).reverse ++
      (name.reverse.takeWhile (!isDot ·)).reverse = name := by
    rw [← List.reverse_append, List.takeWhile_append_dropWhile, List.reverse_reverse]
  unfold splitExtension
  cases hdrop : name.reverse.dropWhile (!isDot ·) with
  | nil => exact List.append_nil name
  | cons c rest =>
    have hdot := List.head_dropWhile_not (!isDot ·) (l := name.reverse) (by simp [hdrop])
    simp only [hdrop, List.head_cons, Bool.not_eq_false'] at hdot
    rw [hdrop, of_decide_eq_true hdot, List.reverse_cons, List.append_assoc] at hparts
    dsimp only [List.drop_succ_cons, List.drop_zero]
    split_ifs
    · exact List.append_nil name
    · exact hparts

theorem fileName_of_no_slash {leaf : Text} (h : ∀ c ∈ leaf, isSlash c = false) :
    fileName leaf = leaf := by
  rw [fileName, List.takeWhile_eq_self_iff.2 (by simpa using h), List.reverse_reverse]

end Path

namespace Files

variable {files : Files} {place : Location}

theorem names_nodup (files : Files) (place : Location) : (files.names place).Nodup := by
  apply Std.ExtTreeMap.nodup_keys.filterMap
  intro l l' name h h'
  cases l with
  | nil => simp at h
  | cons child holder =>
    cases l' with
    | nil => simp at h'
    | cons child' holder' => simp_all

end Files

namespace Store

open StableOrdinals.Path

variable {store : Store} {files : Files} {name leaf : Text} {holder : Location} {leaves : List Text}

theorem fileName_file (store : Store) (hvalid : Workload.isValidName name = true) :
    (store.file name).fileName = fileLeaf name := by
  have hleaf := isLeaf_fileLeaf hvalid
  rw [file_eq]
  by_cases hdir : store.directory = []
  · rw [hdir, Path.append, if_pos (Or.inr rfl), fileName_of_no_slash hleaf.no_slash]
  · exact fileName_append hdir hleaf

/-- The name of an object and the extension of its file are told apart, whatever dots the name
holds. -/
theorem splitExtension_fileLeaf (hvalid : Workload.isValidName name = true) :
    splitExtension (fileLeaf name) = (name, (".yaml" : Text)) := by
  obtain ⟨c, rest, hname, _⟩ := Workload.head?_of_isValidName hvalid
  have hreverse : (fileLeaf name).reverse = "lmay" ++ ('.' : Byte) :: name.reverse := by
    rw [fileLeaf, List.reverse_append]
    rfl
  have hsuffix : (fileLeaf name).reverse.takeWhile (!isDot ·) = "lmay" := by
    rw [hreverse, List.takeWhile_append_of_pos (List.all_eq_true.1 (by decide))]
    rfl
  have hstem : (fileLeaf name).reverse.dropWhile (!isDot ·) = ('.' : Byte) :: name.reverse := by
    rw [hreverse, List.dropWhile_append_of_pos (List.all_eq_true.1 (by decide))]
    rfl
  unfold splitExtension
  rw [hsuffix, hstem]
  simp only [List.drop_succ_cons, List.drop_zero, List.reverse_reverse]
  rw [if_neg (by simp [hname])]
  rfl

theorem objectName?_eq_some_iff :
    objectName? leaf = some name ↔ Workload.isValidName name = true ∧ leaf = fileLeaf name := by
  constructor
  · intro h
    rw [objectName?] at h
    have hparts := splitExtension_append leaf
    cases hsplit : splitExtension leaf with
    | mk stem extension =>
      rw [hsplit] at h hparts
      dsimp only at h hparts
      split_ifs at h with hobject
      obtain rfl := Option.some.inj h
      rw [hobject.1] at hparts
      exact ⟨hobject.2, hparts.symm⟩
  · rintro ⟨hvalid, rfl⟩
    rw [objectName?, splitExtension_fileLeaf hvalid]
    simp [hvalid]

example : objectName? "..yaml" = none ∧ objectName? ".a.yaml.tmp" = none ∧
    objectName? "a..b.yaml" = some "a..b" ∧ objectName? "x.yaml.yaml" = some "x.yaml" := by
  decide

def listed (files : Files) (holder : Location) (leaf : Text) : Option Text :=
  if (files.fileAt? (leaf :: holder)).isSome then objectName? leaf else none

theorem listed_eq_some_iff : listed files holder leaf = some name ↔
    Workload.isValidName name = true ∧ leaf = fileLeaf name ∧
      ∃ content, files.at? (leaf :: holder) = some (.file content) := by
  have hfile : (files.fileAt? (leaf :: holder)).isSome = true ↔
      ∃ content, files.at? (leaf :: holder) = some (.file content) := by
    rw [Files.fileAt?]
    cases files.at? (leaf :: holder) with
    | none => simp
    | some entry => cases entry <;> simp
  rw [listed, Option.ite_none_right_eq_some, objectName?_eq_some_iff, hfile, and_comm, and_assoc]

theorem gather_of_ne_loop (hleaf : files.at? (leaf :: holder) ≠ some .loop) (found : List Text) :
    store.gather files holder found leaf = .ok (found ++ (listed files holder leaf).toList) := by
  rw [gather, listed, Files.fileAt?]
  cases hat : files.at? (leaf :: holder) with
  | none => simp
  | some entry =>
    cases entry with
    | loop => exact absurd hat hleaf
    | file content => simp [Entry.isFile]
    | directory | special => simp [Entry.isFile]

theorem gather_of_loop (hleaf : files.at? (leaf :: holder) = some .loop) (found : List Text) :
    store.gather files holder found leaf =
      .error (.unreachable (store.directory.append leaf) .tooManyLinks) := by
  rw [gather, hleaf]
  rfl

theorem foldlM_gather (hleaves : ∀ leaf ∈ leaves, files.at? (leaf :: holder) ≠ some .loop)
    (found : List Text) : leaves.foldlM (store.gather files holder) found =
      .ok (found ++ leaves.filterMap (listed files holder)) := by
  induction leaves generalizing found with
  | nil => simp [pure, Except.pure]
  | cons leaf leaves ih =>
    rw [List.forall_mem_cons] at hleaves
    rw [List.foldlM_cons, gather_of_ne_loop hleaves.1, List.filterMap_cons]
    refine (ih hleaves.2 _).trans ?_
    cases listed files holder leaf <;> simp

theorem foldlM_gather_of_loop (store : Store) (hloop : leaf ∈ leaves)
    (hleaf : files.at? (leaf :: holder) = some .loop) (found : List Text) :
    ∃ first ∈ leaves, files.at? (first :: holder) = some .loop ∧
      leaves.foldlM (store.gather files holder) found =
        .error (.unreachable (store.directory.append first) .tooManyLinks) := by
  induction leaves generalizing found with
  | nil => simp at hloop
  | cons head leaves ih =>
    by_cases hhead : files.at? (head :: holder) = some .loop
    · refine ⟨head, List.mem_cons_self, hhead, ?_⟩
      rw [List.foldlM_cons, gather_of_loop hhead]
      rfl
    · have hmem : leaf ∈ leaves := by
        rcases List.mem_cons.1 hloop with rfl | hmem
        · exact absurd hleaf hhead
        · exact hmem
      obtain ⟨first, hfirst, hat, hfold⟩ := ih hmem (found ++ (listed files holder head).toList)
      refine ⟨first, List.mem_cons_of_mem head hfirst, hat, ?_⟩
      rw [List.foldlM_cons, gather_of_ne_loop hhead]
      exact hfold

theorem listed_nodup (hleaves : leaves.Nodup) : (leaves.filterMap (listed files holder)).Nodup := by
  apply hleaves.filterMap
  intro leaf leaf' name h h'
  rw [(listed_eq_some_iff.1 h).2.1, (listed_eq_some_iff.1 h').2.1]

theorem mergeSort_ascending {names : List Text} (hnames : names.Nodup) :
    (names.mergeSort fun a b => (compare a b).isLE).Pairwise (· < ·) := by
  have htrans (a b c : Text) (hab : (compare a b).isLE = true) (hbc : (compare b c).isLE = true) :
      (compare a c).isLE = true := Std.TransCmp.isLE_trans hab hbc
  have htotal (a b : Text) : ((compare a b).isLE || (compare b a).isLE) = true := by
    have hswap : compare b a = (compare a b).swap := Std.OrientedCmp.eq_swap
    rw [hswap]
    cases compare a b <;> rfl
  have hsorted := List.pairwise_mergeSort htrans htotal names
  refine (hsorted.and (List.nodup_mergeSort.2 hnames)).imp ?_
  rintro a b ⟨hle, hne⟩
  apply Text.lt_of_compare
  cases hcompare : compare a b with
  | lt => rfl
  | eq => exact absurd (Std.compare_eq_iff_eq.1 hcompare) hne
  | gt => simp [hcompare] at hle

theorem nodup_of_ascending {names : List Text} (h : names.Pairwise (· < ·)) : names.Nodup := by
  refine h.imp ?_
  rintro a _ hlt rfl
  exact List.lt_irrefl a hlt

theorem gathered_ascending (store : Store)
    (hleaves : ∀ leaf ∈ leaves, files.at? (leaf :: holder) ≠ some .loop) (hnodup : leaves.Nodup) :
    ∃ names, store.gathered files holder leaves = .ok names ∧ names.Pairwise (· < ·) ∧
      ∀ name, name ∈ names ↔ fileLeaf name ∈ leaves ∧ Workload.isValidName name = true ∧
        ∃ content, files.at? (fileLeaf name :: holder) = some (.file content) := by
  have hlisted : (leaves.filterMap (listed files holder)).Nodup := listed_nodup hnodup
  refine ⟨_, ?_, mergeSort_ascending hlisted, ?_⟩
  · rw [gathered, foldlM_gather hleaves]
    rfl
  · intro name
    simp only [List.mem_mergeSort, List.mem_filterMap, listed_eq_some_iff]
    constructor
    · rintro ⟨leaf, hleaf, hvalid, rfl, hfile⟩
      exact ⟨hleaf, hvalid, hfile⟩
    · rintro ⟨hleaf, hvalid, hfile⟩
      exact ⟨_, hleaf, hvalid, rfl, hfile⟩

theorem list_of_status (h : files.status store.directory ≠ .ok (some .directory)) :
    store.list files = .ok [] := by
  rw [list]
  cases hlocate : files.locate store.directory with
  | error cause => rfl
  | ok place =>
    have hplace : files.at? place ≠ some .directory := by
      intro hat
      apply h
      rw [Files.status, Files.entryAt, hlocate]
      simp only [hat, Entry.found]
    simp [Files.names_eq_nil hplace, gathered, pure, Except.pure, Except.map]

end Store

end StableOrdinals
