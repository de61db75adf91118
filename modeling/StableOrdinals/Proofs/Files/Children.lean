import StableOrdinals.Proofs.Files.Tree

/-!
# Files in a directory

A path that is a directory's path with one name behind it leads to that name in the directory, if it
leads anywhere: `locate_append`. Once the directory stands (`IsDirectory`), whether it leads there
is a matter of lengths, and files are written and removed without any other entry being touched.

The path of a directory counts as plain if it is not empty and holds no NUL byte, since the system
does not see what is appended behind one.
-/

namespace StableOrdinals

theorem Text.beforeNul_append {s : Text} (h : (0 : Byte) ∈ s) (t : Text) :
    beforeNul (s ++ t) = beforeNul s := by
  induction s with
  | nil => simp at h
  | cons c s ih =>
    by_cases hc : c = 0
    · simp [beforeNul, hc]
    · have hs : beforeNul (s ++ t) = beforeNul s := ih (by simpa [Ne.symm hc] using h)
      rw [List.cons_append, beforeNul, beforeNul, List.takeWhile_cons_of_pos (by simpa using hc),
        List.takeWhile_cons_of_pos (by simpa using hc)]
      exact congrArg _ hs

namespace Path

def isLeafByte (c : Byte) : Bool := !isSlash c && c ≠ 0

/-- A component that stands for an entry and that the system sees in full. -/
structure IsLeaf (leaf : Text) : Prop where
  isName : isName leaf = true
  bytes : leaf.all isLeafByte = true

structure IsPlain (directory : Path) : Prop where
  ne_nil : directory ≠ []
  no_nul : ∀ c ∈ directory, c ≠ 0

variable {directory : Path} {leaf : Text}

theorem isPlain_of_all (hne : directory ≠ []) (hall : directory.all (· ≠ 0) = true) :
    IsPlain directory :=
  ⟨hne, fun c hc => of_decide_eq_true (List.all_eq_true.1 hall c hc)⟩

theorem IsLeaf.no_slash (h : IsLeaf leaf) : ∀ c ∈ leaf, isSlash c = false := by
  intro c hc
  have hbyte := List.all_eq_true.1 h.bytes c hc
  simp only [isLeafByte, Bool.and_eq_true, Bool.not_eq_true'] at hbyte
  exact hbyte.1

theorem IsLeaf.no_nul (h : IsLeaf leaf) : ∀ c ∈ leaf, c ≠ 0 := by
  intro c hc
  have hbyte := List.all_eq_true.1 h.bytes c hc
  simp only [isLeafByte, Bool.and_eq_true, decide_eq_true_eq] at hbyte
  exact hbyte.2

theorem IsLeaf.ne_nil (h : IsLeaf leaf) : leaf ≠ [] := by
  have := h.isName
  simp only [Path.isName, Bool.and_eq_true, decide_eq_true_eq] at this
  exact this.1.1

theorem IsLeaf.ne_dots (h : IsLeaf leaf) : leaf ≠ "." ∧ leaf ≠ ".." := by
  have := h.isName
  simp only [Path.isName, Bool.and_eq_true, decide_eq_true_eq] at this
  exact ⟨this.1.2, this.2⟩

theorem IsLeaf.not_isAbsolute (h : IsLeaf leaf) : Path.isAbsolute leaf = false := by
  cases leaf with
  | nil => rfl
  | cons c leaf =>
    have hc := h.no_slash c (by simp)
    simpa [Path.isAbsolute, isSlash] using hc

/-- The components of a directory stand in front of the name, or there is an empty one in between
that the name takes the place of. -/
theorem components_append (hdir : directory ≠ []) (h : IsLeaf leaf) :
    components (directory.append leaf) = components directory ++ [leaf] ∨
      ∃ before, components directory = before ++ [[]] ∧
        components (directory.append leaf) = before ++ [leaf] := by
  have hleaf : components leaf = [leaf] := Text.split_of_forall h.no_slash
  have habs := h.not_isAbsolute
  by_cases hlast : directory.getLast? = some ('/' : Byte)
  · obtain ⟨before, rfl⟩ := List.getLast?_eq_some_iff.1 hlast
    refine Or.inr ⟨components before, ?_, ?_⟩
    · exact Text.split_append_cons (by decide) before []
    · rw [Path.append, if_neg (by simp [habs]), if_pos hlast, List.append_assoc]
      change Text.split _ (before ++ ('/' : Byte) :: leaf) = _
      rw [Text.split_append_cons (by decide)]
      exact congrArg _ hleaf
  · refine Or.inl ?_
    rw [Path.append, if_neg (by simp [habs, hdir]), if_neg hlast, List.append_assoc]
    change Text.split _ (directory ++ ('/' : Byte) :: leaf) = _
    rw [Text.split_append_cons (by decide)]
    exact congrArg _ hleaf

theorem append_eq (hdir : directory ≠ []) : ∃ between : Text, (∀ c ∈ between, c ≠ 0) ∧
    ∀ leaf, IsLeaf leaf → directory.append leaf = directory ++ between ++ leaf := by
  by_cases hlast : directory.getLast? = some ('/' : Byte)
  · refine ⟨[], by simp, ?_⟩
    intro leaf h
    rw [Path.append, if_neg (by simp [h.not_isAbsolute, hdir]), if_pos hlast, List.append_nil]
  · refine ⟨[('/' : Byte)], List.forall_mem_singleton.2 (by decide), ?_⟩
    intro leaf h
    rw [Path.append, if_neg (by simp [h.not_isAbsolute, hdir]), if_neg hlast]
    rfl

theorem beforeNul_append_of_nul (hdir : (0 : Byte) ∈ directory) (h : IsLeaf leaf) :
    Text.beforeNul (directory.append leaf) = Text.beforeNul directory := by
  obtain ⟨between, _, heq⟩ := append_eq (List.ne_nil_of_mem hdir)
  rw [heq leaf h, List.append_assoc, Text.beforeNul_append hdir]

theorem beforeNul_append (hdir : IsPlain directory) (h : IsLeaf leaf) :
    Text.beforeNul (directory.append leaf) = directory.append leaf := by
  obtain ⟨between, hbetween, heq⟩ := append_eq hdir.ne_nil
  apply Text.beforeNul_of_forall
  intro c hc
  rw [heq leaf h, List.mem_append, List.mem_append] at hc
  rcases hc with (hc | hc) | hc
  · exact hdir.no_nul c hc
  · exact hbetween c hc
  · exact h.no_nul c hc

theorem length_append (hdir : directory ≠ []) (h : IsLeaf leaf) :
    directory.length ≤ (directory.append leaf).length := by
  obtain ⟨between, _, heq⟩ := append_eq hdir
  rw [heq leaf h]
  simp only [List.length_append]
  omega

theorem isAbsolute_append (hdir : directory ≠ []) (h : IsLeaf leaf) :
    (directory.append leaf).isAbsolute = directory.isAbsolute := by
  obtain ⟨between, _, heq⟩ := append_eq hdir
  rw [heq leaf h]
  cases directory with
  | nil => exact absurd rfl hdir
  | cons c directory => rfl

end Path

namespace Files

open StableOrdinals.Path

variable {files files' : Files} {directory : Path} {leaf : Text} {holder : Location}

theorem step_step_nil (files : Files) (place : Location) (leaf : Text) :
    (files.step place [] >>= fun next => files.step next leaf) = files.step place leaf := by
  cases hat : files.at? place with
  | none => simp [step, hat, Bind.bind, Except.bind]
  | some entry => cases entry <;> simp [step, hat, Bind.bind, Except.bind]

theorem locate_append (files : Files) (hdir : IsPlain directory) (h : IsLeaf leaf) :
    files.locate (directory.append leaf) =
      if longestPath < (directory.append leaf).length then .error .nameTooLong
      else files.locate directory >>= fun place => files.step place leaf := by
  have hne : directory.append leaf ≠ [] := by
    obtain ⟨between, _, heq⟩ := append_eq hdir.ne_nil
    simp [heq leaf h, hdir.ne_nil]
  have horigin : files.origin (directory.append leaf) = files.origin directory := by
    rw [origin, origin, isAbsolute_append hdir.ne_nil h]
  rw [locate, beforeNul_append hdir h]
  by_cases hlong : longestPath < (directory.append leaf).length
  · simp only [if_neg hne, if_pos hlong]
  · have hshort : ¬ longestPath < directory.length := by
      have := length_append hdir.ne_nil h
      omega
    have hlocate : files.locate directory =
        (components directory).foldlM files.step (files.origin directory) := by
      rw [locate, Text.beforeNul_of_forall hdir.no_nul]
      simp only [if_neg hdir.ne_nil, if_neg hshort]
    simp only [if_neg hne, if_neg hlong, horigin, hlocate]
    rcases components_append hdir.ne_nil h with hc | ⟨before, hd, hc⟩
    · rw [hc, List.foldlM_append]
      simp only [List.foldlM_cons, List.foldlM_nil, bind_pure]
    · rw [hc, hd, List.foldlM_append, List.foldlM_append, bind_assoc]
      simp only [List.foldlM_cons, List.foldlM_nil, bind_pure, step_step_nil]

/-- A plain path that leads to a directory. -/
structure IsDirectory (files : Files) (directory : Path) (holder : Location) : Prop where
  plain : IsPlain directory
  locate : files.locate directory = .ok holder
  at? : files.at? holder = some .directory

/-- The name and the path that ends with it are no longer than the system takes. -/
def IsShort (directory : Path) (leaf : Text) : Prop :=
  (directory.append leaf).length ≤ longestPath ∧ leaf.length ≤ longestName

instance : Decidable (IsShort directory leaf) := by
  unfold IsShort
  infer_instance

theorem IsShort.of_length_le {leaf' : Text} (hdir : directory ≠ []) (hleaf : IsLeaf leaf)
    (hleaf' : IsLeaf leaf') (hle : leaf'.length ≤ leaf.length) (h : IsShort directory leaf) :
    IsShort directory leaf' := by
  obtain ⟨between, _, heq⟩ := append_eq hdir
  obtain ⟨hpath, hname⟩ := h
  rw [heq leaf hleaf, List.length_append] at hpath
  refine ⟨?_, Nat.le_trans hle hname⟩
  rw [heq leaf' hleaf', List.length_append]
  exact Nat.le_trans (Nat.add_le_add_left hle _) hpath

theorem IsDirectory.of_keepsDirectories (h : IsDirectory files directory holder)
    (hkeeps : KeepsDirectories files files') : IsDirectory files' directory holder where
  plain := h.plain
  locate := hkeeps.locate_eq_ok h.locate
  at? := hkeeps.directory holder h.at?

theorem IsDirectory.of_sameDirectories (h : IsDirectory files directory holder)
    (hsame : SameDirectories files files') : IsDirectory files' directory holder :=
  h.of_keepsDirectories hsame.keepsDirectories

theorem IsDirectory.locate_append (h : IsDirectory files directory holder) (hleaf : IsLeaf leaf) :
    files.locate (directory.append leaf) =
      if IsShort directory leaf then .ok (leaf :: holder) else .error .nameTooLong := by
  rw [Files.locate_append files h.plain hleaf, h.locate]
  by_cases hlong : longestPath < (directory.append leaf).length
  · have hshort : ¬ IsShort directory leaf := fun hs => absurd hs.1 (by omega)
    rw [if_pos hlong, if_neg hshort]
  · rw [if_neg hlong]
    change files.step holder leaf = _
    rw [step_of_directory h.at?, if_neg (not_or.2 ⟨hleaf.ne_nil, hleaf.ne_dots.1⟩),
      if_neg hleaf.ne_dots.2]
    by_cases hname : longestName < leaf.length
    · have hshort : ¬ IsShort directory leaf := fun hs => absurd hs.2 (by omega)
      rw [if_pos hname, if_neg hshort]
    · rw [if_neg hname, if_pos ⟨by omega, by omega⟩]

theorem isDirectory_of_locate {place : Location} (hdir : IsPlain directory) (hleaf : IsLeaf leaf)
    (h : files.locate (directory.append leaf) = .ok place) :
    ∃ holder, IsDirectory files directory holder ∧ place = leaf :: holder := by
  have happend := locate_append files hdir hleaf
  rw [h] at happend
  cases hlocate : files.locate directory with
  | error cause =>
    rw [hlocate] at happend
    split at happend <;> cases happend
  | ok holder =>
    rw [hlocate] at happend
    split at happend
    · cases happend
    · have hat := directory_of_step happend.symm
      have hholder : IsDirectory files directory holder := ⟨hdir, hlocate, hat⟩
      refine ⟨holder, hholder, ?_⟩
      rw [hholder.locate_append hleaf] at h
      split at h
      · exact (Except.ok.inj h).symm
      · cases h

theorem IsDirectory.entryAt_append (h : IsDirectory files directory holder) (hleaf : IsLeaf leaf) :
    files.entryAt (directory.append leaf) =
      if IsShort directory leaf then Entry.found (files.at? (leaf :: holder))
      else .error .nameTooLong := by
  rw [entryAt, h.locate_append hleaf]
  by_cases hshort : IsShort directory leaf
  · simp only [if_pos hshort]
  · simp only [if_neg hshort]

theorem IsDirectory.write?_append (h : IsDirectory files directory holder) (hleaf : IsLeaf leaf)
    (content : Text) : files.write? (directory.append leaf) content =
      if IsShort directory leaf then
        if files.isClosed (leaf :: holder) then none else files.put? leaf holder (.file content)
      else none := by
  rw [write?, h.locate_append hleaf]
  by_cases hshort : IsShort directory leaf
  · simp only [if_pos hshort]
  · simp only [if_neg hshort]

theorem at?_ne_directory_of_isClosed {place : Location} (h : files.isClosed place = false) :
    files.at? place ≠ some .directory := by
  intro hat
  rw [isClosed, hat] at h
  cases h

theorem IsDirectory.write_file (h : IsDirectory files directory holder) (hleaf : IsLeaf leaf)
    (hshort : IsShort directory leaf) (hopen : files.isClosed (leaf :: holder) = false)
    (content : Text) :
    ∃ files', files.write? (directory.append leaf) content = some files' ∧
      SameDirectories files files' ∧
      ∀ q, files'.at? q = if q = leaf :: holder then some (.file content) else files.at? q := by
  obtain ⟨files', hput⟩ : ∃ files', files.put? leaf holder (.file content) = some files' :=
    ⟨_, dif_pos ⟨h.at?, at?_ne_directory_of_isClosed hopen⟩⟩
  refine ⟨files', ?_, sameDirectories_put? hput, at?_put? hput⟩
  rw [h.write?_append hleaf, if_pos hshort, hopen, if_neg Bool.noConfusion, hput]

theorem IsDirectory.write_closed (h : IsDirectory files directory holder) (hleaf : IsLeaf leaf)
    (hclosed : files.isClosed (leaf :: holder) = true) (content : Text) :
    files.write? (directory.append leaf) content = none := by
  rw [h.write?_append hleaf, if_pos hclosed, ite_self]

theorem find?_components_append (hdir : directory ≠ []) (hleaf : IsLeaf leaf) :
    (components (directory.append leaf)).reverse.find? (· ≠ []) = some leaf := by
  obtain ⟨before, hc⟩ : ∃ before, components (directory.append leaf) = before ++ [leaf] := by
    rcases components_append hdir hleaf with hc | ⟨before, _, hc⟩
    · exact ⟨_, hc⟩
    · exact ⟨before, hc⟩
  have hne : decide (leaf ≠ []) = true := by simpa using hleaf.ne_nil
  rw [hc, List.reverse_append, List.reverse_singleton, List.singleton_append]
  exact List.find?_cons_of_pos hne

theorem IsDirectory.remove_append (h : IsDirectory files directory holder) (hleaf : IsLeaf leaf)
    (hshort : IsShort directory leaf) :
    files.remove (directory.append leaf) = files.deleteAt (leaf :: holder) := by
  rw [remove, h.locate_append hleaf, if_pos hshort, beforeNul_append h.plain hleaf,
    find?_components_append h.plain.ne_nil hleaf]
  have hdot : some leaf ≠ some (Text.ofString ".") := fun heq =>
    hleaf.ne_dots.1 (Option.some.inj heq)
  have hdots : some leaf ≠ some (Text.ofString "..") := fun heq =>
    hleaf.ne_dots.2 (Option.some.inj heq)
  exact (if_neg hdot).trans (if_neg hdots)

theorem IsDirectory.remove_file (h : IsDirectory files directory holder) (hleaf : IsLeaf leaf)
    (hshort : IsShort directory leaf) {content : Text}
    (hfile : files.at? (leaf :: holder) = some (.file content)) :
    ∃ files', files.remove (directory.append leaf) = .ok files' ∧ SameDirectories files files' ∧
      ∀ q, files'.at? q = if q = leaf :: holder then none else files.at? q := by
  have hnotDirectory : files.at? (leaf :: holder) ≠ some .directory := by simp [hfile]
  have hsome : files.at? (leaf :: holder) ≠ none := by simp [hfile]
  cases hdelete : files.delete? leaf holder with
  | none =>
    have hnames := names_eq_nil hnotDirectory
    simp [delete?, hnames, hfile] at hdelete
  | some files' =>
    refine ⟨files', ?_, sameDirectories_delete? hdelete hnotDirectory, at?_delete? hdelete⟩
    rw [h.remove_append hleaf hshort, deleteAt, if_neg hsome, hdelete]

theorem IsDirectory.fileAt_append (h : IsDirectory files directory holder) (hleaf : IsLeaf leaf)
    (hshort : IsShort directory leaf) :
    (files.locate (directory.append leaf)).toOption.bind files.fileAt? =
      files.fileAt? (leaf :: holder) := by
  rw [h.locate_append hleaf, if_pos hshort]
  rfl

section Rename

variable {leaf' content : Text} (h : IsDirectory files directory holder) (hleaf : IsLeaf leaf)
  (hleaf' : IsLeaf leaf') (hshort : IsShort directory leaf)
  (hfile : files.at? (leaf :: holder) = some (.file content))

include h hleaf hleaf' hshort hfile

theorem IsDirectory.rename_file (hshort' : IsShort directory leaf')
    (hfree : files.at? (leaf' :: holder) ≠ some .directory) (hne : leaf ≠ leaf') :
    ∃ files', files.rename? (directory.append leaf) (directory.append leaf') = some files' ∧
      SameDirectories files files' ∧
      ∀ q, files'.at? q = if q = leaf :: holder then none
        else if q = leaf' :: holder then some (.file content) else files.at? q := by
  obtain ⟨written, hput⟩ : ∃ written, files.put? leaf' holder (.file content) = some written :=
    ⟨_, dif_pos ⟨h.at?, hfree⟩⟩
  have hsame := sameDirectories_put? hput
  have hat := at?_put? hput
  have hsource : written.at? (leaf :: holder) = some (.file content) := by
    rw [hat, if_neg (by simpa using hne), hfile]
  obtain ⟨files', hremove, hsame', hat'⟩ :=
    (h.of_sameDirectories hsame).remove_file hleaf hshort hsource
  refine ⟨files', ?_, hsame.trans hsame', ?_⟩
  · rw [rename?, h.fileAt_append hleaf hshort, fileAt?, hfile, h.locate_append hleaf',
      if_pos hshort']
    simp only [hput, Option.bind_some, hremove]
    rfl
  · intro q
    rw [hat', hat]

theorem IsDirectory.rename_onto_directory
    (hdirectory : files.at? (leaf' :: holder) = some .directory) :
    files.rename? (directory.append leaf) (directory.append leaf') = none := by
  have hput : files.put? leaf' holder (.file content) = none := dif_neg (by simp [hdirectory])
  rw [rename?, h.fileAt_append hleaf hshort, fileAt?, hfile, h.locate_append hleaf']
  by_cases hshort' : IsShort directory leaf'
  · simp only [if_pos hshort', hput, Option.bind_none]
  · simp only [if_neg hshort']

end Rename

end Files

end StableOrdinals
