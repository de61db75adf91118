import Mathlib.Data.List.TakeWhile
import StableOrdinals.Files.Path
import StableOrdinals.Proofs.Files.Children

/-!
# How paths are cut

The pieces of a text and its components, the last component of a path and what stands before it, and
the slashes at the end of a path, which give empty components.
-/

namespace StableOrdinals

namespace Text

theorem mem_of_mem_split {sep : Byte → Bool} {s piece : Text} (h : piece ∈ split sep s) :
    ∀ c ∈ piece, c ∈ s := by
  induction s generalizing piece with
  | nil =>
    obtain rfl : piece = [] := by simpa using h
    exact fun c hc => hc
  | cons d s ih =>
    intro c hc
    by_cases hd : sep d = true
    · rw [split_cons_of_sep hd, List.mem_cons] at h
      rcases h with rfl | h
      · cases hc
      · exact List.mem_cons_of_mem d (ih h c hc)
    · rw [split_cons_of_not_sep (by simpa using hd)] at h
      cases hs : split sep s with
      | nil => exact absurd hs (split_ne_nil sep s)
      | cons first pieces =>
        rw [hs] at h ih
        rcases List.mem_cons.1 h with rfl | h
        · rcases List.mem_cons.1 hc with rfl | hc
          · exact List.mem_cons_self
          · exact List.mem_cons_of_mem d (ih List.mem_cons_self c hc)
        · exact List.mem_cons_of_mem d (ih (List.mem_cons_of_mem first h) c hc)

theorem split_join {sep : Byte → Bool} {b : Byte} (hb : sep b = true) {pieces : List Text}
    (hne : pieces ≠ []) (h : ∀ piece ∈ pieces, ∀ c ∈ piece, sep c = false) :
    split sep (join [b] pieces) = pieces := by
  induction pieces with
  | nil => exact absurd rfl hne
  | cons piece pieces ih =>
    have hpiece := split_of_forall (h piece List.mem_cons_self)
    cases pieces with
    | nil => simpa [join] using hpiece
    | cons next pieces =>
      have hjoin : join [b] (piece :: next :: pieces) = piece ++ b :: join [b] (next :: pieces) := by
        simp only [join, List.intercalate_cons_cons, List.append_assoc, List.singleton_append]
      rw [hjoin, split_append_cons hb, hpiece,
        ih (List.cons_ne_nil _ _) fun p hp => h p (List.mem_cons_of_mem piece hp)]
      rfl

theorem mem_join {sep : Text} {pieces : List Text} {c : Byte} (h : c ∈ join sep pieces) :
    c ∈ sep ∨ ∃ piece ∈ pieces, c ∈ piece := by
  induction pieces with
  | nil => cases h
  | cons piece pieces ih =>
    cases pieces with
    | nil => exact Or.inr ⟨piece, List.mem_cons_self, by simpa [join] using h⟩
    | cons next pieces =>
      have hjoin : join sep (piece :: next :: pieces) = piece ++ sep ++ join sep (next :: pieces) := by
        simp only [join, List.intercalate_cons_cons]
      rw [hjoin, List.mem_append, List.mem_append] at h
      rcases h with (h | h) | h
      · exact Or.inr ⟨piece, List.mem_cons_self, h⟩
      · exact Or.inl h
      · rcases ih h with h | ⟨found, hfound, h⟩
        · exact Or.inl h
        · exact Or.inr ⟨found, List.mem_cons_of_mem piece hfound, h⟩

end Text

namespace Path

variable {path : Path} {leaf : Text}

theorem components_append_slash (before after : Text) :
    components (before ++ ('/' : Byte) :: after) = components before ++ components after :=
  Text.split_append_cons (by decide) before after

theorem components_beforeNul_join {pieces : List Text} (hne : pieces ≠ [])
    (hslash : ∀ piece ∈ pieces, ∀ c ∈ piece, isSlash c = false)
    (hnul : ∀ piece ∈ pieces, ∀ c ∈ piece, c ≠ 0) :
    components (Text.beforeNul (Text.join "/" pieces)) = pieces := by
  have hjoin : ∀ c ∈ Text.join "/" pieces, c ≠ 0 := by
    intro c hc
    rcases Text.mem_join hc with hc | ⟨piece, hpiece, hc⟩
    · rw [List.mem_singleton.1 hc]
      decide
    · exact hnul piece hpiece c hc
  rw [Text.beforeNul_of_forall hjoin]
  exact Text.split_join (by decide) hne hslash

theorem components_of_no_slash (h : ∀ c ∈ leaf, isSlash c = false) : components leaf = [leaf] :=
  Text.split_of_forall h

theorem eq_slash_of_isSlash {c : Byte} (h : isSlash c = true) : c = '/' := by
  simpa [isSlash] using h

theorem eq_nil_of_mem_components (h : path.all isSlash = true) {component : Text}
    (hc : component ∈ components path) : component = [] := by
  cases component with
  | nil => rfl
  | cons c rest =>
    have hmem := Text.mem_of_mem_split hc c List.mem_cons_self
    have hslash := List.all_eq_true.1 h c hmem
    rw [Text.sep_of_mem_split hc c List.mem_cons_self] at hslash
    cases hslash

theorem components_append_slashes {slashes : Text} (h : slashes.all isSlash = true)
    (before : Text) : ∃ blanks : List Text, (∀ blank ∈ blanks, blank = []) ∧
      components (before ++ slashes) = components before ++ blanks := by
  cases slashes with
  | nil => exact ⟨[], nofun, by rw [List.append_nil, List.append_nil]⟩
  | cons c slashes =>
    rw [List.all_cons, Bool.and_eq_true] at h
    obtain rfl := eq_slash_of_isSlash h.1
    exact ⟨components slashes, fun _ => eq_nil_of_mem_components h.2,
      components_append_slash before slashes⟩

def dropSlashesRight (path : Path) : Path := (path.reverse.dropWhile isSlash).reverse

theorem exists_append_dropSlashesRight (path : Path) :
    ∃ slashes : Text, slashes.all isSlash = true ∧ path = path.dropSlashesRight ++ slashes := by
  refine ⟨(path.reverse.takeWhile isSlash).reverse, ?_, ?_⟩
  · rw [List.all_reverse]
    exact List.all_takeWhile
  · rw [dropSlashesRight, ← List.reverse_append, List.takeWhile_append_dropWhile,
      List.reverse_reverse]

theorem beforeFileName_append (path : Path) : path.beforeFileName ++ path.fileName = path := by
  rw [beforeFileName, fileName, ← List.reverse_append, List.takeWhile_append_dropWhile,
    List.reverse_reverse]

theorem fileName_no_slash (path : Path) : ∀ c ∈ path.fileName, isSlash c = false := by
  intro c hc
  rw [fileName, List.mem_reverse] at hc
  simpa using List.mem_takeWhile_imp hc

theorem getLast?_beforeFileName (path : Path) :
    path.beforeFileName = [] ∨ ∃ before, path.beforeFileName = before ++ [('/' : Byte)] := by
  cases hdrop : path.reverse.dropWhile (!isSlash ·) with
  | nil => exact Or.inl (by rw [beforeFileName, hdrop]; rfl)
  | cons c rest =>
    refine Or.inr ⟨rest.reverse, ?_⟩
    have hc := List.head_dropWhile_not (!isSlash ·) (l := path.reverse) (by simp [hdrop])
    simp only [hdrop, List.head_cons, Bool.not_eq_false'] at hc
    rw [beforeFileName, hdrop, List.reverse_cons, eq_slash_of_isSlash hc]

theorem fileName_append_slash (h : ∀ c ∈ leaf, isSlash c = false) (before : Text) :
    fileName (before ++ ('/' : Byte) :: leaf) = leaf := by
  have hreverse : (before ++ ('/' : Byte) :: leaf).reverse =
      leaf.reverse ++ ('/' : Byte) :: before.reverse := by simp
  rw [fileName, hreverse, List.takeWhile_append_of_pos (by simpa using h),
    List.takeWhile_cons_of_neg (by decide), List.append_nil, List.reverse_reverse]

theorem beforeFileName_append_slash (h : ∀ c ∈ leaf, isSlash c = false) (before : Text) :
    beforeFileName (before ++ ('/' : Byte) :: leaf) = before ++ [('/' : Byte)] := by
  have hreverse : (before ++ ('/' : Byte) :: leaf).reverse =
      leaf.reverse ++ ('/' : Byte) :: before.reverse := by simp
  rw [beforeFileName, hreverse, List.dropWhile_append_of_pos (by simpa using h),
    List.dropWhile_cons_of_neg (by decide), List.reverse_cons, List.reverse_reverse]

theorem parent_append_slash (hne : leaf ≠ []) (h : ∀ c ∈ leaf, isSlash c = false) (before : Path) :
    parent (before ++ ('/' : Byte) :: leaf) =
      if before.all isSlash then ("/" : Text) else before.dropSlashesRight := by
  have hall : ¬ (before ++ ('/' : Byte) :: leaf).all isSlash = true := by
    intro hall
    obtain ⟨c, rest, rfl⟩ := List.exists_cons_of_ne_nil hne
    have hslash := List.all_eq_true.1 hall c (by simp)
    rw [h c List.mem_cons_self] at hslash
    cases hslash
  have hslashes : (before ++ [('/' : Byte)]).all isSlash = before.all isSlash := by
    rw [List.all_append, Bool.and_eq_left_iff_imp]
    exact fun _ => by decide
  have hdrop : dropSlashesRight (before ++ [('/' : Byte)]) = dropSlashesRight before := by
    rw [dropSlashesRight, dropSlashesRight, List.reverse_append, List.reverse_singleton,
      List.singleton_append, List.dropWhile_cons_of_pos (by decide)]
  rw [parent, if_neg hall, beforeFileName_append_slash h, hslashes]
  by_cases hbefore : before.all isSlash = true
  · rw [if_pos ⟨by simp, hbefore⟩, if_pos hbefore]
  · rw [if_neg fun hand => hbefore hand.2, if_neg hbefore]
    exact hdrop

theorem components_parent_append_slash (hne : leaf ≠ []) (h : ∀ c ∈ leaf, isSlash c = false)
    {before directory : Path} (hdir : directory ≠ [])
    (heq : directory = before ∨ directory = before ++ [('/' : Byte)]) :
    ∃ blanks : List Text, (∀ blank ∈ blanks, blank = []) ∧
      components directory = components (parent (before ++ ('/' : Byte) :: leaf)) ++ blanks := by
  rw [parent_append_slash hne h]
  by_cases hall : before.all isSlash = true
  · have hdirectory : directory.all isSlash = true := by
      rcases heq with rfl | rfl
      · exact hall
      · rw [List.all_append, hall]
        rfl
    obtain ⟨c, rest, rfl⟩ := List.exists_cons_of_ne_nil hdir
    rw [List.all_cons, Bool.and_eq_true] at hdirectory
    obtain rfl := eq_slash_of_isSlash hdirectory.1
    have hcut : components (('/' : Byte) :: rest) = [] :: components rest :=
      components_append_slash [] rest
    cases hrest : components rest with
    | nil => exact absurd hrest (Text.split_ne_nil _ _)
    | cons first blanks =>
      have hblank : ∀ blank ∈ components rest, blank = [] := fun _ =>
        eq_nil_of_mem_components hdirectory.2
      rw [hrest] at hblank hcut
      obtain rfl := hblank first List.mem_cons_self
      rw [if_pos hall, hcut]
      exact ⟨blanks, fun blank hb => hblank blank (List.mem_cons_of_mem _ hb), rfl⟩
  · rw [if_neg hall]
    obtain ⟨slashes, hslashes, hbefore⟩ := exists_append_dropSlashesRight before
    rcases heq with rfl | rfl
    · obtain ⟨blanks, hblanks, hcut⟩ := components_append_slashes hslashes directory.dropSlashesRight
      rw [← hbefore] at hcut
      exact ⟨blanks, hblanks, hcut⟩
    · have hmore : (slashes ++ [('/' : Byte)]).all isSlash = true := by
        rw [List.all_append, hslashes]
        rfl
      obtain ⟨blanks, hblanks, hcut⟩ := components_append_slashes hmore before.dropSlashesRight
      rw [← List.append_assoc, ← hbefore] at hcut
      exact ⟨blanks, hblanks, hcut⟩

theorem all_beforeFileName (h : path.all isSlash = true) : path.beforeFileName.all isSlash = true := by
  rw [← beforeFileName_append path, List.all_append, Bool.and_eq_true] at h
  exact h.1

/-- The components that lead anywhere, if only to where they stand. -/
def pieces (path : Path) : List Text := (components path).filter (· ≠ [])

theorem filter_blanks {blanks : List Text} (h : ∀ blank ∈ blanks, blank = []) :
    blanks.filter (· ≠ []) = [] := by
  rw [List.filter_eq_nil_iff]
  intro blank hblank
  simp [h blank hblank]

theorem pieces_of_all_slash (h : path.all isSlash = true) : pieces path = [] :=
  filter_blanks fun _ => eq_nil_of_mem_components h

theorem pieces_append_of_all_slash {slashes : Text} (h : slashes.all isSlash = true) (before : Text) :
    pieces (before ++ slashes) = pieces before := by
  obtain ⟨blanks, hblanks, heq⟩ := components_append_slashes h before
  rw [pieces, heq, List.filter_append, filter_blanks hblanks, List.append_nil, pieces]

theorem pieces_append_slash (before after : Text) :
    pieces (before ++ ('/' : Byte) :: after) = pieces before ++ pieces after := by
  rw [pieces, components_append_slash, List.filter_append]
  rfl

theorem pieces_append {left right : Path} (h : right.isAbsolute = false) :
    pieces (left.append right) = pieces left ++ pieces right := by
  unfold append
  split_ifs with hreplace hlast
  · obtain rfl : left = [] := by simpa [h] using hreplace
    rfl
  · obtain ⟨before, rfl⟩ := List.getLast?_eq_some_iff.1 hlast
    rw [pieces_append_of_all_slash (List.all_eq_true.2 (List.forall_mem_singleton.2 rfl)),
      List.append_assoc]
    exact pieces_append_slash before right
  · rw [List.append_assoc]
    exact pieces_append_slash left right

theorem append_of_isAbsolute {right : Path} (h : right.isAbsolute = true) (left : Path) :
    left.append right = right := if_pos (Or.inl h)

theorem pieces_dropSlashesRight (path : Path) : pieces path.dropSlashesRight = pieces path := by
  obtain ⟨slashes, hslashes, heq⟩ := exists_append_dropSlashesRight path
  rw [heq, pieces_append_of_all_slash hslashes, ← heq]

theorem pieces_beforeFileName_append (path : Path) :
    pieces path.beforeFileName ++ [path.fileName].filter (· ≠ []) = pieces path := by
  have hleaf : pieces path.fileName = [path.fileName].filter (· ≠ []) := by
    rw [pieces, components_of_no_slash (fileName_no_slash path)]
  have hpath := beforeFileName_append path
  rcases getLast?_beforeFileName path with hbefore | ⟨before, hbefore⟩
  · rw [hbefore, List.nil_append] at hpath
    rw [hbefore, ← hleaf, hpath]
    rfl
  · rw [hbefore, List.append_assoc] at hpath
    rw [hbefore, pieces_append_of_all_slash (by decide), ← hleaf, ← pieces_append_slash]
    exact congrArg pieces hpath

theorem pieces_parent (path : Path) : pieces path.parent = pieces path.beforeFileName := by
  unfold parent
  split_ifs with hall hbefore
  · rw [pieces_of_all_slash hall, pieces_of_all_slash (all_beforeFileName hall)]
  · rw [pieces_of_all_slash hbefore.2]
    decide
  · exact pieces_dropSlashesRight path.beforeFileName

theorem pieces_parent_append (path : Path) :
    pieces path.parent ++ [path.fileName].filter (· ≠ []) = pieces path := by
  rw [pieces_parent, pieces_beforeFileName_append]

theorem isAbsolute_parent (h : path.fileName = []) : path.parent.isAbsolute = path.isAbsolute := by
  have hbefore : path.beforeFileName = path := by
    simpa [h] using beforeFileName_append path
  unfold parent
  rw [hbefore]
  split_ifs with hall hslashes
  · rfl
  · exact absurd hslashes.2 hall
  · change path.dropSlashesRight.isAbsolute = path.isAbsolute
    obtain ⟨slashes, hslashes, heq⟩ := exists_append_dropSlashesRight path
    cases hdrop : path.dropSlashesRight with
    | nil =>
      rw [hdrop, List.nil_append] at heq
      rw [heq] at hall
      exact absurd hslashes hall
    | cons c rest =>
      rw [hdrop] at heq
      rw [heq]
      rfl

theorem mem_of_mem_fileName {c : Byte} (h : c ∈ path.fileName) : c ∈ path := by
  rw [← beforeFileName_append path]
  exact List.mem_append_right _ h

theorem mem_of_mem_beforeFileName {c : Byte} (h : c ∈ path.beforeFileName) : c ∈ path := by
  rw [← beforeFileName_append path]
  exact List.mem_append_left _ h

theorem mem_of_mem_parent {c : Byte} (h : c ∈ path.parent) : c ∈ path ∨ c = '/' := by
  unfold parent at h
  split_ifs at h with hall hbefore
  · exact Or.inl h
  · exact Or.inr (List.mem_singleton.1 h)
  · refine Or.inl (mem_of_mem_beforeFileName ?_)
    change c ∈ path.beforeFileName.dropSlashesRight at h
    obtain ⟨slashes, _, heq⟩ := exists_append_dropSlashesRight path.beforeFileName
    rw [heq]
    exact List.mem_append_left _ h

theorem no_nul_parent (h : ∀ c ∈ path, c ≠ 0) : ∀ c ∈ path.parent, c ≠ 0 := by
  intro c hc
  rcases mem_of_mem_parent hc with hc | rfl
  · exact h c hc
  · decide

/-- A path without slashes at its end, so that it ends with what it names. -/
def goal (path : Path) : Path := if path.fileName = [] then path.parent else path

theorem isAbsolute_goal (path : Path) : path.goal.isAbsolute = path.isAbsolute := by
  unfold goal
  split_ifs with hname
  · exact isAbsolute_parent hname
  · rfl

theorem pieces_goal (path : Path) : pieces path.goal = pieces path := by
  unfold goal
  split_ifs with hname
  · have hpieces := pieces_parent_append path
    rwa [hname, filter_blanks (List.forall_mem_singleton.2 rfl), List.append_nil] at hpieces
  · rfl

theorem no_nul_goal (h : ∀ c ∈ path, c ≠ 0) : ∀ c ∈ path.goal, c ≠ 0 := by
  unfold goal
  split_ifs
  · exact no_nul_parent h
  · exact h

end Path

end StableOrdinals
