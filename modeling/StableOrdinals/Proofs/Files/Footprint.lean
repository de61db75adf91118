import Mathlib.Data.Option.Defs
import Mathlib.Data.Set.Basic
import StableOrdinals.Proofs.Files.Making
import StableOrdinals.Proofs.Files.Way

/-!
# What work in a directory depends on

Whoever works on some children of a directory by way of its path passes through the places on the
`way` to it. Of what stands there only the kind counts. Two trees are `Alike` if they have the same
kinds of entries on the way, and the same children of the names in question with all that they hold.
Then everything that is done at these children has the same outcome in both of them, and they stay
alike.

A change is `Confined` to these children if nothing else is changed, but for directories that are
made on the way, and `ChangesOnly` does not even allow for these.
-/

namespace StableOrdinals

open StableOrdinals.Path

variable {directory : Path} {leaf : Text}

theorem Path.exists_components_append (directory : Path) (hleaf : IsLeaf leaf) : ∃ before blanks : List Text,
    (∀ blank ∈ blanks, blank = []) ∧ components directory = before ++ blanks ∧
      components (directory.append leaf) = before ++ [leaf] := by
  by_cases hempty : directory = []
  · subst hempty
    have hpath : Path.append [] leaf = leaf := if_pos (Or.inr rfl)
    refine ⟨[], [[]], List.forall_mem_singleton.2 rfl, rfl, ?_⟩
    rw [hpath, components_of_no_slash hleaf.no_slash]
    rfl
  · rcases components_append hempty hleaf with hc | ⟨before, hd, hc⟩
    · exact ⟨_, [], nofun, (List.append_nil _).symm, hc⟩
    · exact ⟨before, [[]], List.forall_mem_singleton.2 rfl, hd, hc⟩

namespace Files

variable {left left' right right' files : Files} {place q : Location} {path : Path}
  {name : Text} {leaves : Set Text}

section Kinds

/-- At a place of two trees stands the same, or a file in both. -/
def SameKind (left right : Files) (q : Location) : Prop :=
  right.at? q = left.at? q ∨
    ∃ content content', left.at? q = some (.file content) ∧ right.at? q = some (.file content')

theorem SameKind.at?_eq_iff (h : SameKind left right q) {entry : Option Entry}
    (hentry : ∀ content, entry ≠ some (.file content)) :
    right.at? q = entry ↔ left.at? q = entry := by
  rcases h with heq | ⟨content, content', hleft, hright⟩
  · rw [heq]
  · rw [hleft, hright]
    exact ⟨fun h => absurd h.symm (hentry content'), fun h => absurd h.symm (hentry content)⟩

theorem SameKind.absent_iff (h : SameKind left right q) :
    right.at? q = none ↔ left.at? q = none := h.at?_eq_iff nofun

theorem SameKind.directory_iff (h : SameKind left right q) :
    right.at? q = some .directory ↔ left.at? q = some .directory := h.at?_eq_iff nofun

theorem SameKind.loop_iff (h : SameKind left right q) :
    right.at? q = some .loop ↔ left.at? q = some .loop := h.at?_eq_iff nofun

theorem SameKind.step_eq (h : SameKind left right place) (component : Text) :
    right.step place component = left.step place component := by
  unfold step
  rcases h with heq | ⟨_, _, hleft, hright⟩
  · rw [heq]
  · rw [hleft, hright]

theorem foldlM_step_eq {components : List Text}
    (h : ∀ q ∈ components.scanl Location.follow place, SameKind left right q) :
    components.foldlM right.step place = components.foldlM left.step place := by
  induction components generalizing place with
  | nil => rfl
  | cons component components ih =>
    rw [List.scanl_cons, List.forall_mem_cons] at h
    rw [List.foldlM_cons, List.foldlM_cons, h.1.step_eq]
    cases hstep : left.step place component with
    | error cause => rfl
    | ok next =>
      rw [← eq_follow_of_step hstep] at h
      exact ih h.2

theorem follow_eq {components : List Text}
    (h : ∀ q ∈ components.scanl Location.follow place, SameKind left right q) :
    right.follow place components = left.follow place components := by
  induction components generalizing place with
  | nil => rfl
  | cons component components ih =>
    rw [List.scanl_cons, List.forall_mem_cons] at h
    rw [follow, follow, h.1.step_eq]
    cases hstep : left.step place component with
    | error cause => rfl
    | ok next =>
      rw [← eq_follow_of_step hstep] at h
      exact if_congr (h.2 next (mem_scanl_head next components)).absent_iff rfl (ih h.2)

end Kinds

section Children

variable (hnul : ∀ c ∈ directory, c ≠ 0) (hleaf : IsLeaf leaf)

include hnul hleaf

theorem beforeNul_child : Text.beforeNul (directory.append leaf) = directory.append leaf := by
  by_cases hempty : directory = []
  · subst hempty
    have hpath : Path.append [] leaf = leaf := if_pos (Or.inr rfl)
    rw [hpath, Text.beforeNul_of_forall hleaf.no_nul]
  · exact beforeNul_append ⟨hempty, hnul⟩ hleaf

omit hnul in
theorem origin_child (files : Files) :
    files.origin (directory.append leaf) = files.origin directory := by
  by_cases hempty : directory = []
  · subst hempty
    have hpath : Path.append [] leaf = leaf := if_pos (Or.inr rfl)
    rw [hpath, origin, hleaf.not_isAbsolute]
    rfl
  · exact origin_append files hempty hleaf

theorem exists_locate_child : ∃ before : List Text,
    (∀ files : Files, before.foldl Location.follow (files.origin directory) = files.target directory ∧
      ∀ q ∈ before.scanl Location.follow (files.origin directory), q ∈ files.way directory) ∧
    ∀ files : Files, files.locate (directory.append leaf) =
      if longestPath < (directory.append leaf).length then .error .nameTooLong
      else before.foldlM files.step (files.origin directory) >>= fun place =>
        files.step place leaf := by
  obtain ⟨before, blanks, hblanks, hd, hc⟩ := exists_components_append directory hleaf
  refine ⟨before, fun files => ⟨?_, ?_⟩, ?_⟩
  · rw [target, Text.beforeNul_of_forall hnul, hd, List.foldl_append, foldl_follow_blanks hblanks]
  · intro q hq
    rw [way, Text.beforeNul_of_forall hnul, hd]
    exact mem_scanl_append before blanks _ (Or.inl hq)
  · intro files
    have hne : directory.append leaf ≠ [] := by
      intro heq
      rw [heq] at hc
      cases before with
      | nil => exact hleaf.ne_nil (List.cons.inj hc).1.symm
      | cons first before => simp [components] at hc
    rw [locate, beforeNul_child hnul hleaf, if_neg hne, hc, origin_child hleaf, List.foldlM_append]
    simp only [List.foldlM_cons, List.foldlM_nil, bind_pure]

theorem eq_of_locate_child (h : files.locate (directory.append leaf) = .ok place) :
    place = leaf :: files.target directory ∧
      files.at? (files.target directory) = some .directory := by
  obtain ⟨before, hbefore, hlocate⟩ := exists_locate_child hnul hleaf
  rw [hlocate] at h
  split_ifs at h
  cases hfold : before.foldlM files.step (files.origin directory) with
  | error cause =>
    rw [hfold] at h
    cases h
  | ok holder =>
    rw [hfold] at h
    obtain rfl := (eq_foldl_of_foldlM_step hfold).trans (hbefore files).1
    have hfollow : place = (files.target directory).follow leaf := eq_follow_of_step h
    rw [Location.follow, if_neg (not_or.2 ⟨hleaf.ne_nil, hleaf.ne_dots.1⟩),
      if_neg hleaf.ne_dots.2] at hfollow
    exact ⟨hfollow, directory_of_step h⟩

theorem remove_child (files : Files) : files.remove (directory.append leaf) =
    files.locate (directory.append leaf) >>= files.deleteAt := by
  obtain ⟨before, _, _, _, hc⟩ := exists_components_append directory hleaf
  have hlast : (components (directory.append leaf)).reverse.find? (· ≠ []) = some leaf := by
    have hne : decide (leaf ≠ []) = true := by simpa using hleaf.ne_nil
    rw [hc, List.reverse_append, List.reverse_singleton, List.singleton_append]
    exact List.find?_cons_of_pos hne
  have hdot : some leaf ≠ some (Text.ofString ".") := fun heq =>
    hleaf.ne_dots.1 (Option.some.inj heq)
  have hdots : some leaf ≠ some (Text.ofString "..") := fun heq =>
    hleaf.ne_dots.2 (Option.some.inj heq)
  rw [remove, beforeNul_child hnul hleaf, hlast]
  cases files.locate (directory.append leaf) with
  | error cause => rfl
  | ok place => exact (if_neg hdot).trans (if_neg hdots)

end Children

section Alike

theorem rel_cases {α β : Type} {R : α → β → Prop} {a : Option α} {b : Option β}
    (h : Option.Rel R a b) :
    (a = none ∧ b = none) ∨ ∃ x y, a = some x ∧ b = some y ∧ R x y := by
  cases h with
  | none => exact Or.inl ⟨rfl, rfl⟩
  | some h => exact Or.inr ⟨_, _, rfl, rfl, h⟩

/-- Two outcomes with one answer, that leave related states behind. -/
structure SameOutcome {α β : Type} (R : β → β → Prop) (left right : α × β) : Prop where
  answer : right.1 = left.1
  state : R left.2 right.2

/-- Two trees that cannot be told apart by work on some children of a directory. -/
structure Alike (directory : Path) (leaves : Set Text) (left right : Files) : Prop where
  here : right.here = left.here
  way : ∀ q ∈ left.way directory, SameKind left right q
  at? : ∀ leaf ∈ leaves, ∀ below, right.at? (below ++ leaf :: left.target directory) =
    left.at? (below ++ leaf :: left.target directory)

/-- The same failure twice, or two trees that are alike. -/
inductive AlikeAnswers (directory : Path) (leaves : Set Text) :
    Except SystemError Files → Except SystemError Files → Prop
  | failed (cause : SystemError) : AlikeAnswers directory leaves (.error cause) (.error cause)
  | done {left right : Files} (h : Alike directory leaves left right) :
    AlikeAnswers directory leaves (.ok left) (.ok right)

theorem AlikeAnswers.toOption {before after : Except SystemError Files}
    (h : AlikeAnswers directory leaves before after) :
    Option.Rel (Alike directory leaves) before.toOption after.toOption := by
  cases h with
  | failed cause => exact .none
  | done h => exact .some h

variable (h : Alike directory leaves left right)

include h

theorem Alike.of_change {entry : Option Entry} (hleftHere : left'.here = left.here)
    (hrightHere : right'.here = right.here)
    (hleft : ∀ q, left'.at? q = if q = place then entry else left.at? q)
    (hright : ∀ q, right'.at? q = if q = place then entry else right.at? q) :
    Alike directory leaves left' right' where
  here := hrightHere.trans (h.here.trans hleftHere.symm)
  way q hq := by
    rw [way_congr hleftHere] at hq
    by_cases hplace : q = place
    · exact Or.inl (by rw [hleft, hright, if_pos hplace, if_pos hplace])
    · rw [SameKind, hleft, hright, if_neg hplace, if_neg hplace]
      exact h.way q hq
  at? leaf hleaf below := by
    rw [target_congr hleftHere, hleft, hright, h.at? leaf hleaf below]

theorem Alike.put? (hholder : SameKind left right place)
    (hplace : SameKind left right (name :: place)) (entry : Entry) :
    Option.Rel (Alike directory leaves) (left.put? name place entry) (right.put? name place entry) := by
  by_cases hput : left.at? place = some .directory ∧ left.at? (name :: place) ≠ some .directory
  · have hput' : right.at? place = some .directory ∧ right.at? (name :: place) ≠ some .directory :=
      ⟨hholder.directory_iff.2 hput.1, fun hd => hput.2 (hplace.directory_iff.1 hd)⟩
    obtain ⟨left', hleft⟩ : ∃ left', left.put? name place entry = some left' := ⟨_, dif_pos hput⟩
    obtain ⟨right', hright⟩ : ∃ right', right.put? name place entry = some right' :=
      ⟨_, dif_pos hput'⟩
    rw [hleft, hright]
    exact .some (h.of_change (put?_eq_some_iff.1 hleft).2.2.2 (put?_eq_some_iff.1 hright).2.2.2
      (at?_put? hleft) (at?_put? hright))
  · have hput' : ¬ (right.at? place = some .directory ∧
        right.at? (name :: place) ≠ some .directory) := fun hput' =>
      hput ⟨hholder.directory_iff.1 hput'.1, fun hd => hput'.2 (hplace.directory_iff.2 hd)⟩
    rw [Files.put?, Files.put?, dif_neg hput, dif_neg hput']
    exact .none

section Making

theorem Alike.make {components : List Text}
    (hway : ∀ q ∈ components.scanl Location.follow place, q ∈ left.way directory) :
    SameOutcome (Alike directory leaves) (left.make place components)
      (right.make place components) := by
  induction components generalizing left right place with
  | nil => exact ⟨rfl, h⟩
  | cons component components ih =>
    rw [List.scanl_cons, List.forall_mem_cons] at hway
    obtain ⟨hplace, hrest⟩ := hway
    have hnext := h.way _ (hrest _ (mem_scanl_head _ components))
    rw [Location.follow] at hrest hnext
    rw [Files.make, Files.make]
    by_cases hstay : component = [] ∨ component = "."
    · rw [if_pos hstay] at hrest
      rw [if_pos hstay, if_pos hstay]
      exact ih h hrest
    rw [if_neg hstay] at hrest hnext
    rw [if_neg hstay, if_neg hstay]
    by_cases hup : component = ".."
    · rw [if_pos hup] at hrest
      rw [if_pos hup, if_pos hup]
      exact ih h hrest
    rw [if_neg hup] at hrest hnext
    rw [if_neg hup, if_neg hup]
    by_cases hlong : longestName < component.length
    · rw [if_pos hlong, if_pos hlong]
      exact ⟨rfl, h⟩
    rw [if_neg hlong, if_neg hlong]
    by_cases hdirectory : left.at? (component :: place) = some .directory
    · rw [if_pos hdirectory, if_pos (hnext.directory_iff.2 hdirectory)]
      exact ih h hrest
    rw [if_neg hdirectory, if_neg fun hd => hdirectory (hnext.directory_iff.1 hd)]
    by_cases hfree : left.at? (component :: place) = none
    · rw [if_neg (not_not.2 hfree), if_neg (not_not.2 (hnext.absent_iff.2 hfree))]
      rcases rel_cases (h.put? (h.way place hplace) hnext .directory) with
        ⟨hputLeft, hputRight⟩ | ⟨made, made', hputLeft, hputRight, hmade⟩
      · rw [hputLeft, hputRight]
        exact ⟨rfl, h⟩
      · rw [hputLeft, hputRight]
        rw [← way_congr (put?_eq_some_iff.1 hputLeft).2.2.2] at hrest
        exact ih hmade hrest
    · rw [if_pos hfree, if_pos fun hf => hfree (hnext.absent_iff.1 hf)]
      exact ⟨rfl, h⟩

theorem Alike.missing_eq (hnul : ∀ c ∈ directory, c ≠ 0) :
    right.missing directory = left.missing directory := by
  have hfollow := follow_eq fun q hq => h.way q (mem_way_of_parent hnul hq)
  have horigin : right.origin directory.goal = left.origin directory.goal := by
    rw [origin, origin, h.here]
  rw [missing, missing, horigin, hfollow]

theorem Alike.locate_eq : right.locate directory = left.locate directory := by
  have hfold := foldlM_step_eq h.way
  rw [locate, locate, origin, origin, h.here]
  rw [origin] at hfold
  rw [hfold]

theorem Alike.makeMissing (hnul : ∀ c ∈ directory, c ≠ 0) :
    SameOutcome (Alike directory leaves) (left.makeMissing directory)
      (right.makeMissing directory) := by
  have hmissing := h.missing_eq hnul
  have hway : ∀ q ∈ (left.missing directory).2.scanl Location.follow (left.missing directory).1,
      q ∈ left.way directory := fun q hq => mem_way_of_missing hnul hq
  have hplace := h.way _ (hway _ (mem_scanl_head _ _))
  rw [makeMissing_eq hnul, makeMissing_eq hnul, hmissing]
  by_cases hmost : mostDirectories < ((left.missing directory).2.filter isName).length
  · rw [if_pos hmost, if_pos hmost]
    exact ⟨rfl, h⟩
  rw [if_neg hmost, if_neg hmost]
  by_cases hloop : left.at? (left.missing directory).1 = some .loop
  · rw [if_pos hloop, if_pos (hplace.loop_iff.2 hloop)]
    exact ⟨rfl, h⟩
  rw [if_neg hloop, if_neg fun hl => hloop (hplace.loop_iff.1 hl)]
  by_cases hdirectory : left.at? (left.missing directory).1 = some .directory
  · rw [if_neg (not_not.2 hdirectory), if_neg (not_not.2 (hplace.directory_iff.2 hdirectory))]
    exact h.make hway
  · rw [if_pos hdirectory, if_pos fun hd => hdirectory (hplace.directory_iff.1 hd)]
    exact ⟨rfl, h⟩

theorem Alike.makeDirectories (hnul : ∀ c ∈ directory, c ≠ 0) :
    SameOutcome (Alike directory leaves) (left.makeDirectories directory)
      (right.makeDirectories directory) := by
  unfold Files.makeDirectories
  split_ifs
  · exact ⟨rfl, h⟩
  · exact ⟨rfl, h⟩
  rw [status, status, entryAt, entryAt, h.locate_eq]
  cases hlocate : left.locate directory with
  | error cause =>
    dsimp only
    by_cases habsence : cause.isAbsence = true
    · rw [if_pos habsence]
      exact h.makeMissing hnul
    · rw [if_neg habsence]
      exact ⟨rfl, h⟩
  | ok place =>
    obtain rfl := eq_target_of_locate hlocate
    dsimp only
    rcases h.way _ (target_mem_way left directory) with heq | ⟨_, _, hleft, hright⟩
    · rw [heq]
      cases left.at? (left.target directory) with
      | none => exact h.makeMissing hnul
      | some entry => cases entry <;> exact ⟨rfl, h⟩
    · rw [hleft, hright]
      exact ⟨rfl, h⟩

end Making

section Children

variable (hnul : ∀ c ∈ directory, c ≠ 0) (hleaf : IsLeaf leaf) (hmem : leaf ∈ leaves)

omit h in
theorem Alike.at?_child (h : Alike directory leaves left right) (hmem : leaf ∈ leaves) :
    right.at? (leaf :: left.target directory) = left.at? (leaf :: left.target directory) :=
  h.at? leaf hmem []

omit h in
theorem Alike.put?_child (h : Alike directory leaves left right) (hmem : leaf ∈ leaves)
    (entry : Entry) : Option.Rel (Alike directory leaves)
      (left.put? leaf (left.target directory) entry) (right.put? leaf (left.target directory) entry) :=
  h.put? (h.way _ (target_mem_way left directory)) (Or.inl (h.at?_child hmem)) entry

include hnul hleaf

theorem Alike.locate_child :
    right.locate (directory.append leaf) = left.locate (directory.append leaf) := by
  obtain ⟨before, hbefore, hlocate⟩ := exists_locate_child hnul hleaf
  have horigin : right.origin directory = left.origin directory := by
    rw [origin, origin, h.here]
  have hway := (hbefore left).2
  rw [hlocate, hlocate, horigin, foldlM_step_eq fun q hq => h.way q (hway q hq)]
  cases hfold : before.foldlM left.step (left.origin directory) with
  | error cause => rfl
  | ok holder =>
    obtain rfl := (eq_foldl_of_foldlM_step hfold).trans (hbefore left).1
    have hstep := (h.way _ (target_mem_way left directory)).step_eq leaf
    exact if_congr Iff.rfl rfl hstep

include hmem

theorem Alike.entryAt_child :
    right.entryAt (directory.append leaf) = left.entryAt (directory.append leaf) := by
  rw [entryAt, entryAt, h.locate_child hnul hleaf]
  cases hlocate : left.locate (directory.append leaf) with
  | error cause => rfl
  | ok place =>
    obtain ⟨rfl, _⟩ := eq_of_locate_child hnul hleaf hlocate
    simp only [h.at?_child hmem]

theorem Alike.write?_child (content : Text) : Option.Rel (Alike directory leaves)
    (left.write? (directory.append leaf) content)
    (right.write? (directory.append leaf) content) := by
  rw [write?, write?, h.locate_child hnul hleaf]
  cases hlocate : left.locate (directory.append leaf) with
  | error cause => exact .none
  | ok place =>
    obtain ⟨rfl, _⟩ := eq_of_locate_child hnul hleaf hlocate
    have hclosed : right.isClosed (leaf :: left.target directory) =
        left.isClosed (leaf :: left.target directory) := by
      rw [isClosed, isClosed, h.at?_child hmem]
    simp only [hclosed]
    split
    · exact .none
    · exact h.put?_child hmem (.file content)

omit hnul hleaf in
theorem Alike.deleteAt_child : AlikeAnswers directory leaves
    (left.deleteAt (leaf :: left.target directory))
    (right.deleteAt (leaf :: left.target directory)) := by
  have hat := h.at?_child hmem
  have hnames : right.names (leaf :: left.target directory) = [] ↔
      left.names (leaf :: left.target directory) = [] := by
    rw [List.eq_nil_iff_forall_not_mem, List.eq_nil_iff_forall_not_mem]
    refine forall_congr' fun name => not_congr ?_
    have hname : right.at? (name :: leaf :: left.target directory) =
        left.at? (name :: leaf :: left.target directory) := h.at? leaf hmem [name]
    rw [mem_names_iff, mem_names_iff, hname]
  rw [deleteAt, deleteAt, hat]
  by_cases habsent : left.at? (leaf :: left.target directory) = none
  · rw [if_pos habsent, if_pos habsent]
    exact .failed _
  rw [if_neg habsent, if_neg habsent]
  by_cases hempty : left.names (leaf :: left.target directory) = []
  · obtain ⟨left', hleft⟩ : ∃ left', left.delete? leaf (left.target directory) = some left' :=
      ⟨_, dif_pos ⟨hempty, habsent⟩⟩
    obtain ⟨right', hright⟩ : ∃ right', right.delete? leaf (left.target directory) = some right' :=
      ⟨_, dif_pos ⟨hnames.2 hempty, hat ▸ habsent⟩⟩
    rw [hleft, hright]
    exact .done (h.of_change (delete?_eq_some_iff.1 hleft).2.2.2
      (delete?_eq_some_iff.1 hright).2.2.2 (at?_delete? hleft) (at?_delete? hright))
  · rw [delete?, delete?, dif_neg fun hand => hempty hand.1,
      dif_neg fun hand => hempty (hnames.1 hand.1)]
    exact .failed _

theorem Alike.remove_child : AlikeAnswers directory leaves
    (left.remove (directory.append leaf)) (right.remove (directory.append leaf)) := by
  rw [Files.remove_child hnul hleaf, Files.remove_child hnul hleaf, h.locate_child hnul hleaf]
  cases hlocate : left.locate (directory.append leaf) with
  | error cause => exact .failed cause
  | ok place =>
    obtain ⟨rfl, _⟩ := eq_of_locate_child hnul hleaf hlocate
    exact h.deleteAt_child hmem

theorem Alike.rename?_child {leaf' : Text} (hleaf' : IsLeaf leaf') (hmem' : leaf' ∈ leaves) :
    Option.Rel (Alike directory leaves)
      (left.rename? (directory.append leaf) (directory.append leaf'))
      (right.rename? (directory.append leaf) (directory.append leaf')) := by
  have hsource : (right.locate (directory.append leaf)).toOption.bind right.fileAt? =
      (left.locate (directory.append leaf)).toOption.bind left.fileAt? := by
    rw [h.locate_child hnul hleaf]
    cases hlocate : left.locate (directory.append leaf) with
    | error cause => rfl
    | ok place =>
      obtain ⟨rfl, _⟩ := eq_of_locate_child hnul hleaf hlocate
      change right.fileAt? _ = left.fileAt? _
      rw [fileAt?, fileAt?, h.at?_child hmem]
  rw [rename?, rename?, hsource, h.locate_child hnul hleaf']
  cases (left.locate (directory.append leaf)).toOption.bind left.fileAt? with
  | none => exact .none
  | some content =>
    cases hlocate : left.locate (directory.append leaf') with
    | error cause => exact .none
    | ok place =>
      obtain ⟨rfl, _⟩ := eq_of_locate_child hnul hleaf' hlocate
      dsimp only
      rcases rel_cases (h.put?_child hmem' (.file content)) with
        ⟨hleft, hright⟩ | ⟨put, put', hleft, hright, hput⟩
      · rw [hleft, hright]
        exact .none
      · rw [hleft, hright]
        exact (hput.remove_child hnul hleaf hmem).toOption

end Children

end Alike

section Changes

/-- Nothing is changed but children of a directory that bear certain names. -/
structure ChangesOnly (directory : Path) (leaves : Set Text) (before after : Files) : Prop where
  here : after.here = before.here
  at? : ∀ q, after.at? q = before.at? q ∨ ∃ leaf ∈ leaves, q = leaf :: before.target directory

theorem ChangesOnly.refl (files : Files) : ChangesOnly directory leaves files files :=
  ⟨rfl, fun _ => Or.inl rfl⟩

theorem ChangesOnly.trans {after after' : Files} (h : ChangesOnly directory leaves files after)
    (h' : ChangesOnly directory leaves after after') : ChangesOnly directory leaves files after' where
  here := h'.here.trans h.here
  at? q := by
    rcases h'.at? q with hsame | hleaf
    · rw [hsame]
      exact h.at? q
    · rw [target_congr h.here] at hleaf
      exact Or.inr hleaf

theorem changesOnly_of_change {after : Files} {entry : Option Entry} (hmem : leaf ∈ leaves)
    (hhere : after.here = files.here)
    (hat : ∀ q, after.at? q = if q = leaf :: files.target directory then entry else files.at? q) :
    ChangesOnly directory leaves files after where
  here := hhere
  at? q := by
    by_cases hq : q = leaf :: files.target directory
    · exact Or.inr ⟨leaf, hmem, hq⟩
    · exact Or.inl (by rw [hat, if_neg hq])

theorem changesOnly_put? {after : Files} {entry : Entry} (hmem : leaf ∈ leaves)
    (h : files.put? leaf (files.target directory) entry = some after) :
    ChangesOnly directory leaves files after :=
  changesOnly_of_change hmem (put?_eq_some_iff.1 h).2.2.2 (at?_put? h)

section Children

variable (hnul : ∀ c ∈ directory, c ≠ 0) (hleaf : IsLeaf leaf) (hmem : leaf ∈ leaves)

include hnul hleaf hmem

theorem changesOnly_write? {content : Text} {written : Files}
    (h : files.write? (directory.append leaf) content = some written) :
    ChangesOnly directory leaves files written := by
  rw [write?] at h
  cases hlocate : files.locate (directory.append leaf) with
  | error cause => simp [hlocate] at h
  | ok place =>
    obtain ⟨rfl, _⟩ := eq_of_locate_child hnul hleaf hlocate
    simp only [hlocate, Option.ite_none_left_eq_some] at h
    exact changesOnly_put? hmem h.2

theorem changesOnly_remove {removed : Files}
    (h : files.remove (directory.append leaf) = .ok removed) :
    ChangesOnly directory leaves files removed := by
  rw [remove_child hnul hleaf] at h
  cases hlocate : files.locate (directory.append leaf) with
  | error cause =>
    rw [hlocate] at h
    cases h
  | ok place =>
    obtain ⟨rfl, _⟩ := eq_of_locate_child hnul hleaf hlocate
    rw [hlocate] at h
    change files.deleteAt (leaf :: files.target directory) = .ok removed at h
    rw [deleteAt] at h
    split_ifs at h
    cases hdelete : files.delete? leaf (files.target directory) with
    | none => simp [hdelete] at h
    | some deleted =>
      rw [hdelete] at h
      obtain rfl := Except.ok.inj h
      exact changesOnly_of_change hmem (delete?_eq_some_iff.1 hdelete).2.2.2 (at?_delete? hdelete)

theorem changesOnly_rename? {leaf' : Text} (hleaf' : IsLeaf leaf') (hmem' : leaf' ∈ leaves)
    {renamed : Files}
    (h : files.rename? (directory.append leaf) (directory.append leaf') = some renamed) :
    ChangesOnly directory leaves files renamed := by
  rw [rename?] at h
  split at h
  · rename_i content name place _ hlocate
    obtain ⟨rfl, rfl⟩ := List.cons.inj (eq_of_locate_child hnul hleaf' hlocate).1
    obtain ⟨put, hput, hremove⟩ := Option.bind_eq_some_iff.1 h
    cases hremoved : put.remove (directory.append leaf) with
    | error cause => simp [hremoved, Except.toOption] at hremove
    | ok removed =>
      rw [hremoved] at hremove
      obtain rfl := Option.some.inj hremove
      exact (changesOnly_put? hmem' hput).trans (changesOnly_remove hnul hleaf hmem hremoved)
  · cases h

end Children

/-- Nothing is changed but children of a directory that bear certain names, and missing directories
that are made on the way to it. -/
structure Confined (directory : Path) (leaves : Set Text) (before after : Files) : Prop where
  here : after.here = before.here
  at? : ∀ q, after.at? q = before.at? q ∨
    (∃ leaf ∈ leaves, q = leaf :: before.target directory) ∨
    q ∈ before.way directory ∧ before.at? q = none ∧ after.at? q = some .directory

theorem ChangesOnly.confined {after : Files} (h : ChangesOnly directory leaves files after) :
    Confined directory leaves files after where
  here := h.here
  at? q := (h.at? q).imp_right Or.inl

theorem Confined.refl (files : Files) : Confined directory leaves files files :=
  (ChangesOnly.refl files).confined

theorem Confined.trans {after after' : Files} (h : Confined directory leaves files after)
    (h' : Confined directory leaves after after') : Confined directory leaves files after' where
  here := h'.here.trans h.here
  at? q := by
    have hat' := h'.at? q
    rw [target_congr h.here, way_congr h.here] at hat'
    rcases hat' with hsame' | hleaf | ⟨hway, hnone', hdirectory'⟩
    · rw [hsame']
      exact h.at? q
    · exact Or.inr (Or.inl hleaf)
    · rcases h.at? q with hsame | hleaf | ⟨_, _, hdirectory⟩
      · exact Or.inr (Or.inr ⟨hway, hsame.symm.trans hnone', hdirectory'⟩)
      · exact Or.inr (Or.inl hleaf)
      · rw [hdirectory] at hnone'
        cases hnone'

theorem Confined.mono {leaves' : Set Text} {after : Files} (h : Confined directory leaves files after)
    (hsub : leaves ⊆ leaves') : Confined directory leaves' files after where
  here := h.here
  at? q := by
    rcases h.at? q with hsame | ⟨leaf, hleaf, hq⟩ | hmade
    · exact Or.inl hsame
    · exact Or.inr (Or.inl ⟨leaf, hsub hleaf, hq⟩)
    · exact Or.inr (Or.inr hmade)

theorem confined_makeDirectories (hnul : ∀ c ∈ directory, c ≠ 0) (files : Files) :
    Confined directory leaves files (files.makeDirectories directory).2 where
  here := (addsDirectories_makeDirectories files directory).here
  at? q := by
    by_cases hway : q ∈ files.way directory
    · rcases (addsDirectories_makeDirectories files directory).at? q with hsame | hmade
      · exact Or.inl hsame
      · exact Or.inr (Or.inr ⟨hway, hmade⟩)
    · exact Or.inl (at?_makeDirectories_of_not_mem hnul hway)

end Changes

end Files

end StableOrdinals
