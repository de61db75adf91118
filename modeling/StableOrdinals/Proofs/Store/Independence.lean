import StableOrdinals.Block.Workload
import StableOrdinals.Proofs.Store.MissingDirectory
import StableOrdinals.Proofs.Store.Requests

/-!
# Requests for different objects

A request changes nothing but the files of its object and what it makes on the way to the store, and
nothing else counts for it. Once nothing is left to make (`Settled`), two requests for different
objects can change places (`independent_of_settled`). Where the directory of the store is missing,
the first creation makes it, and a request that changes nothing goes on as before
(`independent_of_steady`). So the order of two requests for different objects does not count
(`requests_for_different_objects_commute`).
-/

namespace StableOrdinals

open StableOrdinals.Path

namespace Files

variable {left right files after : Files} {directory : Path} {leaves leaves' : Set Text}

/-- The same entries stand in both trees, and relative paths start at the same place. -/
structure SameTree (left right : Files) : Prop where
  here : right.here = left.here
  at? : ∀ q, right.at? q = left.at? q

/-- Making a directory does not change anything. -/
def Settled (directory : Path) (files : Files) : Prop :=
  ∀ q, (files.makeDirectories directory).2.at? q = files.at? q

section Alike

variable (hnul : ∀ c ∈ directory, c ≠ 0)

include hnul

theorem Alike.settled (h : Alike directory leaves left right) (hsettled : left.Settled directory) :
    right.Settled directory := by
  intro q
  by_cases hway : q ∈ right.way directory
  · rcases (addsDirectories_makeDirectories right directory).at? q with hsame | ⟨hnone, hmade⟩
    · exact hsame
    -- What is made on the right is made on the left as well.
    · have hmadeAlike := (h.makeDirectories hnul).state
      have hhere := (addsDirectories_makeDirectories left directory).here
      rw [way_congr h.here] at hway
      have hleft : left.at? q = some .directory := by
        rw [← hsettled q]
        exact (hmadeAlike.way q (way_congr hhere directory ▸ hway)).directory_iff.1 hmade
      rw [(h.way q hway).directory_iff.2 hleft] at hnone
      cases hnone
  · exact at?_makeDirectories_of_not_mem hnul hway

theorem ChangesOnly.alike (hdots : (".." : Text) ∉ components directory)
    (hother : ∀ leaf ∈ leaves, leaf ∉ leaves') (h : ChangesOnly directory leaves files after) :
    Alike directory leaves' files after where
  here := h.here
  way q hq := by
    rcases h.at? q with hsame | ⟨leaf, _, rfl⟩
    · exact Or.inl hsame
    · exact absurd hq (child_not_mem_way hnul hdots files leaf)
  at? leaf hleaf below := by
    rcases h.at? (below ++ leaf :: files.target directory) with hsame | ⟨changed, hchanged, hplace⟩
    · exact hsame
    · have hne : leaf ≠ changed := by
        rintro rfl
        exact hother leaf hchanged hleaf
      exact absurd hplace (Location.append_cons_ne hne)

end Alike

end Files

namespace Store

open StableOrdinals.Files

variable (store : Store) {files : Files} {world after : World} {name other : Text}
  {leaves : Set Text} {p q : Request}

theorem draftLeaf_injective (h : draftLeaf name = draftLeaf other) : name = other :=
  List.append_cancel_left (List.append_cancel_right h)

theorem not_mem_ownLeaves (hne : name ≠ other) : ∀ leaf ∈ ownLeaves name, leaf ∉ ownLeaves other := by
  rintro leaf ⟨hvalid, rfl | rfl⟩ ⟨hvalid', hleaf | hleaf⟩
  · exact hne (fileLeaf_injective hleaf)
  · exact draftLeaf_ne_fileLeaf hvalid other hleaf.symm
  · exact draftLeaf_ne_fileLeaf hvalid' name hleaf
  · exact hne (draftLeaf_injective hleaf)

/-- Two requests have the same answers and leave the same tree behind, whichever of them comes
first. -/
structure Independent (p q : Request) (world : World) : Prop where
  first : (p.perform store (q.perform store world).2).1 = (p.perform store world).1
  second : (q.perform store (p.perform store world).2).1 = (q.perform store world).1
  files : SameTree (q.perform store (p.perform store world).2).2.files
    (p.perform store (q.perform store world).2).2.files

variable {store}

theorem Independent.symm (h : store.Independent p q world) : store.Independent q p world :=
  ⟨h.second, h.first, h.files.here.symm, fun place => (h.files.at? place).symm⟩

theorem Changes.changesOnly (h : store.Changes leaves world after)
    (hsettled : world.files.Settled store.directory) :
    world.files.ChangesOnly store.directory leaves after.files := by
  rcases h.files with hkept | hmade
  · exact hkept
  · have hhere := (addsDirectories_makeDirectories world.files store.directory).here
    refine ⟨hmade.here.trans hhere, fun place => ?_⟩
    rw [← hsettled place, ← target_congr hhere]
    exact hmade.at? place

section Settled

variable (hnul : ∀ c ∈ store.directory, c ≠ 0) (hdots : (".." : Text) ∉ components store.directory)

include hnul hdots

theorem Request.perform_settled (p : Request) (hsettled : world.files.Settled store.directory) :
    (p.perform store world).2.files.Settled store.directory := by
  have hchanges := (p.perform_changes store hnul world).changesOnly hsettled
  have halike : Files.Alike store.directory ∅ world.files (p.perform store world).2.files :=
    hchanges.alike hnul hdots fun leaf _ => Set.notMem_empty leaf
  exact halike.settled hnul hsettled

variable (hne : p.name ≠ q.name)

include hne

theorem perform_alike
    (hchanges : world.files.ChangesOnly store.directory (ownLeaves p.name) after.files) :
    SameOutcome (store.Alike (ownLeaves q.name) (world.log, after.log)) (q.perform store world)
      (q.perform store after) := by
  have halike := hchanges.alike hnul hdots (not_mem_ownLeaves hne)
  exact (alike_of_files halike).perform hnul q subset_rfl

variable (hsettled : world.files.Settled store.directory)

include hsettled

theorem at?_own {leaf : Text} (hleaf : leaf ∈ ownLeaves p.name) :
    (p.perform store (q.perform store world).2).2.files.at?
        (leaf :: world.files.target store.directory) =
      (q.perform store (p.perform store world).2).2.files.at?
        (leaf :: world.files.target store.directory) := by
  have hp := (p.perform_changes store hnul world).changesOnly hsettled
  have hq := (q.perform_changes store hnul world).changesOnly hsettled
  have hpq := (q.perform_changes store hnul (p.perform store world).2).changesOnly
    (p.perform_settled hnul hdots hsettled)
  have htarget := target_congr hp.here store.directory
  have hsame := (perform_alike hnul hdots hne.symm hq).state.files.at?_child hleaf
  rw [htarget] at hsame
  rw [hsame]
  rcases hpq.at? (leaf :: world.files.target store.directory) with hkept | ⟨leaf', hleaf', hplace⟩
  · exact hkept.symm
  · obtain rfl := (List.cons.inj hplace).1
    exact absurd hleaf' (not_mem_ownLeaves hne leaf hleaf)

theorem independent_of_settled : store.Independent p q world := by
  have hp := (p.perform_changes store hnul world).changesOnly hsettled
  have hq := (q.perform_changes store hnul world).changesOnly hsettled
  have hpq := (q.perform_changes store hnul (p.perform store world).2).changesOnly
    (p.perform_settled hnul hdots hsettled)
  have hqp := (p.perform_changes store hnul (q.perform store world).2).changesOnly
    (q.perform_settled hnul hdots hsettled)
  refine ⟨(perform_alike hnul hdots hne.symm hq).answer, (perform_alike hnul hdots hne hp).answer, ?_,
    fun place => ?_⟩
  · rw [hqp.here, hq.here, hpq.here, hp.here]
  have hpTarget := target_congr hp.here store.directory
  have hqTarget := target_congr hq.here store.directory
  by_cases hownP : ∃ leaf ∈ ownLeaves p.name, place = leaf :: world.files.target store.directory
  · obtain ⟨leaf, hleaf, rfl⟩ := hownP
    exact at?_own hnul hdots hne hsettled hleaf
  by_cases hownQ : ∃ leaf ∈ ownLeaves q.name, place = leaf :: world.files.target store.directory
  · obtain ⟨leaf, hleaf, rfl⟩ := hownQ
    exact (at?_own hnul hdots hne.symm hsettled hleaf).symm
  · rw [(hqp.at? place).resolve_right (hqTarget ▸ hownP), (hq.at? place).resolve_right hownQ,
      (hpq.at? place).resolve_right (hpTarget ▸ hownQ), (hp.at? place).resolve_right hownP]

end Settled

section Steady

variable (hnul : ∀ c ∈ store.directory, c ≠ 0) (hdots : (".." : Text) ∉ components store.directory)
  (hne : p.name ≠ q.name) {made : Files} {reply : Reply}

include hnul hdots hne

/-- A request that changes nothing has the same answer after some other files have changed, and
still changes nothing. -/
theorem sameTree_of_steady (hsteady : q.perform store world = (reply, world))
    (hchanges : world.files.ChangesOnly store.directory (ownLeaves p.name) after.files) :
    (q.perform store after).1 = reply ∧ SameTree (q.perform store after).2.files after.files := by
  have hothers := hchanges.alike hnul hdots (not_mem_ownLeaves hne)
  obtain ⟨hanswer, hstate⟩ := perform_alike hnul hdots hne hchanges
  rw [hsteady] at hanswer hstate
  have hconfined := (q.perform_changes store hnul after).confined hnul
  have htarget := target_congr hchanges.here store.directory
  refine ⟨hanswer, hconfined.here.symm, fun place => ?_⟩
  rcases hconfined.at? place with hsame | ⟨leaf, hleaf, rfl⟩ | ⟨hway, hnone, hdirectory⟩
  · exact hsame.symm
  · rw [htarget]
    exact (hothers.at?_child hleaf).trans (hstate.files.at?_child hleaf).symm
  -- On the way there is the same before and after, so that nothing has been made.
  · rw [way_congr hchanges.here] at hway
    have hbefore := (hstate.files.way place hway).directory_iff.1 hdirectory
    rw [(hothers.way place hway).directory_iff.2 hbefore] at hnone
    cases hnone

theorem independent_of_steady (hmake : (world.files.makeDirectories store.directory).2 = made)
    (hsteady : q.perform store world = (reply, world))
    (hsteady' : q.perform store { world with files := made } =
      (reply, { world with files := made })) : store.Independent p q world := by
  obtain ⟨hanswer, hfiles⟩ : (q.perform store (p.perform store world).2).1 = reply ∧
      SameTree (q.perform store (p.perform store world).2).2.files
        (p.perform store world).2.files := by
    rcases (p.perform_changes store hnul world).files with hchanges | hchanges
    · exact sameTree_of_steady hnul hdots hne hsteady hchanges
    · rw [hmake] at hchanges
      exact sameTree_of_steady hnul hdots hne hsteady' hchanges
  refine ⟨?_, ?_, ?_⟩
  · rw [hsteady]
  · rw [hsteady, hanswer]
  · rw [hsteady]
    exact hfiles

end Steady

section Assembly

variable (hplain : IsPlain store.directory) (hdots : (".." : Text) ∉ components store.directory)
  (hne : p.name ≠ q.name)

theorem settled_of_isDirectory {made : Files} {holder : Location}
    (h : made.IsDirectory store.directory holder) : made.Settled store.directory := by
  intro place
  rw [makeDirectories_of_isDirectory h]

theorem settled_of_status (h : files.status store.directory ≠ .ok none) :
    files.Settled store.directory := by
  intro place
  unfold makeDirectories
  split_ifs
  · rfl
  · rfl
  · cases hstatus : files.status store.directory with
    | error cause => rfl
    | ok found =>
      cases found with
      | none => exact absurd hstatus h
      | some entry => rfl

include hplain hdots hne

theorem independent_of_missing {made : Files}
    (hstatus : world.files.status store.directory = .ok none)
    (hmake : world.files.makeDirectories store.directory = (.ok (), made))
    (hmade : made.IsDirectory store.directory (world.files.target store.directory))
    (hfirst : q.isCreation = true → (fileLeaf p.name).length ≤ longestName)
    (hsecond : p.isCreation = true → (fileLeaf q.name).length ≤ longestName) :
    store.Independent p q world := by
  have hmade' : (world.files.makeDirectories store.directory).2 = made := by rw [hmake]
  have hidle {r : Request} (hcreation : r.isCreation = false) : (r.perform store world).2 = world := by
    have habsent : BothAbsent store r.name world world :=
      ⟨fun _ => rfl, not_hasFile_of_missing hplain hstatus⟩
    obtain ⟨reply, hreply, _⟩ := habsent.perform hcreation
    rw [hreply]
  cases hp : p.isCreation with
  | false =>
    cases hq : q.isCreation with
    | false =>
      refine ⟨by rw [hidle hq], by rw [hidle hp], ?_⟩
      rw [hidle hp, hidle hq, hidle hp]
      exact ⟨rfl, fun _ => rfl⟩
    | true =>
      rcases p.perform_of_made hplain hstatus hdots hmake hmade (hfirst hq) with
        ⟨reply, hsteady, hsteady'⟩ | ⟨hcreation, _⟩
      · exact (independent_of_steady hplain.no_nul hdots hne.symm hmade' hsteady hsteady').symm
      · rw [hp] at hcreation
        cases hcreation
  | true =>
    rcases q.perform_of_made hplain hstatus hdots hmake hmade (hsecond hp) with
      ⟨reply, hsteady, hsteady'⟩ | ⟨hq, hactive⟩
    · exact independent_of_steady hplain.no_nul hdots hne hmade' hsteady hsteady'
    rcases p.perform_of_made hplain hstatus hdots hmake hmade (hfirst hq) with
      ⟨reply, hsteady, hsteady'⟩ | ⟨_, hactive'⟩
    · exact (independent_of_steady hplain.no_nul hdots hne.symm hmade' hsteady hsteady').symm
    -- Both make the directory, whichever comes first.
    · have hindependent : store.Independent p q { world with files := made } :=
        independent_of_settled hplain.no_nul hdots hne (settled_of_isDirectory hmade)
      obtain ⟨hfirst, hsecond, hfiles⟩ := hindependent
      rw [hactive, hactive'] at hfirst hsecond hfiles
      exact ⟨hfirst, hsecond, hfiles⟩

end Assembly

/-- Beside a creation that makes the directory of the store, every component of its path and the
name of the other object's file are no longer than the system takes. -/
structure Fits (store : Store) (p q : Request) : Prop where
  components : ∀ component ∈ components store.directory, component.length ≤ longestName
  first : q.isCreation = true → (fileLeaf p.name).length ≤ longestName
  second : p.isCreation = true → (fileLeaf q.name).length ≤ longestName

def failure : Reply → Option StoreError
  | .found (.error e) => some e
  | .object (.error e) => some e
  | .removed (.error e) => some e
  | _ => none

theorem not_independent (h : failure (p.perform store (q.perform store world).2).1 ≠
    failure (p.perform store world).1) : ¬ store.Independent p q world :=
  fun hindependent => h (congrArg failure hindependent.first)

end Store

end StableOrdinals
