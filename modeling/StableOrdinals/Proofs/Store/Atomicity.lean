import StableOrdinals.Proofs.Files.Depth
import StableOrdinals.Proofs.Store.Attempts
import StableOrdinals.Proofs.Store.Modify
import StableOrdinals.Proofs.Store.Saving

/-!
# Failed operations

Whatever stands in the store and on the way to it, an operation that fails has changed nothing
there: an update and a removal fail before anything is written, and a modification whose change
leaves the store alone fails with its one attempt. Saving may fail after the draft has been written,
with a directory in place of the object's file, but then the draft is removed again, and it is not
missed unless one had stood there before (`SparesDraft`). Only a creation may have made directories
by then, of which at most the store's own is found where the path of the store leads, with nothing
in it: `failure_keeps_tree`.

It is left behind if the object cannot be written or its draft cannot be opened, as with a name that
is too long, and if the path leads up, so is a directory in a store that has been there before:
`failed_creation_makes_directory`.
-/

namespace StableOrdinals.Store

open StableOrdinals.Path

variable {ε σ : Type} (store : Store)

inductive Operation (ε σ : Type)
  | load (name : Text)
  | create (w : Workload)
  | update (w : Workload)
  | remove (name : Text)
  | modify (name : Text) (change : Change ε σ) (retries : ℤ)

def settle {α : Type} : Except StoreError α → Except (ModifyError ε) Unit
  | .ok _ => .ok ()
  | .error e => .error (.store e)

def Operation.perform (state : World × σ) :
    Operation ε σ → Except (ModifyError ε) Unit × (World × σ)
  | load name => (settle (store.load state.1.files name), state)
  | create w =>
    let (answer, world) := store.create state.1 w
    (settle answer, (world, state.2))
  | update w =>
    let (answer, world) := store.update state.1 w
    (settle answer, (world, state.2))
  | remove name =>
    let (answer, world) := store.remove state.1 name
    (settle answer, (world, state.2))
  | modify name change retries =>
    let (answer, state) := store.modify name change retries state
    (answer.map fun _ => (), state)

/-- The store is touched by nothing but the operation itself. -/
def Operation.LeavesStore : Operation ε σ → Prop
  | modify _ change _ => change.LeavesStore store
  | _ => True

/-- The draft of an object can be renamed, or there is none to be lost. -/
def SparesDraft (files : Files) (name : Text) : Prop :=
  store.RenamesDraft files name ∨ files.isFree (store.draft name) = true

/-- Of the object that the operation is going to save, if any. An object is created only where
nothing bears the name of its file. -/
def Operation.SparesDraft (state : World × σ) : Operation ε σ → Prop
  | create w => store.RenamesDraft (state.1.files.makeDirectories store.directory).2 w.name
  | update w => store.SparesDraft state.1.files w.name
  | modify name change _ => ∀ seen w, store.load state.1.files name = .ok seen →
      (change seen state).1 = .ok w → store.SparesDraft (change seen state).2.1.files w.name
  | _ => True

variable {store} {files files' : Files} {w : Workload} {name : Text} {world world' : World}
  {state after : World × σ} {change : Change ε σ} {e : StoreError} {failure : ModifyError ε}
  {holder q : Location}

theorem settle_eq_error {α : Type} {answer : Except StoreError α}
    (h : settle answer = .error failure) : ∃ e, answer = .error e ∧ failure = .store e := by
  cases answer with
  | ok a => cases h
  | error e => exact ⟨e, rfl, (Except.error.inj h).symm⟩

theorem at?_draft_of_isFree (h : files.IsDirectory store.directory holder)
    (hname : Workload.isValidName name = true)
    (hshort : Files.IsShort store.directory (draftLeaf name))
    (hfree : files.isFree (store.draft name) = true) : files.at? (draftLeaf name :: holder) = none := by
  by_contra hne
  obtain ⟨entry, hentry⟩ := Option.ne_none_iff_exists'.1 hne
  rw [Files.isFree, Files.status, draft_eq, h.entryAt_append (isLeaf_draftLeaf hname),
    if_pos hshort, hentry] at hfree
  cases entry <;> cases hfree

theorem save_error_at? (hname : Workload.isValidName w.name = true)
    (hspares : store.SparesDraft files w.name)
    (hmade : (files.makeDirectories store.directory).2 = files)
    (hsave : store.save files w = (.error e, files')) (q : Location) :
    files'.at? q = files.at? q := by
  rcases hspares with hrename | hfree
  · rw [← hmade] at hrename
    rw [(store.save_error_of_renamesDraft hrename hsave).1, hmade]
  · have hsaved := store.saved_of_error hname hsave
    rw [hmade] at hsaved
    cases hsaved with
    | refused cause => rfl
    | @draftLost holder after cause directory short same at? =>
      rw [at?]
      split_ifs with hq
      · rw [hq, at?_draft_of_isFree directory hname short hfree]
      · rfl

theorem update_error_at? (hspares : store.SparesDraft world.files w.name)
    (h : store.update world w = (.error e, world')) (q : Location) :
    world'.files.at? q = world.files.at? q := by
  rcases store.update_cases world w with
    ⟨_, hfiles⟩ | ⟨current, stored, hload, _, rfl, hanswer, hfiles⟩
  · rw [h] at hfiles
    exact congrArg (Files.at? · q) hfiles
  · rw [h] at hanswer hfiles
    have hsave : store.save world.files { w with version := w.version + 1 } =
        (.error e, world'.files) := by
      rw [hfiles]
      exact Prod.ext (error_of_map_error hanswer.symm) rfl
    by_cases hplain : IsPlain store.directory
    · obtain ⟨holder, hholder⟩ := store.isDirectory_of_load hplain hload
      exact save_error_at? (w := { w with version := w.version + 1 })
        (store.isValidName_of_load hload) hspares
        (congrArg Prod.snd (makeDirectories_of_isDirectory hholder)) hsave q
    · obtain ⟨cause, hcause⟩ :=
        store.save_of_not_plain (w := { w with version := w.version + 1 }) hplain hload
      rw [(Prod.mk.inj (hsave.symm.trans hcause)).2]

theorem remove_error_files (h : store.remove world name = (.error e, world')) :
    world'.files = world.files := by
  rcases store.remove_cases world name with ⟨_, hfiles⟩ | ⟨_, hanswer, _⟩
  · rw [h] at hfiles
    exact hfiles
  · rw [h] at hanswer
    cases hanswer

section Modify

variable (hchange : change.LeavesStore store)
  (hspares : ∀ seen w, store.load state.1.files name = .ok seen →
    (change seen state).1 = .ok w → store.SparesDraft (change seen state).2.1.files w.name)

include hchange hspares

theorem attempt_error_at? {again : Bool}
    (h : store.attempt name change state = (.error failure, again, after)) :
    again = false ∧ ∀ q, state.1.files.target store.directory <:+ q →
      after.1.files.at? q = state.1.files.at? q := by
  unfold attempt at h
  cases hload : store.load state.1.files name with
  | error e =>
    simp only [hload, Prod.mk.injEq] at h
    rw [← h.2.2]
    exact ⟨h.2.1.symm, fun _ _ => rfl⟩
  | ok seen =>
    have huntouched := hchange seen state
    have hdraft := hspares seen
    cases happly : change seen state with
    | mk answer between =>
      rw [happly] at huntouched hdraft
      cases answer with
      | error e =>
        simp only [hload, happly, Prod.mk.injEq] at h
        rw [← h.2.2]
        exact ⟨h.2.1.symm, huntouched.at?⟩
      | ok w =>
        cases hupdate : store.update between.1 w with
        | mk answer world =>
          cases answer with
          | ok stored => simp [hload, happly, hupdate] at h
          | error e =>
            have hstill : store.load world.files name = .ok seen := by
              rw [(store.update_error hupdate).2 name, huntouched.load_eq, hload]
            simp only [hload, happly, hupdate, store.isOvertaken_of_load hstill, Prod.mk.injEq] at h
            rw [← h.2.2]
            refine ⟨h.2.1.symm, ?_⟩
            intro q hq
            have hkept := update_error_at? (hdraft w hload rfl) hupdate q
            exact hkept.trans (huntouched.at? q hq)

theorem modify_error_at? {retries : ℤ}
    (h : store.modify name change retries state = (.error failure, after)) :
    ∀ q, state.1.files.target store.directory <:+ q →
      after.1.files.at? q = state.1.files.at? q := by
  unfold modify at h
  cases hleft : (retries + 1).toNat with
  | zero =>
    simp only [hleft, attempts, Prod.mk.injEq] at h
    rw [← h.2]
    exact fun _ _ => rfl
  | succ left =>
    rw [hleft] at h
    cases hload : store.load state.1.files name with
    | error e =>
      simp only [attempts, attempt_of_load_error change hload, Prod.mk.injEq] at h
      rw [← h.2]
      exact fun _ _ => rfl
    | ok seen =>
      rcases attempt_of_load change hload with
        ⟨stored, last, hattempt, _⟩ | ⟨cause, again, last, hattempt, _⟩
      · simp [attempts, hattempt] at h
      · obtain ⟨rfl, hkept⟩ := attempt_error_at? hchange hspares hattempt
        simp only [attempts, hattempt, Prod.mk.injEq] at h
        rw [← h.2]
        exact hkept

end Modify

/-- A creation that fails has written nothing. It has made the directory of the store, or tried to,
if it has come to that. -/
theorem create_error_files
    (hrename : store.RenamesDraft (world.files.makeDirectories store.directory).2 w.name)
    (h : store.create world w = (.error e, world')) :
    world'.files = world.files ∨
      world'.files = (world.files.makeDirectories store.directory).2 ∧
        ((∃ cause, (world.files.makeDirectories store.directory).1 = .error cause) ∨
          (∃ cause, e = .notEncoded w.name cause) ∨ e = .unwritable (store.draft w.name)) := by
  rcases store.create_cases world w with ⟨_, hfiles⟩ | ⟨stored, _, _, rfl, hanswer, hfiles⟩
  · rw [h] at hfiles
    exact Or.inl hfiles
  · rw [h] at hanswer hfiles
    have hsave : store.save world.files { w with version := 1 } = (.error e, world'.files) := by
      rw [hfiles]
      exact Prod.ext (error_of_map_error hanswer.symm) rfl
    exact Or.inr (store.save_error_of_renamesDraft (w := { w with version := 1 }) hrename hsave)

/-- Of the directories that are made for a path that never leads up, only the last one stands at its
target or below. -/
theorem at?_makeDirectories_of_suffix (hplain : IsPlain store.directory)
    (hdots : (".." : Text) ∉ store.directory.components)
    (hq : files.target store.directory <:+ q) :
    (files.makeDirectories store.directory).2.at? q = files.at? q ∨
      q = files.target store.directory ∧ files.at? q = none ∧
        (files.makeDirectories store.directory).2.at? q = some .directory := by
  rcases hq.length_le.lt_or_eq with hlt | heq
  · exact Or.inl (Files.at?_makeDirectories hplain hdots hlt)
  · obtain rfl := hq.eq_of_length heq
    rcases (Files.addsDirectories_makeDirectories files store.directory).at?
      (files.target store.directory) with hsame | hnew
    · exact Or.inl hsame
    · exact Or.inr ⟨rfl, hnew⟩

theorem perform_error_at? {operation : Operation ε σ} (hchange : operation.LeavesStore store)
    (hspares : operation.SparesDraft store state) (hcreate : ∀ w, operation ≠ .create w)
    (hfail : operation.perform store state = (.error failure, after)) :
    ∀ q, state.1.files.target store.directory <:+ q →
      after.1.files.at? q = state.1.files.at? q := by
  cases operation with
  | load name =>
    simp only [Operation.perform, Prod.mk.injEq] at hfail
    rw [← hfail.2]
    exact fun _ _ => rfl
  | create w => exact absurd rfl (hcreate w)
  | update w =>
    cases hupdate : store.update state.1 w with
    | mk answer world =>
      simp only [Operation.perform, hupdate, Prod.mk.injEq] at hfail
      obtain ⟨e, rfl, _⟩ := settle_eq_error hfail.1
      rw [← hfail.2]
      exact fun q _ => update_error_at? hspares hupdate q
  | remove name =>
    cases hremove : store.remove state.1 name with
    | mk answer world =>
      simp only [Operation.perform, hremove, Prod.mk.injEq] at hfail
      obtain ⟨e, rfl, _⟩ := settle_eq_error hfail.1
      rw [← hfail.2]
      exact fun q _ => congrArg (Files.at? · q) (remove_error_files hremove)
  | modify name change retries =>
    cases hmodify : store.modify name change retries state with
    | mk answer last =>
      simp only [Operation.perform, hmodify, Prod.mk.injEq] at hfail
      rw [← hfail.2]
      cases answer with
      | ok stored => cases hfail.1
      | error cause => exact modify_error_at? hchange hspares hmodify

/-- After a failure every entry of the store is as it was, and its directory too, unless it was a
creation. This one may have made directories, but where the path of the store leads and below it has
changed nothing, except that the store's directory may now stand where nothing stood, if the object
could not be written or its draft not opened. -/
theorem failure_keeps_tree (store : Store) (operation : Operation ε σ)
    (hchange : operation.LeavesStore store) (state : World × σ)
    (hspares : operation.SparesDraft store state) (failure : ModifyError ε) (after : World × σ)
    (hfail : operation.perform store state = (.error failure, after)) :
    ((∀ w, operation ≠ .create w) → ∀ q, state.1.files.target store.directory <:+ q →
        after.1.files.at? q = state.1.files.at? q) ∧
      ∀ w, operation = .create w →
        Files.AddsDirectories state.1.files after.1.files ∧
          (IsPlain store.directory → (".." : Text) ∉ store.directory.components →
            ∀ q, state.1.files.target store.directory <:+ q →
              after.1.files.at? q = state.1.files.at? q ∨
                q = state.1.files.target store.directory ∧ state.1.files.at? q = none ∧
                  after.1.files.at? q = some .directory ∧
                  ((∃ cause, failure = .store (.notEncoded w.name cause)) ∨
                    failure = .store (.unwritable (store.draft w.name)))) := by
  refine ⟨fun hcreate => perform_error_at? hchange hspares hcreate hfail, ?_⟩
  rintro w rfl
  cases hcreate : store.create state.1 w with
  | mk answer world =>
    simp only [Operation.perform, hcreate, Prod.mk.injEq] at hfail
    obtain ⟨hanswer, rfl⟩ := hfail
    obtain ⟨e, rfl, rfl⟩ := settle_eq_error hanswer
    rcases create_error_files hspares hcreate with hsame | ⟨hmade, hcause⟩
    · rw [hsame]
      exact ⟨.refl _, fun _ _ _ _ => Or.inl rfl⟩
    · rw [hmade]
      refine ⟨Files.addsDirectories_makeDirectories _ _, ?_⟩
      intro hplain hdots q hq
      rcases hcause with ⟨cause, hcause⟩ | hcause
      · exact Or.inl (Files.at?_makeDirectories_of_error hplain hdots hcause hq.length_le)
      · rcases at?_makeDirectories_of_suffix hplain hdots hq with hsame | ⟨htarget, hnew⟩
        · exact Or.inl hsame
        · refine Or.inr ⟨htarget, hnew.1, hnew.2, ?_⟩
          rcases hcause with ⟨cause, rfl⟩ | rfl
          · exact Or.inl ⟨cause, rfl⟩
          · exact Or.inr rfl

/-- A directory bears the name of the object's file. It is loaded as an object of version 0, but no
draft can be renamed to it. -/
theorem failure_keeps_tree_web :
    let store : Store := ⟨"/objects", Block.format "no block notation"⟩
    let files := ((Files.empty []).makeDirectories "/objects/web.yaml").2
    let scale : Change Unit Unit := fun w state => (.ok { w with replicas := 2 }, state)
    let operation : Operation Unit Unit := .modify "web" scale 3
    let state : World × Unit := (⟨files, []⟩, ())
    operation.LeavesStore store ∧ operation.SparesDraft store state ∧
      ∃ after, operation.perform store state = (.error (.store (.notStored "web")), after) ∧
        ∀ q, files.target store.directory <:+ q → after.1.files.at? q = files.at? q := by
  intro store files scale operation state
  have hchange : operation.LeavesStore store := fun _ _ => ⟨rfl, rfl, fun _ _ => rfl⟩
  have hfree : files.isFree (store.draft "web") = true := by decide +kernel
  have hspares : operation.SparesDraft store state := by
    intro seen w hload happly
    obtain rfl := Except.ok.inj happly
    have hname : seen.name = "web" := store.name_of_load hload
    refine Or.inr ?_
    rw [hname]
    exact hfree
  have hanswer : (operation.perform store state).1 = .error (.store (.notStored "web")) := by
    decide +kernel
  have hfail : operation.perform store state =
      (.error (.store (.notStored "web")), (operation.perform store state).2) :=
    Prod.ext hanswer rfl
  obtain ⟨hsame, _⟩ := failure_keeps_tree store operation hchange state hspares _ _ hfail
  exact ⟨hchange, hspares, _, hfail, hsame nofun⟩

/-- With the object's name, the name of the draft is longer than a name can be. In the first store
nothing has stood, and what the creation leaves behind bears the name of an object's file. The path
of the second one leads up from a directory in it. -/
theorem failed_creation_makes_directory :
    let name : Text := List.replicate 250 'a'
    let operation : Operation Unit Unit := .create ⟨name, 0, 0, none⟩
    let format := Block.format "no block notation"
    ∀ failing ∈ [(Store.mk "x/web.yaml" format, Files.empty [], (["web.yaml", "x"] : Location)),
        (Store.mk "/s/a/.." format, ((Files.empty []).makeDirectories "/s").2, ["a", "s"])],
      let (store, files, place) := failing
      let state : World × Unit := (⟨files, []⟩, ())
      operation.LeavesStore store ∧ operation.SparesDraft store state ∧
        files.target store.directory <:+ place ∧
        ∃ failure after, operation.perform store state = (.error failure, after) ∧
          files.at? place = none ∧ after.1.files.at? place = some .directory := by
  intro name operation format failing hfailing
  have hfacts : (operation.perform failing.1 (⟨failing.2.1, []⟩, ())).1 =
        .error (.store (.unwritable (failing.1.draft name))) ∧
      ¬ (failing.2.1.makeDirectories failing.1.directory).2.CanOpen (failing.1.draft name) ∧
      failing.2.1.target failing.1.directory <:+ failing.2.2 ∧
      failing.2.1.at? failing.2.2 = none ∧
      (operation.perform failing.1 (⟨failing.2.1, []⟩, ())).2.1.files.at? failing.2.2 =
        some .directory := by
    revert failing
    decide +kernel
  obtain ⟨store, files, place⟩ := failing
  obtain ⟨hanswer, hclosed, hbelow, hbefore, hafter⟩ := hfacts
  have hchange : operation.LeavesStore store := trivial
  have hspares : operation.SparesDraft store (⟨files, []⟩, ()) := by
    intro content written hwrite
    exact absurd ((Files.canOpen_iff content).2 ⟨written, hwrite⟩) hclosed
  clear_value operation
  exact ⟨hchange, hspares, hbelow, _, _, Prod.ext hanswer rfl, hbefore, hafter⟩

end StableOrdinals.Store
