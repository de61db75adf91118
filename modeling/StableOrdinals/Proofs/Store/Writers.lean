import Mathlib.Tactic.IntervalCases
import StableOrdinals.Block.Workload
import StableOrdinals.Proofs.Store.Outcomes

/-!
# Racing writers

Any number of clients load, create, update and remove the objects of a store, in any order. A run is
the list of their operations, each of which is answered in the state that those before it have left.
What an update sends is derived from the object that an earlier operation was answered with, so that
it bears the same name and the same version.

As long as the format reads back what the run stores (`ReadsBack`), a derived object is behind the
stored one by as many versions as there were updates since (`IsBehind`). Versions come round again
only after `2 ^ 64` updates, so that an accepted update replaces exactly the object that it derives
from (`no_silent_overwrite`), as long as that object was not removed or created anew in the
meantime. A creation starts at version 1 whatever bore the name before, and then an update that
knows nothing of it may replace it (`overwrite_after_recreation`).
-/

namespace StableOrdinals.Writers

inductive Operation
  | load (name : Text)
  | create (w : Workload)
  /-- An update by the object that the answer with the number `source` holds, after a change. -/
  | update (source : ℕ) (replicas : Int32) (bag : Bag)
  | remove (name : Text)

inductive Answer
  | loaded (w : Workload)
  | created (w : Workload)
  | updated (w : Workload)
  | removed (name : Text)
  | refused (cause : StoreError)
  /-- The source of an update holds no object. -/
  | idle

namespace Answer

def object? : Answer → Option Workload
  | loaded w | created w | updated w => some w
  | _ => none

/-- What has been stored, and not merely loaded. -/
def stored? : Answer → Option Workload
  | created w | updated w => some w
  | _ => none

def isUpdate : Answer → Bool
  | updated _ => true
  | _ => false

def isUpdateOf (name : Text) : Answer → Bool
  | updated w => w.name = name
  | _ => false

/-- The versions of the name start over. -/
def restarts (name : Text) : Answer → Bool
  | created w => w.name = name
  | removed other => other = name
  | _ => false

@[simp] theorem restarts_created {name : Text} {w : Workload} :
    (created w).restarts name = true ↔ w.name = name := by
  simp [restarts]

@[simp] theorem restarts_removed {name other : Text} :
    (removed other).restarts name = true ↔ other = name := by
  simp [restarts]

@[simp] theorem isUpdateOf_updated {name : Text} {w : Workload} :
    (updated w).isUpdateOf name = true ↔ w.name = name := by
  simp [isUpdateOf]

theorem isUpdate_of_isUpdateOf {name : Text} {answer : Answer}
    (h : answer.isUpdateOf name = true) : answer.isUpdate = true := by
  cases answer with
  | updated w => rfl
  | _ => cases h

end Answer

structure State where
  world : World
  answers : List Answer

/-- A change of an object that leaves its name and its version alone. -/
def derive (origin : Workload) (replicas : Int32) (bag : Bag) : Workload :=
  { origin with replicas := replicas, annotations := bag }

@[simp] theorem derive_name (origin : Workload) (replicas : Int32) (bag : Bag) :
    (derive origin replicas bag).name = origin.name := rfl

@[simp] theorem derive_version (origin : Workload) (replicas : Int32) (bag : Bag) :
    (derive origin replicas bag).version = origin.version := rfl

variable (store : Store) (world : World) (operations : List Operation)

def perform (state : State) : Operation → Answer × World
  | .load name =>
    match store.load state.world.files name with
    | .ok w => (.loaded w, state.world)
    | .error e => (.refused e, state.world)
  | .create w =>
    match store.create state.world w with
    | (.ok stored, world) => (.created stored, world)
    | (.error e, world) => (.refused e, world)
  | .update source replicas bag =>
    match state.answers[source]?.bind Answer.object? with
    | none => (.idle, state.world)
    | some origin =>
      match store.update state.world (derive origin replicas bag) with
      | (.ok stored, world) => (.updated stored, world)
      | (.error e, world) => (.refused e, world)
  | .remove name =>
    match store.remove state.world name with
    | (.ok (), world) => (.removed name, world)
    | (.error e, world) => (.refused e, world)

def step (state : State) (operation : Operation) : State :=
  ⟨(perform store state operation).2, state.answers ++ [(perform store state operation).1]⟩

def stateAt (i : ℕ) : State := (operations.take i).foldl (step store) ⟨world, []⟩

def answers : List Answer := (stateAt store world operations operations.length).answers

section Runs

variable {store world operations} {i j : ℕ}

theorem stateAt_succ (hi : i < operations.length) :
    stateAt store world operations (i + 1) =
      step store (stateAt store world operations i) operations[i] := by
  unfold stateAt
  rw [List.take_succ_eq_append_getElem hi, List.foldl_append, List.foldl_cons, List.foldl_nil]

theorem length_answers_stateAt (hi : i ≤ operations.length) :
    (stateAt store world operations i).answers.length = i := by
  induction i with
  | zero => rfl
  | succ i ih =>
    rw [stateAt_succ hi]
    change (_ ++ [_]).length = _
    rw [List.length_append, ih (by omega), List.length_singleton]

theorem answers_stateAt_of_le (hij : i ≤ j) (hj : j ≤ operations.length) :
    (stateAt store world operations j).answers.take i =
      (stateAt store world operations i).answers := by
  induction j, hij using Nat.le_induction with
  | base => exact List.take_of_length_le (length_answers_stateAt hj).le
  | succ j hij ih =>
    rw [stateAt_succ hj]
    change (_ ++ [_]).take i = _
    rw [List.take_append_of_le_length (by rw [length_answers_stateAt (by omega)]; exact hij),
      ih (by omega)]

theorem answers_stateAt (hi : i ≤ operations.length) :
    (stateAt store world operations i).answers = (answers store world operations).take i :=
  (answers_stateAt_of_le hi le_rfl).symm

theorem getElem?_answers (hi : i < operations.length) :
    (answers store world operations)[i]? =
      some (perform store (stateAt store world operations i) operations[i]).1 := by
  have htake : (answers store world operations).take (i + 1) =
      (stateAt store world operations i).answers ++
        [(perform store (stateAt store world operations i) operations[i]).1] := by
    rw [← answers_stateAt hi, stateAt_succ hi]
    rfl
  rw [← List.getElem?_take_of_lt (Nat.lt_succ_self i), htake,
    List.getElem?_append_right (length_answers_stateAt hi.le).le, length_answers_stateAt hi.le,
    Nat.sub_self]
  rfl

end Runs

/-- The answers after the one with the number `source` and before the one with the number `i`. -/
def between (all : List Answer) (source i : ℕ) : List Answer := (all.take i).drop (source + 1)

def updates (name : Text) (since : List Answer) : ℕ := since.countP (Answer.isUpdateOf name)

theorem updates_append (name : Text) (since : List Answer) (answer : Answer) :
    updates name (since ++ [answer]) =
      updates name since + if answer.isUpdateOf name = true then 1 else 0 := by
  rw [updates, List.countP_append, List.countP_singleton]
  rfl

/-- What has been stored on the way to some answers is read back. -/
def ReadsBack (all : List Answer) : Prop :=
  ∀ answer ∈ all, ∀ w ∈ answer.stored?, store.format.ReadsBack w

/-- The object has become what is kept now by the updates among the answers since. -/
structure IsBehind (origin : Workload) (files : Files) (since : List Answer) : Prop where
  isValidName : Workload.isValidName origin.name = true
  kept : ∃ current, store.kept? files origin.name = some current ∧
    current.version = origin.version + UInt64.ofNat (updates origin.name since) ∧
    (updates origin.name since = 0 → current = origin)

variable {store world operations}
variable {origin stored w : Workload} {files files' : Files} {since : List Answer} {answer : Answer}
  {state : State} {world' : World}

theorem isBehind_of_load (hplain : Path.IsPlain store.directory)
    (h : store.load files origin.name = .ok origin) : IsBehind store origin files [] where
  isValidName := store.isValidName_of_load h
  kept := ⟨origin, store.kept?_of_load hplain h, (UInt64.add_zero _).symm, fun _ => rfl⟩

theorem IsBehind.of_leavesAlone (h : IsBehind store origin files since)
    (hleaves : Store.LeavesAlone files files' origin.name)
    (hanswer : answer.isUpdateOf origin.name = false) :
    IsBehind store origin files' (since ++ [answer]) := by
  obtain ⟨current, hkept, hversion, hzero⟩ := h.kept
  refine ⟨h.isValidName, current, hleaves.kept?_eq store hkept, ?_⟩
  rw [updates_append, if_neg (by simp [hanswer])]
  exact ⟨hversion, hzero⟩

theorem IsBehind.of_update (h : IsBehind store origin files since) (hname : w.name = origin.name)
    (hupdate : store.update world w = (.ok stored, world')) (hfiles : world.files = files)
    (hback : store.format.ReadsBack stored) :
    IsBehind store origin world'.files (since ++ [.updated stored]) := by
  have hplain := store.isPlain_of_update_ok hupdate
  obtain ⟨current, hkept, hversion, _⟩ := h.kept
  obtain ⟨loaded, hload, hloaded, rfl, hstored, _⟩ := store.update_ok hupdate
  have hstored := hstored hback
  rw [hname] at hload hstored
  have hsame : loaded = current := by
    rw [hfiles] at hload
    exact Option.some.inj ((store.kept?_of_load hplain hload).symm.trans hkept)
  refine ⟨h.isValidName, _, store.kept?_of_load hplain hstored, ?_⟩
  have hcount : updates origin.name (since ++ [.updated { w with version := w.version + 1 }]) =
      updates origin.name since + 1 := by
    rw [updates_append, if_pos]
    exact Answer.isUpdateOf_updated.2 hname
  rw [hcount]
  constructor
  · rw [← hloaded, hsame, hversion, UInt64.ofNat_add, UInt64.add_assoc]
    rfl
  · intro hzero
    omega

theorem load_of_object? (hplain : Path.IsPlain store.directory) {operation : Operation}
    (h : (perform store state operation).1.object? = some origin)
    (hback : ∀ w ∈ (perform store state operation).1.stored?, store.format.ReadsBack w) :
    store.load (perform store state operation).2.files origin.name = .ok origin := by
  cases operation with
  | load name =>
    cases hload : store.load state.world.files name with
    | error e => simp [perform, hload, Answer.object?] at h
    | ok w =>
      simp only [perform, hload, Answer.object?, Option.some.injEq] at h ⊢
      rw [← h, store.name_of_load hload, hload]
  | create w =>
    cases hcreate : store.create state.world w with
    | mk answer after =>
      cases answer with
      | error e => simp [perform, hcreate, Answer.object?] at h
      | ok stored =>
        obtain ⟨rfl, hload⟩ := store.create_ok hplain hcreate
        simp only [perform, hcreate, Answer.object?, Option.some.injEq] at h hback ⊢
        rw [← h]
        exact hload (hback _ rfl)
  | update source replicas bag =>
    cases hsource : state.answers[source]?.bind Answer.object? with
    | none => simp [perform, hsource, Answer.object?] at h
    | some held =>
      cases hupdate : store.update state.world (derive held replicas bag) with
      | mk answer after =>
        cases answer with
        | error e => simp [perform, hsource, hupdate, Answer.object?] at h
        | ok stored =>
          obtain ⟨_, _, _, rfl, hload, _⟩ := store.update_ok hupdate
          simp only [perform, hsource, hupdate, Answer.object?, Option.some.injEq] at h hback ⊢
          rw [← h]
          exact hload (hback _ rfl)
  | remove name =>
    cases hremove : store.remove state.world name with
    | mk answer after => cases answer <;> simp [perform, hremove, Answer.object?] at h

/-- The step lemma: one case for each kind of operation. -/
theorem IsBehind.next (hplain : Path.IsPlain store.directory)
    (h : IsBehind store origin state.world.files since) {operation : Operation}
    (hrestarts : ¬ (perform store state operation).1.restarts origin.name)
    (hback : ∀ w ∈ (perform store state operation).1.stored?, store.format.ReadsBack w) :
    IsBehind store origin (perform store state operation).2.files
      (since ++ [(perform store state operation).1]) := by
  have hname := h.isValidName
  cases operation with
  | load name =>
    cases hload : store.load state.world.files name <;>
      simp only [perform, hload] <;>
      exact h.of_leavesAlone (Store.leavesAlone_refl _ _) rfl
  | create w =>
    have hleaves := (store.create_savesAtMost state.world w).leavesAlone store hplain hname
    cases hcreate : store.create state.world w with
    | mk answer after =>
      rw [hcreate] at hleaves
      cases answer with
      | error e =>
        simp only [perform, hcreate]
        exact h.of_leavesAlone (hleaves (Or.inr ⟨e, rfl⟩)) rfl
      | ok stored =>
        obtain ⟨rfl, _⟩ := store.create_ok hplain hcreate
        simp only [perform, hcreate, Answer.restarts_created] at hrestarts ⊢
        exact h.of_leavesAlone (hleaves (Or.inl (Ne.symm hrestarts))) rfl
  | update source replicas bag =>
    cases hsource : state.answers[source]?.bind Answer.object? with
    | none =>
      simp only [perform, hsource]
      exact h.of_leavesAlone (Store.leavesAlone_refl _ _) rfl
    | some held =>
      have hleaves := (store.update_savesAtMost state.world
        (derive held replicas bag)).leavesAlone store hplain hname
      cases hupdate : store.update state.world (derive held replicas bag) with
      | mk answer after =>
        rw [hupdate] at hleaves
        simp only [perform, hsource, hupdate] at hback ⊢
        cases answer with
        | error e =>
          exact h.of_leavesAlone (hleaves (Or.inr ⟨e, rfl⟩)) rfl
        | ok stored =>
          -- Only an update of the object itself makes it fall behind.
          by_cases hheld : held.name = origin.name
          · exact h.of_update (w := derive held replicas bag) hheld hupdate rfl (hback _ rfl)
          · obtain ⟨_, _, _, rfl, _⟩ := store.update_ok hupdate
            exact h.of_leavesAlone (hleaves (Or.inl (Ne.symm hheld)))
              (decide_eq_false hheld)
  | remove name =>
    have hleaves := store.remove_leavesAlone hplain state.world origin.name name
    cases hremove : store.remove state.world name with
    | mk answer after =>
      rw [hremove] at hleaves
      cases answer with
      | error e =>
        simp only [perform, hremove]
        exact h.of_leavesAlone (hleaves (Or.inr ⟨e, rfl⟩)) rfl
      | ok _ =>
        simp only [perform, hremove, Answer.restarts_removed] at hrestarts ⊢
        exact h.of_leavesAlone (hleaves (Or.inl (Ne.symm hrestarts))) rfl

section Runs

variable {i j source : ℕ} {replicas : Int32} {bag : Bag}

theorem between_succ (hsource : source < i) (hi : i < operations.length) :
    between (answers store world operations) source (i + 1) =
      between (answers store world operations) source i ++
        [(perform store (stateAt store world operations i) operations[i]).1] := by
  have hlength : source + 1 ≤ (stateAt store world operations i).answers.length := by
    rw [length_answers_stateAt hi.le]
    exact hsource
  rw [between, between, ← answers_stateAt hi, ← answers_stateAt hi.le, stateAt_succ hi]
  exact List.drop_append_of_le_length hlength

theorem ReadsBack.perform (h : ReadsBack store (answers store world operations))
    (hi : i < operations.length) : ∀ w ∈ (Writers.perform store (stateAt store world operations i)
      operations[i]).1.stored?, store.format.ReadsBack w :=
  h _ (List.mem_of_getElem? (getElem?_answers hi))

/-- The run lemma: an object is behind by the updates since it was seen, for as long as its versions
do not start over. -/
theorem isBehind_stateAt (hplain : Path.IsPlain store.directory)
    (hback : ReadsBack store (answers store world operations))
    (horigin : (answers store world operations)[source]?.bind Answer.object? = some origin)
    (hkept : ∀ answer ∈ between (answers store world operations) source i,
      ¬ answer.restarts origin.name)
    (hsource : source < i) (hi : i ≤ operations.length) :
    IsBehind store origin (stateAt store world operations i).world.files
      (between (answers store world operations) source i) := by
  induction i, hsource using Nat.le_induction with
  | base =>
    rw [getElem?_answers hi, Option.bind_some] at horigin
    rw [between, ← answers_stateAt hi, List.drop_of_length_le (length_answers_stateAt hi).le,
      stateAt_succ hi]
    exact isBehind_of_load hplain (load_of_object? hplain horigin (hback.perform hi))
  | succ i hsource ih =>
    rw [between_succ hsource hi] at hkept ⊢
    rw [List.forall_mem_append, List.forall_mem_singleton] at hkept
    rw [stateAt_succ hi]
    exact (ih hkept.1 (by omega)).next hplain hkept.2 (hback.perform hi)

theorem update_of_answer (hoperation : operations[i]? = some (.update source replicas bag))
    (hanswer : (answers store world operations)[i]? = some (.updated stored)) :
    i < operations.length ∧ source < i ∧ ∃ origin,
      (answers store world operations)[source]?.bind Answer.object? = some origin ∧
      ∃ world', store.update (stateAt store world operations i).world
        (derive origin replicas bag) = (.ok stored, world') := by
  obtain ⟨hi, hget⟩ := List.getElem?_eq_some_iff.1 hoperation
  rw [getElem?_answers hi, hget, Option.some.injEq] at hanswer
  refine ⟨hi, ?_⟩
  cases hsource : (stateAt store world operations i).answers[source]?.bind Answer.object? with
  | none => simp [perform, hsource] at hanswer
  | some origin =>
    have hlt : source < i := by
      by_contra hle
      rw [List.getElem?_eq_none (by rw [length_answers_stateAt hi.le]; omega)] at hsource
      cases hsource
    refine ⟨hlt, origin, ?_, ?_⟩
    · rw [answers_stateAt hi.le, List.getElem?_take_of_lt hlt] at hsource
      exact hsource
    · cases hupdate : store.update (stateAt store world operations i).world
          (derive origin replicas bag) with
      | mk answer after =>
        cases answer with
        | error e => simp [perform, hsource, hupdate] at hanswer
        | ok updated =>
          simp only [perform, hsource, hupdate, Answer.updated.injEq] at hanswer
          exact ⟨after, by rw [hanswer]⟩

theorem updates_between_lt
    (hcount : (answers store world operations).countP Answer.isUpdate < 2 ^ 64) (name : Text) :
    updates name (between (answers store world operations) source i) < 2 ^ 64 := by
  have hsub : (between (answers store world operations) source i).Sublist
      (answers store world operations) :=
    (List.drop_sublist _ _).trans (List.take_sublist _ _)
  calc updates name (between (answers store world operations) source i)
      ≤ (answers store world operations).countP (Answer.isUpdateOf name) := hsub.countP_le
    _ ≤ (answers store world operations).countP Answer.isUpdate :=
        List.countP_mono_left fun _ _ => Answer.isUpdate_of_isUpdateOf
    _ < 2 ^ 64 := hcount

/-- An accepted update replaces exactly the object that it derives from, and nobody has written that
object since it was seen, as long as it was neither removed nor created anew. What the run stores is
taken to be read back. -/
theorem no_silent_overwrite (store : Store) (world : World) (operations : List Operation)
    (hback : ReadsBack store (answers store world operations))
    (hcount : (answers store world operations).countP Answer.isUpdate < 2 ^ 64)
    (i source : ℕ) (replicas : Int32) (bag : Bag) (origin stored : Workload)
    (hoperation : operations[i]? = some (.update source replicas bag))
    (hanswer : (answers store world operations)[i]? = some (.updated stored))
    (horigin : (answers store world operations)[source]?.bind Answer.object? = some origin)
    (hkept : ∀ answer ∈ between (answers store world operations) source i,
      ¬ answer.restarts origin.name) :
    store.load (stateAt store world operations i).world.files origin.name = .ok origin ∧
      ∀ answer ∈ between (answers store world operations) source i,
        ¬ answer.isUpdateOf origin.name := by
  obtain ⟨hi, hsource, held, hheld, world', hupdate⟩ := update_of_answer hoperation hanswer
  obtain rfl : origin = held := Option.some.inj (horigin.symm.trans hheld)
  have hplain := store.isPlain_of_update_ok hupdate
  obtain ⟨current, hcurrent, hversion, hsame⟩ :=
    (isBehind_stateAt hplain hback horigin hkept hsource hi.le).kept
  obtain ⟨loaded, hload, hloaded, _⟩ := store.update_ok hupdate
  rw [derive_name] at hload
  obtain rfl : loaded = current :=
    Option.some.inj ((store.kept?_of_load hplain hload).symm.trans hcurrent)
  -- The versions agree, so that the number of updates is 0 modulo `2 ^ 64`, and there are fewer.
  have hzero : updates origin.name (between (answers store world operations) source i) = 0 := by
    have heq := hversion.symm.trans hloaded
    rw [derive_version, UInt64.add_eq_left] at heq
    have hnat := congrArg UInt64.toNat heq
    rw [UInt64.toNat_ofNat', Nat.mod_eq_of_lt (updates_between_lt hcount origin.name)] at hnat
    exact hnat
  exact ⟨by rw [hload, hsame hzero], List.countP_eq_zero.1 hzero⟩

/-- One client updates an object twice, while a stale update of another client is refused and an
object of another name is removed. -/
theorem no_silent_overwrite_two_clients :
    let store : Store := ⟨"/store", Block.format "no block notation"⟩
    let world : World := ⟨Files.empty [], []⟩
    let operations : List Operation :=
      [.create ⟨"web", 3, 0, none⟩, .create ⟨"db", 1, 0, none⟩, .load "web", .update 0 4 none,
        .update 2 5 none, .remove "db", .load "web", .update 3 6 none]
    ∃ origin stored, origin.name = Text.ofString "web" ∧
      (answers store world operations)[3]?.bind Answer.object? = some origin ∧
      (answers store world operations)[7]? = some (.updated stored) ∧
      store.load (stateAt store world operations 7).world.files origin.name = .ok origin := by
  intro store world operations
  have hback : ReadsBack store (answers store world operations) :=
    fun _ _ w _ => (Block.keeps "no block notation" w).2
  have hcount : (answers store world operations).countP Answer.isUpdate < 2 ^ 64 := by
    decide +kernel
  have hname : ((answers store world operations)[3]?.bind Answer.object?).map Workload.name =
      some (Text.ofString "web") := by
    decide +kernel
  have hupdated : (answers store world operations)[7]?.map Answer.isUpdate = some true := by
    decide +kernel
  have hkept : ∀ answer ∈ between (answers store world operations) 3 7,
      ¬ answer.restarts "web" := by
    decide +kernel
  obtain ⟨origin, horigin, hweb⟩ := Option.map_eq_some_iff.1 hname
  obtain ⟨answer, hanswer, hupdate⟩ := Option.map_eq_some_iff.1 hupdated
  cases answer with
  | updated stored =>
    rw [← hweb] at hkept
    exact ⟨origin, stored, hweb, horigin, hanswer, (no_silent_overwrite store world operations
      hback hcount 7 3 6 none origin stored rfl hanswer horigin hkept).1⟩
  | _ => cases hupdate

/-- The object has been removed and created anew since the client saw it, and its update is accepted
all the same, because both objects bear version 1. -/
theorem overwrite_after_recreation :
    let store : Store := ⟨"/store", Block.format "no block notation"⟩
    let world : World := ⟨Files.empty [], []⟩
    let operations : List Operation :=
      [.create ⟨"web", 3, 0, none⟩, .remove "web", .create ⟨"web", 5, 0, none⟩, .update 0 4 none]
    (answers store world operations).countP Answer.isUpdate < 2 ^ 64 ∧
      ∃ origin stored current,
        (answers store world operations)[0]?.bind Answer.object? = some origin ∧
        (answers store world operations)[3]? = some (.updated stored) ∧
        store.load (stateAt store world operations 3).world.files origin.name = .ok current ∧
        current ≠ origin := by
  intro store world operations
  have hname : ((answers store world operations)[0]?.bind Answer.object?).map
      (fun w => (w.name, w.replicas)) = some (Text.ofString "web", 3) := by
    decide +kernel
  have hupdated : (answers store world operations)[3]?.map Answer.isUpdate = some true := by
    decide +kernel
  have hcurrent : (store.load (stateAt store world operations 3).world.files "web").toOption.map
      Workload.replicas = some 5 := by
    decide +kernel
  obtain ⟨origin, horigin, heq⟩ := Option.map_eq_some_iff.1 hname
  obtain ⟨hweb, hthree⟩ := Prod.mk.inj heq
  obtain ⟨answer, hanswer, hupdate⟩ := Option.map_eq_some_iff.1 hupdated
  obtain ⟨current, hload, hfive⟩ := Option.map_eq_some_iff.1 hcurrent
  cases answer with
  | updated stored =>
    refine ⟨by decide +kernel, origin, stored, current, horigin, hanswer, ?_, ?_⟩
    · rw [hweb]
      cases hfound : store.load (stateAt store world operations 3).world.files "web" with
      | error e =>
        rw [hfound] at hload
        cases hload
      | ok w =>
        rw [hfound] at hload
        rw [Option.some.inj hload]
    · rintro rfl
      rw [hthree] at hfive
      cases hfive
  | _ => cases hupdate

end Runs

end StableOrdinals.Writers
