import StableOrdinals.Block.Workload
import StableOrdinals.Proofs.Files.Depth
import StableOrdinals.Proofs.Store.Contents

/-!
# The store and its history

A run is a list of calls, and a modification among them may use the store itself: its change is a
`Script`, which looks at the world, keeps what it likes, and creates, updates, removes and modifies
objects, any of which may fail. Whatever succeeds is noted in the history, at any depth, and so are
the objects that have been stored.

One call, and one script, keep what is `Known` of the stored objects: each has as many replicas as
it was accepted with, and the version that the history gives it. So after each call of a run in
which the format reads back what has been stored, the views of the store agree with each other and
with the history: `views_agree`.

Making the directory of a store whose path leads up may put directories into it, which look like
objects to some of the views: `views_disagree`.
-/

namespace StableOrdinals.History

open StableOrdinals.Store

inductive Event
  | created (stored : Workload)
  | updated (stored : Workload)
  | removed (name : Text)

namespace Event

def stored? : Event → Option Workload
  | created stored | updated stored => some stored
  | removed _ => none

def isCreation (name : Text) : Event → Bool
  | created stored => stored.name = name
  | _ => false

def isUpdate (name : Text) : Event → Bool
  | updated stored => stored.name = name
  | _ => false

end Event

/-- The world, what the changes keep, and all that has succeeded, the latest first. -/
abbrev State (σ : Type) := World × (σ × List Event)

variable {ε σ : Type}

def noted {α : Type} (answer : Except ε α) (event : α → Event) (history : List Event) : List Event :=
  match answer with
  | .ok result => event result :: history
  | .error _ => history

def create (store : Store) (w : Workload) (state : State σ) :
    Except StoreError Workload × State σ :=
  let (answer, world) := store.create state.1 w
  (answer, (world, (state.2.1, noted answer .created state.2.2)))

def update (store : Store) (w : Workload) (state : State σ) :
    Except StoreError Workload × State σ :=
  let (answer, world) := store.update state.1 w
  (answer, (world, (state.2.1, noted answer .updated state.2.2)))

def remove (store : Store) (name : Text) (state : State σ) : Except StoreError Unit × State σ :=
  let (answer, world) := store.remove state.1 name
  (answer, (world, (state.2.1, noted answer (fun _ => .removed name) state.2.2)))

/-- The update that a modification makes itself comes after all that its change has done. -/
def modify (store : Store) (name : Text) (change : Change ε (σ × List Event)) (retries : Int)
    (state : State σ) : Except (ModifyError ε) Workload × State σ :=
  let (answer, state) := store.modify name change retries state
  (answer, (state.1, (state.2.1, noted answer .updated state.2.2)))

/-- What a change does, step by step. -/
inductive Script (ε σ : Type)
  | finish (answer : Except ε Workload)
  | look (next : World → σ → Script ε σ)
  | keep (kept : σ) (next : Script ε σ)
  | create (w : Workload) (next : Except StoreError Workload → Script ε σ)
  | update (w : Workload) (next : Except StoreError Workload → Script ε σ)
  | remove (name : Text) (next : Except StoreError Unit → Script ε σ)
  | modify (name : Text) (change : Workload → Script ε σ) (retries : Int)
      (next : Except (ModifyError ε) Workload → Script ε σ)

def Script.run (store : Store) : Script ε σ → State σ → Except ε Workload × State σ
  | finish answer, state => (answer, state)
  | look next, state => (next state.1 state.2.1).run store state
  | keep kept next, state => next.run store (state.1, (kept, state.2.2))
  | create w next, state =>
    match History.create store w state with
    | (answer, state) => (next answer).run store state
  | update w next, state =>
    match History.update store w state with
    | (answer, state) => (next answer).run store state
  | remove name next, state =>
    match History.remove store name state with
    | (answer, state) => (next answer).run store state
  | modify name change retries next, state =>
    match History.modify store name (fun w state => (change w).run store state) retries state with
    | (answer, state) => (next answer).run store state

inductive Call (ε σ : Type)
  | create (w : Workload)
  | update (w : Workload)
  | remove (name : Text)
  | modify (name : Text) (change : Workload → Script ε σ) (retries : Int)

def Call.perform (store : Store) (state : State σ) : Call ε σ → State σ
  | create w => (History.create store w state).2
  | update w => (History.update store w state).2
  | remove name => (History.remove store name state).2
  | modify name change retries =>
    (History.modify store name (fun w state => (change w).run store state) retries state).2

/-- The state after the first `i` calls. Nothing is on record at the start. -/
def stateAt (store : Store) (start : World) (kept : σ) (calls : List (Call ε σ)) (i : ℕ) : State σ :=
  (calls.take i).foldl (Call.perform store) (start, (kept, []))

def updatesSinceCreation (name : Text) (history : List Event) : ℕ :=
  (history.takeWhile (!·.isCreation name)).countP (·.isUpdate name)

section Count

variable (name : Text) (stored : Workload) (history : List Event)

theorem updatesSinceCreation_created : updatesSinceCreation name (.created stored :: history) =
    if stored.name = name then 0 else updatesSinceCreation name history := by
  unfold updatesSinceCreation
  by_cases h : stored.name = name <;> simp [h, Event.isCreation, Event.isUpdate]

theorem updatesSinceCreation_updated : updatesSinceCreation name (.updated stored :: history) =
    updatesSinceCreation name history + if stored.name = name then 1 else 0 := by
  unfold updatesSinceCreation
  by_cases h : stored.name = name <;> simp [h, Event.isCreation, Event.isUpdate]

theorem updatesSinceCreation_removed (other : Text) :
    updatesSinceCreation name (.removed other :: history) = updatesSinceCreation name history := by
  unfold updatesSinceCreation
  simp [Event.isCreation, Event.isUpdate]

end Count

def ReadsBack (store : Store) (history : List Event) : Prop :=
  ∀ event ∈ history, ∀ stored ∈ event.stored?, store.format.ReadsBack stored

theorem readsBack_cons {store : Store} {event : Event} {history : List Event} :
    ReadsBack store (event :: history) ↔
      (∀ stored ∈ event.stored?, store.format.ReadsBack stored) ∧ ReadsBack store history :=
  List.forall_mem_cons

/-- The views of a store agree with each other and with its history. -/
structure Agrees (store : Store) (files : Files) (history : List Event) (names : List Text) : Prop where
  list : store.list files = .ok names
  listed : ∀ name, name ∈ names ↔ store.contains files name = .ok true
  loaded : ∀ name, store.contains files name = .ok true ↔ ∃ w, store.load files name = .ok w
  object : ∀ name w, store.load files name = .ok w → w.name = name ∧ 0 ≤ w.replicas.toInt ∧
    w.version = UInt64.ofNat (1 + updatesSinceCreation name history)
  ascending : names.Pairwise (· < ·)
  no_other_file : ∀ place leaf, files.locate store.directory = .ok place →
    files.at? (leaf :: place) ≠ none → ∃ name ∈ names, leaf = name ++ ".yaml"

/-- The object was accepted, and its version is that of the history. -/
def IsCurrent (history : List Event) (w : Workload) : Prop :=
  0 ≤ w.replicas.toInt ∧ w.version = UInt64.ofNat (1 + updatesSinceCreation w.name history)

def Known (store : Store) (files : Files) (history : List Event) : Prop :=
  ReadsBack store history →
    ∃ objects, store.Holds files objects ∧ ∀ name w, objects name = some w → IsCurrent history w

variable {store : Store} {files : Files} {history : List Event} {w : Workload}

theorem IsCurrent.created (h : IsCurrent history w) {stored : Workload}
    (hne : w.name ≠ stored.name) : IsCurrent (.created stored :: history) w := by
  refine ⟨h.1, ?_⟩
  rw [updatesSinceCreation_created, if_neg (Ne.symm hne), h.2]

theorem IsCurrent.updated (h : IsCurrent history w) {stored : Workload}
    (hne : w.name ≠ stored.name) : IsCurrent (.updated stored :: history) w := by
  refine ⟨h.1, ?_⟩
  rw [updatesSinceCreation_updated, if_neg (Ne.symm hne), Nat.add_zero, h.2]

theorem IsCurrent.removed (h : IsCurrent history w) (name : Text) :
    IsCurrent (.removed name :: history) w := by
  refine ⟨h.1, ?_⟩
  rw [updatesSinceCreation_removed, h.2]

theorem Known.agrees (h : Known store files history) (hplain : Path.IsPlain store.directory)
    (hback : ReadsBack store history) : ∃ names, Agrees store files history names := by
  obtain ⟨objects, hholds, hcurrent⟩ := h hback
  obtain ⟨names, hnames, hascending, hmem⟩ := hholds.list_eq
  refine ⟨names, hnames, ?_, ?_, ?_, hascending, ?_⟩
  · intro name
    rw [hmem, hholds.contains_eq_ok_iff hplain]
  · intro name
    simp only [hholds.contains_eq_ok_iff hplain, hholds.load_eq_ok_iff hplain]
  · intro name w hload
    have hobject := (hholds.load_eq_ok_iff hplain).1 hload
    obtain ⟨rfl, _⟩ := hholds.object name w hobject
    exact ⟨rfl, hcurrent _ w hobject⟩
  · intro place leaf hlocate hleaf
    obtain rfl := Files.eq_target_of_locate hlocate
    obtain ⟨name, w, hobject, rfl⟩ := hholds.only leaf hleaf
    exact ⟨name, (hmem name).2 ⟨w, hobject⟩, rfl⟩

/-- Directories are made on the way to the store, as its path never leads up. -/
theorem staysEmpty (hplain : Path.IsPlain store.directory)
    (hdots : (".." : Text) ∉ store.directory.components) (files : Files) :
    store.StaysEmpty files := by
  intro leaf
  apply Files.at?_makeDirectories hplain hdots
  exact Nat.lt_succ_self _

section Steps

variable (hplain : Path.IsPlain store.directory) (hdots : (".." : Text) ∉ store.directory.components)
  {state : State σ}

include hplain hdots

theorem known_create (h : Known store state.1.files state.2.2) (w : Workload) :
    Known store (create store w state).2.1.files (create store w state).2.2.2 := by
  have hempty := staysEmpty hplain hdots state.1.files
  cases hcreate : store.create state.1 w with
  | mk answer world =>
    simp only [create, hcreate]
    intro hback
    cases answer with
    | error e =>
      obtain ⟨objects, hholds, hcurrent⟩ := h hback
      exact ⟨objects, hholds.create_error hplain hempty hcreate, hcurrent⟩
    | ok stored =>
      obtain ⟨hstored, hback⟩ := readsBack_cons.1 hback
      obtain ⟨objects, hholds, hcurrent⟩ := h hback
      obtain ⟨_, hreplicas, rfl, hheld⟩ :=
        hholds.create_ok hplain hempty hcreate (hstored _ rfl)
      refine ⟨_, hheld, ?_⟩
      intro name v hobject
      rcases update_eq_some_iff.1 hobject with ⟨rfl, hv⟩ | ⟨hne, hobject⟩
      · obtain rfl := Option.some.inj hv
        refine ⟨hreplicas, ?_⟩
        rw [noted, updatesSinceCreation_created, if_pos rfl]
        rfl
      · obtain ⟨rfl, _⟩ := hholds.object name v hobject
        exact (hcurrent _ v hobject).created hne

theorem known_updated {world world' : World} {stored : Workload}
    (h : Known store world.files history) (hupdate : store.update world w = (.ok stored, world')) :
    Known store world'.files (.updated stored :: history) := by
  intro hback
  obtain ⟨hstored, hback⟩ := readsBack_cons.1 hback
  obtain ⟨objects, hholds, hcurrent⟩ := h hback
  have hempty := staysEmpty hplain hdots world.files
  obtain ⟨current, hobject, hversion, hreplicas, rfl, hheld⟩ :=
    hholds.update_ok hplain hempty hupdate (hstored _ rfl)
  refine ⟨_, hheld, ?_⟩
  intro name v hother
  rcases update_eq_some_iff.1 hother with ⟨rfl, hv⟩ | ⟨hne, hv⟩
  · obtain rfl := Option.some.inj hv
    refine ⟨hreplicas, ?_⟩
    have hname := (hholds.object _ current hobject).1
    have hcount := (hcurrent _ current hobject).2
    rw [hversion, hname] at hcount
    change w.version + 1 = _
    rw [updatesSinceCreation_updated, if_pos rfl, hcount, ← Nat.add_assoc,
      UInt64.ofNat_add (1 + updatesSinceCreation w.name history) 1]
    rfl
  · obtain ⟨rfl, _⟩ := hholds.object name v hv
    exact (hcurrent _ v hv).updated hne

theorem known_not_updated {world world' : World} {e : StoreError}
    (h : Known store world.files history) (hupdate : store.update world w = (.error e, world')) :
    Known store world'.files history := by
  intro hback
  obtain ⟨objects, hholds, hcurrent⟩ := h hback
  exact ⟨objects, hholds.update_error hplain (staysEmpty hplain hdots world.files) hupdate, hcurrent⟩

theorem known_update (h : Known store state.1.files state.2.2) (w : Workload) :
    Known store (update store w state).2.1.files (update store w state).2.2.2 := by
  cases hupdate : store.update state.1 w with
  | mk answer world =>
    simp only [update, hupdate]
    cases answer with
    | error e => exact known_not_updated hplain hdots h hupdate
    | ok stored => exact known_updated hplain hdots h hupdate

omit hdots in
theorem known_remove (h : Known store state.1.files state.2.2) (name : Text) :
    Known store (remove store name state).2.1.files (remove store name state).2.2.2 := by
  cases hremove : store.remove state.1 name with
  | mk answer world =>
    simp only [remove, hremove]
    intro hback
    cases answer with
    | error e =>
      obtain ⟨objects, hholds, hcurrent⟩ := h hback
      exact ⟨objects, hholds.remove_error hremove, hcurrent⟩
    | ok _ =>
      obtain ⟨objects, hholds, hcurrent⟩ := h (readsBack_cons.1 hback).2
      refine ⟨_, (hholds.remove_ok hplain hremove).2, ?_⟩
      intro other v hobject
      rcases update_eq_some_iff.1 hobject with ⟨_, hv⟩ | ⟨_, hobject⟩
      · cases hv
      · exact (hcurrent other v hobject).removed name

section Modify

variable (name : Text) {change : Change ε (σ × List Event)}
  (hchange : ∀ w state, Known store state.1.files state.2.2 →
    Known store (change w state).2.1.files (change w state).2.2.2)

include hchange

/-- Only an attempt that has failed is followed by another one. -/
theorem known_attempt (h : Known store state.1.files state.2.2) :
    ∃ answer again after, store.attempt name change state = (answer, again, after) ∧
      Known store after.1.files (noted answer .updated after.2.2) ∧
      (again = true → ∃ e, answer = .error e) := by
  unfold attempt
  cases hload : store.load state.1.files name with
  | error e => exact ⟨_, _, _, rfl, h, nofun⟩
  | ok seen =>
    have hbetween := hchange seen state h
    dsimp only
    cases happly : change seen state with
    | mk answer between =>
      rw [happly] at hbetween
      obtain ⟨world, kept⟩ := between
      cases answer with
      | error e => exact ⟨_, _, _, rfl, hbetween, nofun⟩
      | ok w =>
        dsimp only
        cases hupdate : store.update world w with
        | mk answer after =>
          cases answer with
          | ok stored =>
            exact ⟨_, _, _, rfl, known_updated hplain hdots hbetween hupdate, nofun⟩
          | error e =>
            exact ⟨_, _, _, rfl, known_not_updated hplain hdots hbetween hupdate,
              fun _ => ⟨_, rfl⟩⟩

theorem known_attempts (retries : Int) (left number : ℕ) (h : Known store state.1.files state.2.2) :
    Known store (store.attempts name change retries left number state).2.1.files
      (noted (store.attempts name change retries left number state).1 .updated
        (store.attempts name change retries left number state).2.2.2) := by
  induction left generalizing number state with
  | zero => exact h
  | succ left ih =>
    obtain ⟨answer, again, after, hattempt, hknown, hagain⟩ :=
      known_attempt hplain hdots name hchange h
    rw [attempts, hattempt]
    cases again with
    | false => exact hknown
    | true =>
      obtain ⟨e, rfl⟩ := hagain rfl
      exact ih (number + 1) hknown

theorem known_modify (retries : Int) (h : Known store state.1.files state.2.2) :
    Known store (modify store name change retries state).2.1.files
      (modify store name change retries state).2.2.2 :=
  known_attempts hplain hdots name hchange retries (retries + 1).toNat 1 h

end Modify

/-- By induction on the script, whose change is a script for each object. -/
theorem known_run (script : Script ε σ) (h : Known store state.1.files state.2.2) :
    Known store (script.run store state).2.1.files (script.run store state).2.2.2 := by
  induction script generalizing state with
  | finish answer => exact h
  | look next ih => exact ih state.1 state.2.1 h
  | keep kept next ih => exact ih h
  | create w next ih => exact ih _ (known_create hplain hdots h w)
  | update w next ih => exact ih _ (known_update hplain hdots h w)
  | remove name next ih => exact ih _ (known_remove hplain h name)
  | modify name change retries next ihChange ih =>
    exact ih _ (known_modify hplain hdots name (fun w _ hstate => ihChange w hstate) retries h)

theorem known_perform (call : Call ε σ) (h : Known store state.1.files state.2.2) :
    Known store (call.perform store state).1.files (call.perform store state).2.2 := by
  cases call with
  | create w => exact known_create hplain hdots h w
  | update w => exact known_update hplain hdots h w
  | remove name => exact known_remove hplain h name
  | modify name change retries =>
    exact known_modify hplain hdots name (fun w _ hstate => known_run hplain hdots (change w) hstate)
      retries h

theorem known_foldl (calls : List (Call ε σ)) (state : State σ)
    (h : Known store state.1.files state.2.2) :
    Known store (calls.foldl (Call.perform store) state).1.files
      (calls.foldl (Call.perform store) state).2.2 := by
  induction calls generalizing state with
  | nil => exact h
  | cons call calls ih => exact ih _ (known_perform hplain hdots call h)

end Steps

/-- After each call of a run, an object is listed if and only if it is contained, and if and only if
it can be loaded. It bears its name, and its version counts its updates since it was last created.
The format is taken to read back the objects that have been stored so far. -/
theorem views_agree (store : Store) (hplain : Path.IsPlain store.directory)
    (hdots : (".." : Text) ∉ store.directory.components) (start : World)
    (hstart : start.files.status store.directory = .ok none) (kept : σ) (calls : List (Call ε σ))
    (i : ℕ) (hback : ReadsBack store (stateAt store start kept calls i).2.2) :
    ∃ names, Agrees store (stateAt store start kept calls i).1.files
      (stateAt store start kept calls i).2.2 names := by
  have hnone := Files.at?_of_status_eq_none hplain hdots hstart
  have hknown : Known store start.files [] := fun _ => ⟨_, holds_none hnone, nofun⟩
  exact (known_foldl hplain hdots (calls.take i) (start, (kept, [])) hknown).agrees hplain hback

/-- The change updates the object itself before its first attempt is over, so that a second one is
made, and it removes another object each time. -/
theorem views_agree_nested :
    let store : Store := ⟨"/objects", Block.format "no block notation"⟩
    let start : World := ⟨Files.empty [], []⟩
    let change (seen : Workload) : Script Unit Bool :=
      .look fun _ again =>
        .remove "db" fun _ =>
          if again then .finish (.ok { seen with replicas := 5 })
          else .keep true (.update seen fun _ => .finish (.ok seen))
    let calls : List (Call Unit Bool) :=
      [.create ⟨"web", 3, 0, none⟩, .create ⟨"db", 1, 0, none⟩, .create ⟨"web", 4, 0, none⟩,
        .modify "web" change 3]
    let state := stateAt store start false calls 4
    Path.IsPlain store.directory ∧ (".." : Text) ∉ store.directory.components ∧
      start.files.status store.directory = .ok none ∧ ReadsBack store state.2.2 ∧
      (∃ names, Agrees store state.1.files state.2.2 names) ∧
      store.list state.1.files = .ok [("web" : Text)] ∧ updatesSinceCreation "web" state.2.2 = 2 := by
  intro store start change calls
  have hplain : Path.IsPlain store.directory :=
    Path.isPlain_of_all (by decide) (by decide)
  have hdots : (".." : Text) ∉ store.directory.components := by
    decide
  have hstart : start.files.status store.directory = .ok none := by
    rfl
  have hback (history : List Event) : ReadsBack store history :=
    fun _ _ stored _ => (Block.keeps "no block notation" stored).2
  refine ⟨hplain, hdots, hstart, hback _,
    views_agree store hplain hdots start hstart false calls 4 (hback _), ?_⟩
  decide +kernel

/-- The path leads up from a directory that is made for it, it is cut off at a NUL byte, or it is
empty: each time an object is contained that is not listed. -/
theorem views_disagree :
    let format := Block.format "no block notation"
    let empty : World := ⟨Files.empty [], []⟩
    let beside : World := (Store.create ⟨".", format⟩ empty ⟨"web", 1, 0, none⟩).2
    let calls : List (Call Unit Unit) := [.create ⟨"db", 1, 0, none⟩]
    ∀ run ∈ [(Store.mk "s/web.yaml/.." format, empty),
        (Store.mk (("s" : Text) ++ 0 :: ("t" : Text)) format, empty), (Store.mk [] format, beside)],
      run.2.files.status run.1.directory = .ok none ∧
        (run.1.list (stateAt run.1 run.2 () calls 1).1.files).map (·.contains "web") = .ok false ∧
        run.1.contains (stateAt run.1 run.2 () calls 1).1.files "web" = .ok true := by
  decide +kernel

end StableOrdinals.History
