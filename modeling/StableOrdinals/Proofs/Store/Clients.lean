import Mathlib.Logic.Function.Basic
import Mathlib.Tactic.IntervalCases
import StableOrdinals.Block.Workload
import StableOrdinals.Proofs.Reservations.RoundTrip
import StableOrdinals.Proofs.Store.Save

/-!
# Clients of one object

Clients hold copies of one object, add slots to them, change them otherwise and send them back, in
any order and each at its own pace. A copy that is behind the stored object by some updates carries
a version that is smaller by as many (`IsBehind`), so that of all copies only those that are behind
by none are accepted. What the stored object reserves is reserved in these as well, and an update
that is accepted drops nothing.

`Advance` says how one step moves the stored object, `Invariant` what is known of the copies after
each step, and `no_reservation_dropped` what follows for whole runs. In a run the format reads back
what is stored (`IsRun`).
-/

namespace StableOrdinals.Clients

structure Copy where
  object : Workload
  /-- The slots that were added on the way to it since the last load or creation. -/
  added : OrdinalSet

/-- The steps of clients that keep their copies in places named by `ι`. -/
inductive Event (ι : Type)
  | load (c : ι)
  | create (c : ι) (w : Workload)
  | add (c : ι) (slots : OrdinalSet)
  | edit (c : ι) (replicas : Int32) (bag : Bag)
  /-- The object that answers an update may be kept, in place of the old copy or of another one. -/
  | update (c : ι) (keep : Option ι)

structure State (ι : Type) where
  world : World
  copies : ι → Option Copy
  /-- How many updates have been accepted. -/
  writes : ℕ

def Copy.add (key : Text) (copy : Copy) (slots : OrdinalSet) : Except EncodingError Copy :=
  (Reservations.add key slots copy.object.annotations).map fun annotations =>
    ⟨{ copy.object with annotations }, copy.added ∪ slots⟩

def Copy.edit (copy : Copy) (replicas : Int32) (bag : Bag) : Copy where
  object := { copy.object with replicas := replicas, annotations := bag }
  added := copy.added

variable {ι : Type} (store : Store) (key name : Text)

section Runs

variable [DecidableEq ι]

def State.hold (state : State ι) (c : Option ι) (copy : Copy) : State ι :=
  match c with
  | some c => { state with copies := Function.update state.copies c (some copy) }
  | none => state

@[simp] theorem world_hold (state : State ι) (c : Option ι) (copy : Copy) :
    (state.hold c copy).world = state.world := by
  cases c <;> rfl

@[simp] theorem writes_hold (state : State ι) (c : Option ι) (copy : Copy) :
    (state.hold c copy).writes = state.writes := by
  cases c <;> rfl

theorem copies_hold (state : State ι) (c : Option ι) (copy : Copy) (d : ι) :
    (state.hold c copy).copies d = if c = some d then some copy else state.copies d := by
  cases c with
  | none => rfl
  | some c =>
    by_cases h : c = d
    · subst h
      rw [if_pos rfl]
      exact Function.update_self _ _ _
    · rw [if_neg (by simpa using h)]
      exact Function.update_of_ne (Ne.symm h) _ _

/-- Nothing happens if there is no copy in the place. -/
def step (state : State ι) : Event ι → State ι
  | .load c =>
    match store.load state.world.files name with
    | .ok w => state.hold (some c) ⟨w, ∅⟩
    | .error _ => state
  | .create c w =>
    match store.create state.world w with
    | (.ok stored, world) => { state with world }.hold (some c) ⟨stored, ∅⟩
    | (.error _, world) => { state with world }
  | .add c slots =>
    match state.copies c with
    | some copy =>
      match copy.add key slots with
      | .ok copy => state.hold (some c) copy
      | .error _ => state
    | none => state
  | .edit c replicas bag =>
    match state.copies c with
    | some copy => state.hold (some c) (copy.edit replicas bag)
    | none => state
  | .update c keep =>
    match state.copies c with
    | some copy =>
      match store.update state.world copy.object with
      | (.ok stored, world) =>
        { state with world, writes := state.writes + 1 }.hold keep ⟨stored, copy.added⟩
      | (.error _, world) => { state with world }
    | none => state

def Event.stored? (state : State ι) : Event ι → Option Workload
  | .create _ w => (store.create state.world w).1.toOption
  | .update c _ =>
    (state.copies c).bind fun copy => (store.update state.world copy.object).1.toOption
  | _ => none

/-- An edit leaves the key alone, and only objects of the one name are created. -/
def Event.IsAllowed (state : State ι) : Event ι → Prop
  | .create _ w => w.name = name
  | .edit c _ bag => ∀ copy, state.copies c = some copy →
      Reservations.value? key bag = Reservations.value? key copy.object.annotations
  | _ => True

variable (world : World) (events : List (Event ι))

/-- The state after the first `i` events. No copy is held at the start. -/
def stateAt (i : ℕ) : State ι :=
  (events.take i).foldl (step store key name) ⟨world, fun _ => none, 0⟩

structure IsRun : Prop where
  allowed : ∀ i (hi : i < events.length),
    events[i].IsAllowed key name (stateAt store key name world events i)
  readsBack : ∀ i (hi : i < events.length),
    ∀ stored ∈ events[i].stored? store (stateAt store key name world events i),
      store.format.ReadsBack stored
  writes_lt : (stateAt store key name world events events.length).writes < 2 ^ 64

theorem stateAt_succ (i : ℕ) (hi : i < events.length) :
    stateAt store key name world events (i + 1) =
      step store key name (stateAt store key name world events i) events[i] := by
  unfold stateAt
  rw [List.take_succ_eq_append_getElem hi, List.foldl_append, List.foldl_cons, List.foldl_nil]

end Runs

/-- The copy is `age` updates behind the stored object. -/
structure IsBehind (copy : Copy) (current : Workload) (age : ℕ) : Prop where
  version : current.version = copy.object.version + UInt64.ofNat age
  reserved : age = 0 → ∀ o ∈ Reservations.read key current.annotations,
    o ∈ Reservations.read key copy.object.annotations

structure IsTracked (state : State ι) (copy : Copy) : Prop where
  name_eq : copy.object.name = name
  added : ∀ o ∈ copy.added, o ∈ Reservations.read key copy.object.annotations
  behind : ∃ current age, store.load state.world.files name = .ok current ∧ age ≤ state.writes ∧
    IsBehind key copy current age

def Invariant (state : State ι) : Prop :=
  ∀ c copy, state.copies c = some copy → IsTracked store key name state copy

inductive Advance (before after : State ι) : Prop
  | same (load_eq : store.load after.world.files name = store.load before.world.files name)
      (writes_eq : after.writes = before.writes)
  | written (current stored : Workload)
      (load_before : store.load before.world.files name = .ok current)
      (load_after : store.load after.world.files name = .ok stored)
      (version_eq : stored.version = current.version + 1)
      (reserved : ∀ o ∈ Reservations.read key current.annotations,
        o ∈ Reservations.read key stored.annotations)
      (writes_eq : after.writes = before.writes + 1)
  | vacant (not_stored : ∀ current, store.load before.world.files name ≠ .ok current)

variable {store key name}
variable {state state' : State ι} {copy : Copy}

theorem isTracked_of_load {w : Workload} (h : store.load state.world.files name = .ok w) :
    IsTracked store key name state ⟨w, ∅⟩ where
  name_eq := store.name_of_load h
  added _ ho := absurd ho Std.ExtTreeSet.not_mem_empty
  behind := ⟨w, 0, h, Nat.zero_le _, ⟨(UInt64.add_zero _).symm, fun _ _ ho => ho⟩⟩

theorem Copy.add_eq (key : Text) (copy : Copy) (slots : OrdinalSet) :
    let bag := copy.object.annotations
    copy.add key slots =
      .ok ⟨{ copy.object with
        annotations := Reservations.written key (Reservations.read key bag ∪ slots) bag },
        copy.added ∪ slots⟩ := by
  rw [Copy.add, Reservations.add_eq]
  rfl

theorem IsTracked.add (h : IsTracked store key name state copy) (slots : OrdinalSet) :
    ∃ larger, copy.add key slots = .ok larger ∧ IsTracked store key name state larger := by
  have hread (o : Ordinal) : o ∈ Reservations.read key (Reservations.written key
      (Reservations.read key copy.object.annotations ∪ slots) copy.object.annotations) ↔
      o ∈ Reservations.read key copy.object.annotations ∨ o ∈ slots := by
    rw [Reservations.read_written, Std.ExtTreeSet.mem_union_iff]
  refine ⟨_, copy.add_eq key slots, h.name_eq, ?_, ?_⟩
  · intro o ho
    exact (hread o).2 ((Std.ExtTreeSet.mem_union_iff.1 ho).imp_left (h.added o))
  · obtain ⟨current, age, hload, hage, hbehind⟩ := h.behind
    refine ⟨current, age, hload, hage, hbehind.version, ?_⟩
    exact fun hzero o ho => (hread o).2 (Or.inl (hbehind.reserved hzero o ho))

theorem IsTracked.edit (h : IsTracked store key name state copy) (replicas : Int32) {bag : Bag}
    (hbag : Reservations.value? key bag = Reservations.value? key copy.object.annotations) :
    IsTracked store key name state (copy.edit replicas bag) := by
  have hread : Reservations.read key bag = Reservations.read key copy.object.annotations := by
    rw [Reservations.read, Reservations.read, hbag]
  obtain ⟨current, age, hload, hage, hversion, hreserved⟩ := h.behind
  refine ⟨h.name_eq, ?_, current, age, hload, hage, hversion, ?_⟩
  · intro o ho
    change o ∈ Reservations.read key bag
    rw [hread]
    exact h.added o ho
  · intro hzero o ho
    change o ∈ Reservations.read key bag
    rw [hread]
    exact hreserved hzero o ho

theorem IsTracked.advance (h : IsTracked store key name state copy)
    (hadvance : Advance store key name state state') : IsTracked store key name state' copy := by
  obtain ⟨current, age, hload, hage, hbehind⟩ := h.behind
  refine ⟨h.name_eq, h.added, ?_⟩
  cases hadvance with
  | same load_eq writes_eq =>
    exact ⟨current, age, load_eq.trans hload, writes_eq ▸ hage, hbehind⟩
  | written before stored load_before load_after version_eq reserved writes_eq =>
    obtain rfl := Except.ok.inj (load_before.symm.trans hload)
    refine ⟨stored, age + 1, load_after, by omega, ?_, ?_⟩
    · rw [version_eq, hbehind.version, UInt64.ofNat_add, UInt64.add_assoc]
      rfl
    · intro hzero
      omega
  | vacant not_stored => exact absurd hload (not_stored current)

theorem Invariant.advance (h : Invariant store key name state)
    (hadvance : Advance store key name state state') (hcopies : state'.copies = state.copies) :
    Invariant store key name state' := by
  intro c copy hcopy
  rw [hcopies] at hcopy
  exact (h c copy hcopy).advance hadvance

/-- Only a copy that is behind by no update is accepted, since a version comes round again after
`2 ^ 64` updates at the earliest. -/
theorem IsTracked.reserved_of_version (h : IsTracked store key name state copy)
    (hwrites : state.writes < 2 ^ 64) {current : Workload}
    (hload : store.load state.world.files name = .ok current)
    (hversion : current.version = copy.object.version) :
    ∀ o ∈ Reservations.read key current.annotations,
      o ∈ Reservations.read key copy.object.annotations := by
  obtain ⟨loaded, age, hloaded, hage, hbehind⟩ := h.behind
  obtain rfl := Except.ok.inj (hload.symm.trans hloaded)
  apply hbehind.reserved
  have hzero : UInt64.ofNat age = 0 := by
    have heq := hbehind.version.symm.trans hversion
    rwa [UInt64.add_eq_left] at heq
  have hnat := congrArg UInt64.toNat hzero
  rw [UInt64.toNat_ofNat', Nat.mod_eq_of_lt (by omega)] at hnat
  exact hnat

theorem IsTracked.advance_update (h : IsTracked store key name state copy)
    (hwrites : state.writes < 2 ^ 64) {stored : Workload} (state' : State ι)
    (hupdate : store.update state.world copy.object = (.ok stored, state'.world))
    (hback : store.format.ReadsBack stored) (hcount : state'.writes = state.writes + 1) :
    Advance store key name state state' ∧
      IsTracked store key name state' ⟨stored, copy.added⟩ := by
  obtain ⟨current, hload, hversion, rfl, hstored, _⟩ := store.update_ok hupdate
  have hstored := hstored hback
  rw [h.name_eq] at hload hstored
  constructor
  · refine .written current _ hload hstored ?_ ?_ hcount
    · rw [hversion]
    · exact h.reserved_of_version hwrites hload hversion
  · refine ⟨h.name_eq, h.added, _, 0, hstored, Nat.zero_le _, ?_, fun _ _ ho => ho⟩
    exact (UInt64.add_zero _).symm

section Runs

variable [DecidableEq ι] {world : World} {events : List (Event ι)}

theorem Invariant.hold (h : Invariant store key name state) (c : Option ι)
    (hcopies : state'.copies = state.copies)
    (hadvance : Advance store key name state (state'.hold c copy))
    (hcopy : IsTracked store key name (state'.hold c copy) copy) :
    Invariant store key name (state'.hold c copy) := by
  intro d held hd
  rw [copies_hold] at hd
  by_cases hc : c = some d
  · rw [if_pos hc] at hd
    obtain rfl := Option.some.inj hd
    exact hcopy
  · rw [if_neg hc, hcopies] at hd
    exact (h d held hd).advance hadvance

theorem Invariant.hold_tracked (h : Invariant store key name state) (c : Option ι)
    (hcopy : IsTracked store key name state copy) :
    Advance store key name state (state.hold c copy) ∧
      Invariant store key name (state.hold c copy) := by
  have hadvance : Advance store key name state (state.hold c copy) :=
    .same (by rw [world_hold]) (writes_hold state c copy)
  exact ⟨hadvance, h.hold c rfl hadvance (hcopy.advance hadvance)⟩

theorem create_step (hplain : Path.IsPlain store.directory)
    (h : Invariant store key name state) (c : ι) {w : Workload} (hname : w.name = name)
    (hback : ∀ stored, (store.create state.world w).1 = .ok stored →
      store.format.ReadsBack stored) :
    Advance store key name state (step store key name state (.create c w)) ∧
      Invariant store key name (step store key name state (.create c w)) := by
  by_cases hstored : ∃ current, store.load state.world.files name = .ok current
  · obtain ⟨current, hload⟩ := hstored
    rw [← hname] at hload
    obtain ⟨e, hcreate⟩ := store.create_of_load hload
    simp only [step, hcreate]
    exact ⟨.same rfl rfl, h⟩
  · have hvacant (after : State ι) : Advance store key name state after :=
      .vacant fun current hload => hstored ⟨current, hload⟩
    refine ⟨hvacant _, ?_⟩
    cases hcreate : store.create state.world w with
    | mk answer after =>
      cases answer with
      | error e =>
        simp only [step, hcreate]
        exact h.advance (hvacant _) rfl
      | ok stored =>
        have hload := (store.create_ok hplain hcreate).2 (hback stored (by rw [hcreate]))
        rw [hname] at hload
        simp only [step, hcreate]
        exact h.hold (some c) rfl (hvacant _) (isTracked_of_load hload)

theorem update_step (h : Invariant store key name state) (hwrites : state.writes < 2 ^ 64) (c : ι)
    (keep : Option ι)
    (hback : ∀ copy stored, state.copies c = some copy →
      (store.update state.world copy.object).1 = .ok stored → store.format.ReadsBack stored) :
    Advance store key name state (step store key name state (.update c keep)) ∧
      Invariant store key name (step store key name state (.update c keep)) := by
  cases hcopy : state.copies c with
  | none =>
    simp only [step, hcopy]
    exact ⟨.same rfl rfl, h⟩
  | some copy =>
    cases hupdate : store.update state.world copy.object with
    | mk answer after =>
      simp only [step, hcopy, hupdate]
      cases answer with
      | error e =>
        have hsame : Advance store key name state { state with world := after } :=
          .same ((store.update_error hupdate).2 name) rfl
        exact ⟨hsame, h.advance hsame rfl⟩
      | ok stored =>
        obtain ⟨hadvance, htracked⟩ := (h c copy hcopy).advance_update hwrites
          (State.hold ⟨after, state.copies, state.writes + 1⟩ keep ⟨stored, copy.added⟩)
          (by rw [world_hold]; exact hupdate) (hback copy stored hcopy (by rw [hupdate]))
          (writes_hold _ keep _)
        exact ⟨hadvance, h.hold keep rfl hadvance htracked⟩

/-- The step lemma: one case for each kind of event. -/
theorem advance_step (hplain : Path.IsPlain store.directory)
    (h : Invariant store key name state) (hwrites : state.writes < 2 ^ 64) {event : Event ι}
    (hallowed : event.IsAllowed key name state)
    (hback : ∀ stored ∈ event.stored? store state, store.format.ReadsBack stored) :
    Advance store key name state (step store key name state event) ∧
      Invariant store key name (step store key name state event) := by
  cases event with
  | load c =>
    cases hload : store.load state.world.files name with
    | error e =>
      simp only [step, hload]
      exact ⟨.same rfl rfl, h⟩
    | ok w =>
      simp only [step, hload]
      exact h.hold_tracked (some c) (isTracked_of_load hload)
  | create c w =>
    apply create_step hplain h c hallowed
    intro stored hstored
    apply hback
    simp [Event.stored?, hstored, Except.toOption]
  | add c slots =>
    cases hcopy : state.copies c with
    | none =>
      simp only [step, hcopy]
      exact ⟨.same rfl rfl, h⟩
    | some copy =>
      obtain ⟨larger, hadd, htracked⟩ := (h c copy hcopy).add slots
      simp only [step, hcopy, hadd]
      exact h.hold_tracked (some c) htracked
  | edit c replicas bag =>
    cases hcopy : state.copies c with
    | none =>
      simp only [step, hcopy]
      exact ⟨.same rfl rfl, h⟩
    | some copy =>
      simp only [step, hcopy]
      exact h.hold_tracked (some c) ((h c copy hcopy).edit replicas (hallowed copy hcopy))
  | update c keep =>
    apply update_step h hwrites c keep
    intro copy stored hcopy hstored
    apply hback
    simp [Event.stored?, hcopy, hstored, Except.toOption]

theorem writes_le_step (event : Event ι) :
    state.writes ≤ (step store key name state event).writes := by
  fun_cases step store key name state event <;> simp

theorem IsRun.writes_stateAt_lt (h : IsRun store key name world events) {i : ℕ}
    (hi : i ≤ events.length) : (stateAt store key name world events i).writes < 2 ^ 64 := by
  have hmono : ∀ j, i ≤ j → j ≤ events.length →
      (stateAt store key name world events i).writes ≤
        (stateAt store key name world events j).writes := by
    intro j hij
    induction j, hij using Nat.le_induction with
    | base => exact fun _ => le_rfl
    | succ j _ ih =>
      intro hj
      rw [stateAt_succ store key name world events j hj]
      exact (ih (by omega)).trans (writes_le_step _)
  exact lt_of_le_of_lt (hmono events.length hi le_rfl) h.writes_lt

theorem IsRun.invariant (h : IsRun store key name world events)
    (hplain : Path.IsPlain store.directory) {i : ℕ} (hi : i ≤ events.length) :
    Invariant store key name (stateAt store key name world events i) := by
  induction i with
  | zero =>
    intro c copy hcopy
    cases hcopy
  | succ i ih =>
    rw [stateAt_succ store key name world events i hi]
    exact (advance_step hplain (ih (by omega)) (h.writes_stateAt_lt (by omega))
      (h.allowed i hi) (h.readsBack i hi)).2

theorem IsRun.advance (h : IsRun store key name world events)
    (hplain : Path.IsPlain store.directory) {i : ℕ} (hi : i < events.length) :
    Advance store key name (stateAt store key name world events i)
      (stateAt store key name world events (i + 1)) := by
  rw [stateAt_succ store key name world events i hi]
  exact (advance_step hplain (h.invariant hplain hi.le) (h.writes_stateAt_lt hi.le)
    (h.allowed i hi) (h.readsBack i hi)).1

theorem IsRun.still_reserved (h : IsRun store key name world events)
    (hplain : Path.IsPlain store.directory) {i j : ℕ} (hij : i ≤ j) (hj : j ≤ events.length)
    {w : Workload}
    (hload : store.load (stateAt store key name world events i).world.files name = .ok w) :
    ∃ w', store.load (stateAt store key name world events j).world.files name = .ok w' ∧
      ∀ o ∈ Reservations.read key w.annotations, o ∈ Reservations.read key w'.annotations := by
  induction j, hij using Nat.le_induction with
  | base => exact ⟨w, hload, fun _ ho => ho⟩
  | succ j _ ih =>
    obtain ⟨before, hbefore, hkept⟩ := ih (by omega)
    cases h.advance hplain hj with
    | same load_eq writes_eq => exact ⟨before, load_eq.trans hbefore, hkept⟩
    | written current stored load_before load_after version_eq reserved writes_eq =>
      obtain rfl := Except.ok.inj (load_before.symm.trans hbefore)
      exact ⟨stored, load_after, fun o ho => reserved o (hkept o ho)⟩
    | vacant not_stored => exact absurd hbefore (not_stored before)

theorem world_stateAt_succ {i : ℕ} (hi : i < events.length) {c : ι} {keep : Option ι}
    (hevent : events[i] = .update c keep)
    (hcopy : (stateAt store key name world events i).copies c = some copy) :
    (stateAt store key name world events (i + 1)).world =
      (store.update (stateAt store key name world events i).world copy.object).2 := by
  rw [stateAt_succ store key name world events i hi, hevent]
  cases hupdate : store.update (stateAt store key name world events i).world copy.object with
  | mk answer after =>
    cases answer with
    | error e => simp only [step, hcopy, hupdate]
    | ok stored => simp only [step, hcopy, hupdate, world_hold]

/-- From the moment on at which an update is accepted, all slots are reserved that its copy was
given, and an update that is refused changes nothing but a draft. -/
theorem no_reservation_dropped (store : Store) (key name : Text) (world : World)
    (events : List (Event ι)) (h : IsRun store key name world events) :
    ∀ i (hi : i < events.length) c keep copy, events[i] = .update c keep →
      (stateAt store key name world events i).copies c = some copy →
        (∀ stored,
          (store.update (stateAt store key name world events i).world copy.object).1 = .ok stored →
            ∀ j, i < j → j ≤ events.length → ∃ w,
              store.load (stateAt store key name world events j).world.files name = .ok w ∧
                ∀ o ∈ copy.added, o ∈ Reservations.read key w.annotations) ∧
        ∀ e, (store.update (stateAt store key name world events i).world copy.object).1 = .error e →
          store.SameButDraft (stateAt store key name world events i).world.files
              (stateAt store key name world events (i + 1)).world.files copy.object.name ∧
            ∀ other, store.load (stateAt store key name world events (i + 1)).world.files other =
              store.load (stateAt store key name world events i).world.files other := by
  intro i hi c keep copy hevent hcopy
  have hworld := world_stateAt_succ hi hevent hcopy
  constructor
  · intro stored hanswer j hij hj
    have hupdate : store.update (stateAt store key name world events i).world copy.object =
        (.ok stored, (stateAt store key name world events (i + 1)).world) := by
      rw [← hanswer, hworld]
    have hplain := store.isPlain_of_update_ok hupdate
    have htracked := h.invariant hplain hi.le c copy hcopy
    have hback := h.readsBack i hi stored (by
      simp [hevent, Event.stored?, hcopy, hanswer, Except.toOption])
    obtain ⟨_, _, _, rfl, hstored, _⟩ := store.update_ok hupdate
    have hstored := hstored hback
    rw [htracked.name_eq] at hstored
    obtain ⟨w, hload, hkept⟩ := h.still_reserved hplain hij hj hstored
    exact ⟨w, hload, fun o ho => hkept o (htracked.added o ho)⟩
  · intro e hanswer
    apply store.update_error (e := e)
    rw [← hanswer, hworld]

/-- Two clients add a slot each to the object that one of them has created. The second update is
refused, and accepted once it starts from the first. -/
theorem no_reservation_dropped_two_clients :
    let store : Store := ⟨"/store", Block.format "no block notation"⟩
    let world : World := ⟨Files.empty [], []⟩
    let events : List (Event ℕ) :=
      [.create 0 ⟨"web", 3, 0, none⟩, .load 1, .add 0 (OrdinalSet.ofList [1]),
        .add 1 (OrdinalSet.ofList [2]), .update 0 (some 0), .update 1 none, .load 1,
        .add 1 (OrdinalSet.ofList [2]), .update 1 none]
    IsRun store "slots" "web" world events ∧
      ∃ w, store.load (stateAt store "slots" "web" world events 9).world.files "web" = .ok w ∧
        ∀ o ∈ OrdinalSet.ofList [1], o ∈ Reservations.read "slots" w.annotations := by
  intro store world events
  have hrun : IsRun store "slots" "web" world events := by
    constructor
    · intro i hi
      change i < 9 at hi
      interval_cases i
      · rfl
      all_goals trivial
    · exact fun _ _ stored _ => (Block.keeps "no block notation" stored).2
    · decide +kernel
  have hsome : ((stateAt store "slots" "web" world events 4).copies 0).isSome = true := by
    decide +kernel
  have hadded : ((stateAt store "slots" "web" world events 4).copies 0).map Copy.added =
      some (OrdinalSet.ofList [1]) := by
    decide +kernel
  have haccepted : ((stateAt store "slots" "web" world events 4).copies 0).map (fun copy =>
      (store.update (stateAt store "slots" "web" world events 4).world copy.object).1.isOk) =
        some true := by
    decide +kernel
  obtain ⟨copy, hcopy⟩ := Option.isSome_iff_exists.1 hsome
  rw [hcopy, Option.map_some, Option.some.injEq] at hadded haccepted
  cases hanswer : (store.update (stateAt store "slots" "web" world events 4).world copy.object).1 with
  | error e =>
    rw [hanswer] at haccepted
    cases haccepted
  | ok stored =>
    rw [← hadded]
    exact ⟨hrun, (no_reservation_dropped store "slots" "web" world events hrun 4 (by decide) 0
      (some 0) copy rfl hcopy).1 stored hanswer 9 (by decide) (by decide)⟩

end Runs

end StableOrdinals.Clients
