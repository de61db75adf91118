import Mathlib.Tactic.IntervalCases
import StableOrdinals.Proofs.Allocation.Members
import StableOrdinals.Proofs.Reservations.RoundTrip
import StableOrdinals.Workload

/-!
# Members keep their ordinals

A workload grows, or some of its slots are reserved, and after each such step its active set is
computed anew from the replicas and the annotations. Along a run replicas and reservations only
increase (`Extends`), and `isActive_of_extends` compares the active sets of any two moments: what is
still free and lies no higher than an ordinal that was active once is active now.

`no_renumbering` draws the consequences for whole runs.
-/

namespace StableOrdinals.Stability

inductive Step
  | grow (target : Int32)
  | reserve (slots : OrdinalSet)

/-- The workload after a step. One whose slots could not be encoded would stay as it was. -/
def Step.apply (key : Text) (w : Workload) : Step → Workload
  | .grow target => { w with replicas := target }
  | .reserve slots =>
    match Reservations.add key slots w.annotations with
    | .ok annotations => { w with annotations }
    | .error _ => w

def Step.slots : Step → OrdinalSet
  | .grow _ => ∅
  | .reserve slots => slots

def Step.IsAllowed (w : Workload) : Step → Prop
  | .grow target => w.replicas.toInt ≤ target.toInt
  | .reserve _ => True

variable (key : Text) (w : Workload) (steps : List Step)

def stateAt (i : ℕ) : Workload := (steps.take i).foldl (Step.apply key) w

def reserved : OrdinalSet := Reservations.read key w.annotations

def active : Except AllocationError OrdinalSet := Reservations.active key w.replicas w.annotations

def IsActive (o : Ordinal) : Prop := ∃ members, active key w = .ok members ∧ o ∈ members

/-- Every step is allowed, and the active set is defined after it. -/
structure IsRun : Prop where
  allowed : ∀ i (hi : i < steps.length), steps[i].IsAllowed (stateAt key w steps i)
  defined : ∀ i < steps.length, ∃ members, active key (stateAt key w steps (i + 1)) = .ok members

theorem stateAt_succ (i : ℕ) (hi : i < steps.length) :
    stateAt key w steps (i + 1) = steps[i].apply key (stateAt key w steps i) := by
  unfold stateAt
  rw [List.take_succ_eq_append_getElem hi, List.foldl_append, List.foldl_cons, List.foldl_nil]

theorem mem_reserved_apply (step : Step) (o : Ordinal) :
    o ∈ reserved key (step.apply key w) ↔ o ∈ reserved key w ∨ o ∈ step.slots := by
  cases step with
  | grow target => simp [Step.apply, Step.slots, reserved]
  | reserve slots =>
    simp only [Step.apply, Step.slots, reserved, Reservations.add_eq, Reservations.read_written]
    exact Std.ExtTreeSet.mem_union_iff

theorem isActive_iff (o : Ordinal) : IsActive key w o ↔
    Allocation.Fits w.replicas (reserved key w) ∧ 0 ≤ o.toInt ∧ o ∉ reserved key w ∧
      (reserved key w).rank o < w.replicas.toInt.toNat := by
  constructor
  · rintro ⟨members, h, ho⟩
    exact ⟨(Allocation.active_eq_ok_iff.1 h).1, (Allocation.mem_of_active_eq_ok h).1 ho⟩
  · rintro ⟨hfits, ho⟩
    obtain ⟨members, h⟩ := Allocation.exists_active_iff.2 hfits
    exact ⟨members, h, (Allocation.mem_of_active_eq_ok h).2 ho⟩

/-- At least as many replicas and at least the same reservations. -/
structure Extends (w w' : Workload) : Prop where
  replicas : w.replicas.toInt ≤ w'.replicas.toInt
  reserved : ∀ o ∈ reserved key w, o ∈ reserved key w'

theorem extends_apply {step : Step} (h : step.IsAllowed w) : Extends key w (step.apply key w) where
  replicas := by
    cases step with
    | grow target => exact h
    | reserve slots => rw [Step.apply, Reservations.add_eq]
  reserved o ho := (mem_reserved_apply key w step o).2 (Or.inl ho)

theorem Extends.trans {w w' w'' : Workload} (h : Extends key w w') (h' : Extends key w' w'') :
    Extends key w w'' where
  replicas := h.replicas.trans h'.replicas
  reserved o ho := h'.reserved o (h.reserved o ho)

variable {key w steps}

theorem IsRun.extends (h : IsRun key w steps) {i j : ℕ} (hij : i ≤ j) (hj : j ≤ steps.length) :
    Extends key (stateAt key w steps i) (stateAt key w steps j) := by
  induction j, hij using Nat.le_induction with
  | base => exact ⟨le_rfl, fun _ ho => ho⟩
  | succ j _ ih =>
    rw [stateAt_succ key w steps j hj]
    exact (ih (by omega)).trans key (extends_apply key _ (h.allowed j hj))

theorem isActive_of_extends {w w' : Workload} (h : Extends key w w')
    (hfits : Allocation.Fits w'.replicas (reserved key w')) {o p : Ordinal}
    (hp : IsActive key w p) (hop : o.toInt ≤ p.toInt) (h₀ : 0 ≤ o.toInt)
    (hfree : o ∉ reserved key w') : IsActive key w' o := by
  obtain ⟨_, _, _, hrank⟩ := (isActive_iff key w p).1 hp
  have hreplicas := h.replicas
  have hlater : (reserved key w').rank o < w'.replicas.toInt.toNat := by
    calc
      (reserved key w').rank o ≤ (reserved key w).rank o :=
        OrdinalSet.rank_anti _ h.reserved o
      _ ≤ (reserved key w).rank p := OrdinalSet.rank_le_rank _ hop
      _ < w.replicas.toInt.toNat := hrank
      _ ≤ w'.replicas.toInt.toNat := by omega
  exact (isActive_iff key w' o).2 ⟨hfits, h₀, hfree, hlater⟩

theorem IsRun.fits (h : IsRun key w steps) {i : ℕ} (hi : i < steps.length) :
    Allocation.Fits (stateAt key w steps (i + 1)).replicas
      (reserved key (stateAt key w steps (i + 1))) :=
  Allocation.exists_active_iff.1 (h.defined i hi)

theorem IsRun.still_active (h : IsRun key w steps) {i : ℕ} (hi : i < steps.length) {o : Ordinal}
    (ho : IsActive key (stateAt key w steps i) o) (hslots : o ∉ steps[i].slots) :
    IsActive key (stateAt key w steps (i + 1)) o := by
  obtain ⟨_, h₀, hfree, _⟩ := (isActive_iff key _ o).1 ho
  refine isActive_of_extends (h.extends (Nat.le_succ i) hi) (h.fits hi) ho le_rfl h₀ ?_
  rw [stateAt_succ key w steps i hi, mem_reserved_apply]
  exact not_or.2 ⟨hfree, hslots⟩

/-- Had an ordinal at or above the new one been active before, the new one would have been active
in the state right before it became so. -/
theorem IsRun.above_earlier (h : IsRun key w steps) {i j : ℕ} (hi : i < steps.length) (hj : j ≤ i)
    {o p : Ordinal} (hbefore : ¬ IsActive key (stateAt key w steps i) o)
    (hafter : IsActive key (stateAt key w steps (i + 1)) o)
    (hp : IsActive key (stateAt key w steps j) p) : p.toInt < o.toInt := by
  by_contra! hop
  obtain ⟨_, h₀, hfree, _⟩ := (isActive_iff key _ o).1 hafter
  have hfits : Allocation.Fits (stateAt key w steps i).replicas
      (reserved key (stateAt key w steps i)) := by
    cases i with
    | zero =>
      obtain rfl : j = 0 := by omega
      exact ((isActive_iff key _ p).1 hp).1
    | succ i => exact h.fits (by omega)
  apply hbefore
  refine isActive_of_extends (h.extends hj hi.le) hfits hp hop h₀ ?_
  exact fun ho => hfree ((h.extends (Nat.le_succ i) hi).reserved o ho)

theorem IsRun.never_again (h : IsRun key w steps) {i j k : ℕ} (hij : i ≤ j) (hjk : j ≤ k)
    (hk : k ≤ steps.length) {o : Ordinal} (ho : IsActive key (stateAt key w steps i) o)
    (hleft : ¬ IsActive key (stateAt key w steps j) o) :
    ¬ IsActive key (stateAt key w steps k) o := by
  induction k, hjk using Nat.le_induction with
  | base => exact hleft
  | succ k hle ih =>
    intro hagain
    exact lt_irrefl _ (h.above_earlier hk (hij.trans hle) (ih (by omega)) hagain ho)

/-- A step leaves every active ordinal alone that it does not reserve, an ordinal that becomes
active lies above all that were active before, and one that has left never comes back. -/
theorem no_renumbering (key : Text) (w : Workload) (steps : List Step) (h : IsRun key w steps) :
    (∀ i (hi : i < steps.length) o, IsActive key (stateAt key w steps i) o →
        o ∉ steps[i].slots → IsActive key (stateAt key w steps (i + 1)) o) ∧
      (∀ i < steps.length, ∀ o, ¬ IsActive key (stateAt key w steps i) o →
        IsActive key (stateAt key w steps (i + 1)) o →
          ∀ j ≤ i, ∀ p, IsActive key (stateAt key w steps j) p → p.toInt < o.toInt) ∧
      ∀ i j k o, i ≤ j → j ≤ k → k ≤ steps.length → IsActive key (stateAt key w steps i) o →
        ¬ IsActive key (stateAt key w steps j) o → ¬ IsActive key (stateAt key w steps k) o := by
  refine ⟨?_, ?_, ?_⟩
  · intro i hi o ho hslots
    exact h.still_active hi ho hslots
  · intro i hi o hbefore hafter j hj p hp
    exact h.above_earlier hi hj hbefore hafter hp
  · intro i j k o hij hjk hk ho hleft
    exact h.never_again hij hjk hk ho hleft

/-- The slot 1 is reserved in the first step, and two steps later it is still not active. -/
theorem no_renumbering_reserved_slot :
    let w : Workload :=
      ⟨"web", 3, 1, some (((∅ : Annotations).insert "slots" "[7").insert "note" "new")⟩
    let steps : List Step :=
      [.reserve (OrdinalSet.ofList [1]), .grow 5, .reserve (OrdinalSet.ofList [0, 7, -2])]
    IsRun "slots" w steps ∧ IsActive "slots" (stateAt "slots" w steps 0) 1 ∧
      ¬ IsActive "slots" (stateAt "slots" w steps 3) 1 := by
  intro w steps
  have hrun : IsRun "slots" w steps := by
    constructor
    · intro i hi
      change i < 3 at hi
      interval_cases i
      · trivial
      · have hreplicas : (stateAt "slots" w steps 1).replicas = 3 := by decide +kernel
        change (stateAt "slots" w steps 1).replicas.toInt ≤ (5 : Int32).toInt
        rw [hreplicas]
        decide
      · trivial
    · intro i hi
      change i < 3 at hi
      interval_cases i
      · exact ⟨OrdinalSet.ofList [0, 2, 3], by decide +kernel⟩
      · exact ⟨OrdinalSet.ofList [0, 2, 3, 4, 5], by decide +kernel⟩
      · exact ⟨OrdinalSet.ofList [2, 3, 4, 5, 6], by decide +kernel⟩
  have hstart : IsActive "slots" (stateAt "slots" w steps 0) 1 :=
    ⟨OrdinalSet.ofList [0, 1, 2], by decide +kernel, by decide +kernel⟩
  have hleft : ¬ IsActive "slots" (stateAt "slots" w steps 1) 1 := by
    rintro ⟨members, h, ho⟩
    have hmembers : active "slots" (stateAt "slots" w steps 1) =
        .ok (OrdinalSet.ofList [0, 2, 3]) := by decide +kernel
    obtain rfl := Except.ok.inj (hmembers.symm.trans h)
    revert ho
    decide +kernel
  exact ⟨hrun, hstart,
    (no_renumbering "slots" w steps hrun).2.2 0 1 3 1 (by decide) (by decide) (by decide)
      hstart hleft⟩

end StableOrdinals.Stability
