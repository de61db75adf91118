import StableOrdinals.Proofs.Allocation.Words

/-!
# When there is no allocation

Two things can go wrong: a number of replicas is negative, or there are fewer free ordinals than
replicas. One function finds the second by its boundary, another by running past the largest
ordinal, and they agree on when it happens, since both count free numbers (`FailsExactly`). A
workload that does not grow takes up nothing, so that nothing is missing even if it does not fit
where it is.

`allocation_fails_iff` says so for all functions, together with their counterparts in machine words:
where no number is negative and the free ordinals suffice there is a result, and no word is too
short for it.
-/

namespace StableOrdinals

/-- The number of replicas is at fault, and not the want of ordinals. -/
def AllocationError.isNegative : AllocationError → Bool
  | .negative .. => true
  | _ => false

def OrdinalSet.freeOrdinals (reserved : OrdinalSet) : ℕ :=
  Nat.count reserved.IsFree (Ordinal.largest + 1)

theorem map_eq_error_iff {ε α β : Type} {f : α → β} {answer : Except ε α} {e : ε} :
    answer.map f = .error e ↔ answer = .error e := by
  cases answer <;> simp [Except.map]

theorem mapError_eq_error_iff {ε ε' α : Type} {f : ε → ε'} {answer : Except ε α} {e : ε'} :
    answer.mapError f = .error e ↔ ∃ cause, answer = .error cause ∧ f cause = e := by
  cases answer <;> simp [Except.mapError]

namespace Allocation

/-- The answer is an error because of a negative number in exactly the one case, and for want of
ordinals in exactly the other one, unless the first applies. -/
structure FailsExactly {α : Type} (answer : Except AllocationError α) (negative short : Prop) :
    Prop where
  negative_iff : (∃ e, answer = .error e ∧ e.isNegative = true) ↔ negative
  short_iff : (∃ e, answer = .error e ∧ e.isNegative = false) ↔ ¬ negative ∧ short

variable {α β : Type} {answer : Except AllocationError α} {negative short : Prop}
  {replicas current target : Int32} {reserved : OrdinalSet} {e : AllocationError}

theorem failsExactly_of_ok {a : α} (h : answer = .ok a) (hnegative : ¬ negative)
    (hshort : ¬ short) : FailsExactly answer negative short where
  negative_iff := by simp [h, hnegative]
  short_iff := by simp [h, hshort]

theorem failsExactly_of_error (h : answer = .error e) (hnegative : e.isNegative = true ↔ negative)
    (hshort : ¬ negative → short) : FailsExactly answer negative short where
  negative_iff := by simp [h, hnegative]
  short_iff := by
    rw [h, ← hnegative]
    cases he : e.isNegative with
    | true => simp [he]
    | false =>
      rw [he] at hnegative
      simpa [he] using hshort fun hneg => Bool.noConfusion (hnegative.2 hneg)

theorem FailsExactly.map (h : FailsExactly answer negative short) (f : α → β) :
    FailsExactly (answer.map f) negative short where
  negative_iff := by simpa only [map_eq_error_iff] using h.negative_iff
  short_iff := by simpa only [map_eq_error_iff] using h.short_iff

theorem not_fits_iff (reserved : OrdinalSet) (h : 0 ≤ replicas.toInt) :
    ¬ Fits replicas reserved ↔ reserved.freeOrdinals < replicas.toInt := by
  unfold Fits OrdinalSet.freeOrdinals
  omega

theorem resolve_of_not_fits (h₀ : 0 ≤ replicas.toInt) (h : ¬ Fits replicas reserved) :
    resolve replicas reserved = .error (.beyondRange replicas
      (Resolution.scan replicas.toInt.toNat reserved).consumed.size) := by
  have hbeyond : Ordinal.largest + 1 <
      (Resolution.scan replicas.toInt.toNat reserved).boundary := by
    by_contra hle
    exact h ⟨h₀, (Resolution.boundary_le_iff _ _ _).1 (by omega)⟩
  unfold resolve
  rw [if_neg (by omega)]
  exact if_pos hbeyond

theorem resolve_failsExactly (replicas : Int32) (reserved : OrdinalSet) :
    FailsExactly (resolve replicas reserved) (replicas.toInt < 0)
      (reserved.freeOrdinals < replicas.toInt) := by
  by_cases hneg : replicas.toInt < 0
  · exact failsExactly_of_error (if_pos hneg) (by simpa [AllocationError.isNegative] using hneg)
      fun h => absurd hneg h
  · have hfits := not_fits_iff reserved (not_lt.1 hneg)
    by_cases h : Fits replicas reserved
    · exact failsExactly_of_ok (resolve_eq_ok_iff.2 ⟨h, rfl⟩) hneg fun hshort => hfits.2 hshort h
    · exact failsExactly_of_error (resolve_of_not_fits (not_lt.1 hneg) h)
        (by simpa [AllocationError.isNegative] using hneg) fun _ => hfits.1 h

theorem isNegative_of_scaleOut (h₀ : 0 ≤ current.toInt) (hlt : current.toInt < target.toInt)
    (h : scaleOut current target reserved = .error e) : e.isNegative = false := by
  rw [scaleOut, if_neg (by omega), if_neg (by omega), if_neg (by omega)] at h
  by_cases hfits : Fits current reserved
  · rw [maxActive_eq_ok_iff.2 ⟨hfits, rfl⟩] at h
    change (takeFree _ _ _ _).mapError _ = _ at h
    obtain ⟨missing, _, rfl⟩ := mapError_eq_error_iff.1 h
    rfl
  · rw [maxActive, resolve_of_not_fits h₀ hfits] at h
    obtain rfl := Except.error.inj h
    rfl

theorem scaleOut_failsExactly (current target : Int32) (reserved : OrdinalSet) :
    FailsExactly (scaleOut current target reserved) (current.toInt < 0 ∨ target.toInt < 0)
      (current.toInt < target.toInt ∧ reserved.freeOrdinals < target.toInt) := by
  by_cases hcurrent : current.toInt < 0
  · exact failsExactly_of_error (if_pos hcurrent)
      (by simpa [AllocationError.isNegative] using Or.inl hcurrent)
      fun h => absurd (Or.inl hcurrent) h
  by_cases htarget : target.toInt < 0
  · exact failsExactly_of_error ((if_neg hcurrent).trans (if_pos htarget))
      (by simpa [AllocationError.isNegative] using Or.inr htarget)
      fun h => absurd (Or.inr htarget) h
  have h₀ := not_lt.1 hcurrent
  have hnegative : ¬ (current.toInt < 0 ∨ target.toInt < 0) := not_or.2 ⟨hcurrent, htarget⟩
  by_cases hle : target.toInt ≤ current.toInt
  · refine failsExactly_of_ok (a := []) ?_ hnegative fun hshort => absurd hshort.1 (not_lt.2 hle)
    rw [scaleOut, if_neg hcurrent, if_neg htarget, if_pos hle]
  have hlt := not_le.1 hle
  have hfits := not_fits_iff reserved (not_lt.1 htarget)
  by_cases h : Fits target reserved
  · exact failsExactly_of_ok ((scaleOut_eq_ok_iff h₀ hlt).2 ⟨h, rfl⟩) hnegative
      fun hshort => hfits.2 hshort.2 h
  · cases hanswer : scaleOut current target reserved with
    | ok ordinals => exact absurd ((scaleOut_eq_ok_iff h₀ hlt).1 hanswer).1 h
    | error e =>
      refine failsExactly_of_error rfl ?_ fun _ => ⟨hlt, hfits.1 h⟩
      simpa [isNegative_of_scaleOut h₀ hlt hanswer] using hnegative

theorem scaleOut_eq_nil_iff : scaleOut current target reserved = .ok [] ↔
    0 ≤ current.toInt ∧ 0 ≤ target.toInt ∧ target.toInt ≤ current.toInt := by
  constructor
  · intro h
    have hfails := scaleOut_failsExactly current target reserved
    have hnegative : ¬ (current.toInt < 0 ∨ target.toInt < 0) := by
      intro hneg
      obtain ⟨e, he, _⟩ := hfails.negative_iff.2 hneg
      rw [h] at he
      cases he
    refine ⟨by omega, by omega, ?_⟩
    by_contra! hlt
    obtain ⟨_, hlist⟩ := (scaleOut_eq_ok_iff (by omega) hlt).1 h
    have hlength := congrArg List.length hlist
    rw [List.length_nil, List.length_map, List.length_range'] at hlength
    omega
  · rintro ⟨hcurrent, htarget, hle⟩
    rw [scaleOut, if_neg (by omega), if_neg (by omega), if_pos hle]

/-- Negative replicas are refused, and beyond that there is no answer exactly if fewer than
`replicas`, or for a growing workload fewer than `target`, of the ordinals that a member can have
are free. In machine words everything is found as it is. -/
theorem allocation_fails_iff (reserved : OrdinalSet) :
    (∀ replicas : Int32,
        FailsExactly (resolve replicas reserved) (replicas.toInt < 0)
            (reserved.freeOrdinals < replicas.toInt) ∧
          FailsExactly (active replicas reserved) (replicas.toInt < 0)
            (reserved.freeOrdinals < replicas.toInt) ∧
          FailsExactly (maxActive replicas reserved) (replicas.toInt < 0)
            (reserved.freeOrdinals < replicas.toInt) ∧
          FailsExactly (minActive replicas reserved) (replicas.toInt < 0)
            (reserved.freeOrdinals < replicas.toInt) ∧
          Words.resolve? replicas reserved = some (resolve replicas reserved) ∧
          Words.active? replicas reserved = some (active replicas reserved) ∧
          Words.maxActive? replicas reserved = some (maxActive replicas reserved) ∧
          Words.minActive? replicas reserved = some (minActive replicas reserved)) ∧
      ∀ current target : Int32,
        FailsExactly (scaleOut current target reserved) (current.toInt < 0 ∨ target.toInt < 0)
            (current.toInt < target.toInt ∧ reserved.freeOrdinals < target.toInt) ∧
          (scaleOut current target reserved = .ok [] ↔
            0 ≤ current.toInt ∧ 0 ≤ target.toInt ∧ target.toInt ≤ current.toInt) ∧
          Words.scaleOut? current target reserved = some (scaleOut current target reserved) := by
  constructor
  · intro replicas
    have hfails := resolve_failsExactly replicas reserved
    exact ⟨hfails, hfails.map _, hfails.map _, hfails.map _, Words.resolve?_eq _ _,
      Words.active?_eq _ _, Words.maxActive?_eq _ _, Words.minActive?_eq _ _⟩
  · intro current target
    exact ⟨scaleOut_failsExactly _ _ _, scaleOut_eq_nil_iff, Words.scaleOut?_eq _ _ _⟩

/-- There is no allocation for so many replicas, but a workload that shrinks takes up nothing. -/
example : let reserved := OrdinalSet.ofList [0, 1]
    (active 2147483647 reserved).toOption = none ∧ scaleOut 2147483647 5 reserved = .ok [] := by
  decide +kernel

end Allocation

end StableOrdinals
