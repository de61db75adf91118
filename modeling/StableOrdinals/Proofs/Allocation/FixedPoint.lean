import StableOrdinals.Proofs.Allocation.Boundary

/-!
# The boundary as a fixed point

A boundary accounts for the replicas and for the reservations below it, and so it is a solution of
`b = replicas + countBelow b`. The equation has one more solution for each reservation in an
unbroken row from the boundary on. It says that there are as many free numbers below `b` as there
are replicas (`eq_add_countBelow_iff`), so that the scan, which stops at the first such number,
finds the least solution: `Allocation.resolve_isLeast`.
-/

namespace StableOrdinals

variable {replicas bound : ℕ} {reserved : OrdinalSet}

theorem OrdinalSet.eq_add_countBelow_iff :
    bound = replicas + reserved.countBelow bound ↔
      Nat.count reserved.IsFree bound = replicas := by
  have hsum := reserved.count_add_countBelow bound
  omega

theorem Resolution.isLeast_boundary (replicas : ℕ) (reserved : OrdinalSet) :
    IsLeast {b : ℕ | b = replicas + reserved.countBelow b} (scan replicas reserved).boundary := by
  constructor
  · exact OrdinalSet.eq_add_countBelow_iff.2 (count_boundary replicas reserved)
  · intro b hb
    rw [boundary_le_iff, OrdinalSet.eq_add_countBelow_iff.1 hb]

namespace Allocation

/-- The boundary is the least solution, and the consumed reservations are those below it. The last
number below the boundary is not reserved. -/
theorem resolve_isLeast {replicas : Int32} {r : Resolution}
    (h : resolve replicas reserved = .ok r) :
    IsLeast {b : ℕ | (b : ℤ) = replicas.toInt + reserved.countBelow b} r.boundary ∧
      (∀ o, o ∈ r.consumed ↔ o ∈ reserved ∧ 0 ≤ o.toInt ∧ o.toInt < r.boundary) ∧
      (r.boundary : ℤ) = replicas.toInt + r.consumed.size ∧
      (0 < r.boundary → ∀ o ∈ reserved, o.toInt ≠ (r.boundary : ℤ) - 1) := by
  obtain ⟨hfits, rfl⟩ := resolve_eq_ok_iff.1 h
  have hreplicas : (replicas.toInt.toNat : ℤ) = replicas.toInt := Int.toNat_of_nonneg hfits.1
  refine ⟨?_, Resolution.mem_consumed_scan _ _, ?_, ?_⟩
  · have hset : {b : ℕ | (b : ℤ) = replicas.toInt + reserved.countBelow b} =
        {b : ℕ | b = replicas.toInt.toNat + reserved.countBelow b} := by
      ext b
      change (b : ℤ) = _ ↔ b = _
      omega
    rw [hset]
    exact Resolution.isLeast_boundary replicas.toInt.toNat reserved
  · have := (Resolution.isScanOf_scan replicas.toInt.toNat reserved).boundary_eq
    omega
  · intro hpos o ho heq
    have hfree := Resolution.isFree_pred_boundary replicas.toInt.toNat reserved hpos
    exact hfree o ho (by omega)

/-- The reservations of 3 and 4 start at the boundary, so that 4 and 5 are solutions as well. -/
theorem resolve_isLeast_row :
    let reserved := OrdinalSet.ofList [-5, 1, 3, 4, 7]
    ∃ r, resolve 2 reserved = .ok r ∧ r.boundary = 3 ∧
      IsLeast {b : ℕ | (b : ℤ) = 2 + reserved.countBelow b} 3 ∧
      (4 : ℤ) = 2 + reserved.countBelow 4 ∧ (5 : ℤ) = 2 + reserved.countBelow 5 := by
  intro reserved
  have hboundary : (resolve 2 reserved).map Resolution.boundary = .ok 3 := by decide +kernel
  obtain ⟨r, h, hr⟩ := map_eq_ok_iff.1 hboundary
  refine ⟨r, h, hr, ?_, by decide +kernel, by decide +kernel⟩
  have hleast := (resolve_isLeast h).1
  rw [hr] at hleast
  exact hleast

end Allocation

end StableOrdinals
