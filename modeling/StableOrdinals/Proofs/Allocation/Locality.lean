import StableOrdinals.Proofs.Allocation.ScaleOut

/-!
# Reservations that cannot matter

An allocation is settled by the reservations below its boundary. Two sets that agree there
(`AgreeBelow`) have the same free numbers below it and count them alike, so that every scan that
ends at or before the boundary comes to the same result with both: `AgreeBelow.scan_eq`. A growing
workload walks over the whole set of reservations and not over what the scan has consumed, but it
also stops before the boundary of the replicas that it grows to: `AgreeBelow.scaleOut_eq`.

Thus what is negative, at the boundary or above it can be reserved or released at will:
`Allocation.depends_below_boundary`.
-/

namespace StableOrdinals

variable {reserved other : OrdinalSet} {bound replicas : ℕ}

/-- The same ordinals from zero on below the bound are reserved. -/
def AgreeBelow (reserved other : OrdinalSet) (bound : ℕ) : Prop :=
  ∀ o : Ordinal, 0 ≤ o.toInt → o.toInt < bound → (o ∈ other ↔ o ∈ reserved)

section AgreeBelow

variable (h : AgreeBelow reserved other bound)

include h

theorem AgreeBelow.isFree_iff {i : ℕ} (hi : i < bound) : other.IsFree i ↔ reserved.IsFree i := by
  constructor
  · intro hfree o ho heq
    exact hfree o ((h o (by omega) (by omega)).2 ho) heq
  · intro hfree o ho heq
    exact hfree o ((h o (by omega) (by omega)).1 ho) heq

theorem AgreeBelow.count_eq {m : ℕ} (hm : m ≤ bound) :
    Nat.count other.IsFree m = Nat.count reserved.IsFree m := by
  apply le_antisymm
  · exact Nat.count_mono_left fun i hi => (h.isFree_iff (by omega)).1
  · exact Nat.count_mono_left fun i hi => (h.isFree_iff (by omega)).2

theorem AgreeBelow.nth_eq {k : ℕ} (hk : k < Nat.count reserved.IsFree bound) :
    Nat.nth other.IsFree k = Nat.nth reserved.IsFree k := by
  have hlt : Nat.nth reserved.IsFree k < bound := Nat.nth_lt_of_lt_count hk
  have hfree : other.IsFree (Nat.nth reserved.IsFree k) :=
    (h.isFree_iff hlt).2 (Nat.nth_mem_of_infinite reserved.infinite_isFree k)
  have hcount : Nat.count other.IsFree (Nat.nth reserved.IsFree k) = k := by
    rw [h.count_eq hlt.le, Nat.count_nth_of_infinite reserved.infinite_isFree]
  calc
    Nat.nth other.IsFree k
        = Nat.nth other.IsFree (Nat.count other.IsFree (Nat.nth reserved.IsFree k)) := by rw [hcount]
    _ = Nat.nth reserved.IsFree k := Nat.nth_count hfree

variable (hbound : (Resolution.scan replicas reserved).boundary ≤ bound)

include hbound

theorem AgreeBelow.boundary_eq :
    (Resolution.scan replicas other).boundary = (Resolution.scan replicas reserved).boundary := by
  have hle : (Resolution.scan replicas other).boundary ≤
      (Resolution.scan replicas reserved).boundary := by
    rw [Resolution.boundary_le_iff, h.count_eq hbound, Resolution.count_boundary]
  apply le_antisymm hle
  rw [Resolution.boundary_le_iff, ← h.count_eq (hle.trans hbound), Resolution.count_boundary]

theorem AgreeBelow.scan_eq : Resolution.scan replicas other = Resolution.scan replicas reserved := by
  have hboundary := h.boundary_eq hbound
  have hconsumed : (Resolution.scan replicas other).consumed =
      (Resolution.scan replicas reserved).consumed := by
    apply Std.ExtTreeSet.ext_mem
    intro o
    rw [Resolution.mem_consumed_scan, Resolution.mem_consumed_scan, hboundary]
    constructor
    · rintro ⟨ho, h₀, hlt⟩
      exact ⟨(h o h₀ (by omega)).1 ho, h₀, hlt⟩
    · rintro ⟨ho, h₀, hlt⟩
      exact ⟨(h o h₀ (by omega)).2 ho, h₀, hlt⟩
  calc
    Resolution.scan replicas other
        = ⟨(Resolution.scan replicas other).boundary,
            (Resolution.scan replicas other).consumed⟩ := rfl
    _ = Resolution.scan replicas reserved := by rw [hboundary, hconsumed]

end AgreeBelow

theorem Resolution.boundary_mono {more : ℕ} (h : replicas ≤ more) :
    (scan replicas reserved).boundary ≤ (scan more reserved).boundary := by
  rw [boundary_le_iff, count_boundary]
  exact h

namespace Allocation

variable {current target : Int32}

theorem resolve_congr (h : AgreeBelow reserved other bound) {replicas : Int32}
    (hbound : (Resolution.scan replicas.toInt.toNat reserved).boundary ≤ bound) :
    resolve replicas other = resolve replicas reserved := by
  unfold resolve
  rw [h.scan_eq hbound]

/-- Both walks list the free numbers from `current` up to `target`, all of them below the boundary.
-/
theorem scaleOut_congr (h : AgreeBelow reserved other bound)
    (hbound : (Resolution.scan target.toInt.toNat reserved).boundary ≤ bound)
    (hfits : Fits target reserved) (h₀ : 0 ≤ current.toInt) :
    scaleOut current target other = scaleOut current target reserved := by
  by_cases hlt : current.toInt < target.toInt
  · have hfits' : Fits target other := by
      rw [← exists_active_iff, active, resolve_congr h hbound]
      exact exists_active_iff.2 hfits
    have hle : target.toInt.toNat ≤ Nat.count reserved.IsFree bound :=
      (Resolution.boundary_le_iff _ _ _).1 hbound
    rw [(scaleOut_eq_ok_iff h₀ hlt).2 ⟨hfits, rfl⟩, scaleOut_eq_ok_iff h₀ hlt]
    refine ⟨hfits', List.map_congr_left ?_⟩
    intro k hk
    rw [List.mem_range'_1] at hk
    rw [h.nth_eq (by omega)]
  · have htarget := hfits.1
    rw [scaleOut, scaleOut, if_neg (by omega), if_neg (by omega), if_pos (by omega),
      if_neg (by omega), if_neg (by omega), if_pos (by omega)]

/-- With the reservations below the boundary of `target` replicas given, no other reservation bears
on an answer for at most as many replicas. -/
theorem depends_below_boundary {r : Resolution} (h : resolve target reserved = .ok r)
    (hagree : ∀ o : Ordinal, 0 ≤ o.toInt → o.toInt < r.boundary → (o ∈ other ↔ o ∈ reserved)) :
    (∀ replicas : Int32, 0 ≤ replicas.toInt → replicas.toInt ≤ target.toInt →
        resolve replicas reserved = resolve replicas other ∧
          active replicas reserved = active replicas other ∧
          minActive replicas reserved = minActive replicas other ∧
          maxActive replicas reserved = maxActive replicas other) ∧
      ∀ current : Int32, 0 ≤ current.toInt → current.toInt ≤ target.toInt →
        scaleOut current target reserved = scaleOut current target other := by
  obtain ⟨hfits, rfl⟩ := resolve_eq_ok_iff.1 h
  constructor
  · intro replicas _ hle
    have hsame := resolve_congr hagree (Resolution.boundary_mono (Int.toNat_le_toNat hle))
    unfold active minActive maxActive
    rw [hsame]
    exact ⟨rfl, rfl, rfl, rfl⟩
  · intro current h₀ _
    exact (scaleOut_congr hagree le_rfl hfits h₀).symm

/-- The two sets differ at the boundary, which is 3, above it and below zero. -/
theorem depends_below_boundary_latent :
    let reserved := OrdinalSet.ofList [-5, 1, 3, 4]
    let other := OrdinalSet.ofList [-2, 1, 9]
    (∃ r, resolve 2 reserved = .ok r ∧ r.boundary = 3 ∧
        ∀ o : Ordinal, 0 ≤ o.toInt → o.toInt < r.boundary → (o ∈ other ↔ o ∈ reserved)) ∧
      active 1 reserved = active 1 other ∧ active 2 reserved = active 2 other ∧
      scaleOut 1 2 reserved = scaleOut 1 2 other := by
  intro reserved other
  have hboundary : (resolve 2 reserved).map Resolution.boundary = .ok 3 := by decide +kernel
  obtain ⟨r, h, hr⟩ := map_eq_ok_iff.1 hboundary
  have hagree : ∀ o : Ordinal, 0 ≤ o.toInt → o.toInt < r.boundary →
      (o ∈ other ↔ o ∈ reserved) := by
    intro o h₀ hlt
    rw [hr] at hlt
    simp only [other, reserved, OrdinalSet.mem_ofList, List.mem_cons, List.not_mem_nil, or_false]
    constructor
    · rintro (rfl | rfl | rfl) <;> revert h₀ hlt <;> decide
    · rintro (rfl | rfl | rfl | rfl) <;> revert h₀ hlt <;> decide
  obtain ⟨hanswers, hgrowth⟩ := depends_below_boundary h hagree
  exact ⟨⟨r, h, hr, hagree⟩, (hanswers 1 (by decide) (by decide)).2.1,
    (hanswers 2 (by decide) (by decide)).2.1, hgrowth 1 (by decide) (by decide)⟩

end Allocation

end StableOrdinals
