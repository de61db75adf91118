import StableOrdinals.Proofs.Allocation.Members

/-!
# Removing members

Members are removed by reserving their ordinals and lowering the replicas by as many. A set that
holds all free ordinals below some bound and nothing else is active for as many replicas as it has
members (`active_of_mem_iff`). What removal leaves of an active set is such a set again, with the
bound that the active set had before: what the new reservations add to the boundary is what fewer
replicas take away from it. So `active_union` finds everybody else in place.
-/

namespace StableOrdinals.Allocation

variable {replicas : Int32} {reserved members : OrdinalSet} {bound : ℕ}

theorem mem_active_iff_lt_boundary (h : active replicas reserved = .ok members) {o : Ordinal} :
    o ∈ members ↔ 0 ≤ o.toInt ∧ o ∉ reserved ∧
      o.toInt < (Resolution.scan replicas.toInt.toNat reserved).boundary := by
  rw [mem_of_active_eq_ok h, OrdinalSet.rank, ← Resolution.lt_boundary_iff]
  constructor
  · rintro ⟨h₀, hfree, hlt⟩
    exact ⟨h₀, hfree, by omega⟩
  · rintro ⟨h₀, hfree, hlt⟩
    exact ⟨h₀, hfree, by omega⟩

theorem rank_lt_count_iff {o : Ordinal} (h₀ : 0 ≤ o.toInt) (hfree : o ∉ reserved) :
    reserved.rank o < Nat.count reserved.IsFree bound ↔ o.toInt < bound := by
  constructor
  · intro hlt
    have := Nat.lt_of_count_lt_count hlt
    omega
  · intro hlt
    exact Nat.count_strict_mono ((reserved.isFree_toNat h₀).2 hfree) (by omega)

theorem active_of_mem_iff (hbound : bound ≤ Ordinal.largest + 1)
    (hcount : replicas.toInt = Nat.count reserved.IsFree bound)
    (hmem : ∀ o, o ∈ members ↔ 0 ≤ o.toInt ∧ o ∉ reserved ∧ o.toInt < bound) :
    active replicas reserved = .ok members := by
  have hfits : Fits replicas reserved := by
    have hmono := Nat.count_monotone reserved.IsFree hbound
    exact ⟨by omega, by omega⟩
  obtain ⟨found, hfound⟩ := exists_active_iff.2 hfits
  have heq : found = members := by
    apply Std.ExtTreeSet.ext_mem
    intro o
    rw [mem_of_active_eq_ok hfound, hmem, hcount, Int.toNat_natCast]
    constructor
    · rintro ⟨h₀, hfree, hrank⟩
      exact ⟨h₀, hfree, (rank_lt_count_iff h₀ hfree).1 hrank⟩
    · rintro ⟨h₀, hfree, hlt⟩
      exact ⟨h₀, hfree, (rank_lt_count_iff h₀ hfree).2 hlt⟩
  rw [hfound, heq]

theorem size_diff_add_size_inter (members slots : OrdinalSet) :
    (members \ slots).size + (slots ∩ members).size = members.size := by
  have hinter : slots ∩ members = members ∩ slots := by
    apply Std.ExtTreeSet.ext_mem
    intro o
    rw [Std.ExtTreeSet.mem_inter_iff, Std.ExtTreeSet.mem_inter_iff, and_comm]
  rw [hinter]
  exact Std.ExtTreeSet.size_diff_add_size_inter_eq_size_left

/-- The members that are not reserved are active for as many replicas as there are free numbers left
below the boundary. -/
theorem exists_active_diff (h : active replicas reserved = .ok members) (slots : OrdinalSet) :
    ∃ left : Int32, active left (reserved ∪ slots) = .ok (members \ slots) := by
  have hfits := (active_eq_ok_iff.1 h).1
  have hcount := Resolution.count_boundary replicas.toInt.toNat reserved
  have hbound := hfits.boundary_le
  have hmem := fun o => mem_active_iff_lt_boundary (o := o) h
  generalize (Resolution.scan replicas.toInt.toNat reserved).boundary = bound at hcount hbound hmem
  have hle : Nat.count (reserved ∪ slots).IsFree bound ≤ Nat.count reserved.IsFree bound :=
    Nat.count_mono_left fun _ _ => reserved.isFree_mono fun o ho =>
      Std.ExtTreeSet.mem_union_iff.2 (Or.inl ho)
  have hlt := replicas.toInt_lt
  refine ⟨Int32.ofNat (Nat.count (reserved ∪ slots).IsFree bound), ?_⟩
  apply active_of_mem_iff hbound (Int32.toInt_ofNat_of_lt (by omega))
  intro o
  rw [Std.ExtTreeSet.mem_diff_iff, hmem, Std.ExtTreeSet.mem_union_iff, not_or]
  tauto

/-- Reserving slots, and as many replicas fewer as there are members among them, removes exactly
these members. -/
theorem active_union (h : active replicas reserved = .ok members) (slots : OrdinalSet) :
    let removed := (slots ∩ members).size
    (replicas - Int32.ofNat removed).toInt = replicas.toInt - removed ∧
      active (replicas - Int32.ofNat removed) (reserved ∪ slots) = .ok (members \ slots) := by
  intro removed
  have h₀ := (active_eq_ok_iff.1 h).1.1
  obtain ⟨left, hleft⟩ := exists_active_diff h slots
  have hleft₀ := (active_eq_ok_iff.1 hleft).1.1
  have hsize : left.toInt + removed = replicas.toInt := by
    have hsum := size_diff_add_size_inter members slots
    rw [size_active h, size_active hleft] at hsum
    omega
  have hremoved : (Int32.ofNat removed).toInt = removed := by
    have hlt := replicas.toInt_lt
    exact Int32.toInt_ofNat_of_lt (by omega)
  have heq : replicas - Int32.ofNat removed = left := by
    apply Int32.toInt_inj.1
    rw [Int32.toInt_sub_of_le, hremoved]
    · omega
    · rw [Int32.le_iff_toInt_le, hremoved]
      exact Int.natCast_nonneg removed
    · rw [Int32.le_iff_toInt_le, hremoved]
      omega
  rw [heq]
  exact ⟨by omega, hleft⟩

/-- A consumed reservation, two members, the next ordinal after the last one and a negative slot. -/
theorem active_union_mixed :
    active 4 (OrdinalSet.ofList [-3, 1, 2, 7]) = .ok (OrdinalSet.ofList [0, 3, 4, 5]) ∧
      active 2 (OrdinalSet.ofList [-3, 1, 2, 7] ∪ OrdinalSet.ofList [1, 3, 4, 6, -1]) =
        .ok (OrdinalSet.ofList [0, 5]) := by
  have h : active 4 (OrdinalSet.ofList [-3, 1, 2, 7]) = .ok (OrdinalSet.ofList [0, 3, 4, 5]) := by
    decide +kernel
  have hremoved : (OrdinalSet.ofList [1, 3, 4, 6, -1] ∩ OrdinalSet.ofList [0, 3, 4, 5]).size = 2 := by
    decide +kernel
  have hdiff : OrdinalSet.ofList [0, 3, 4, 5] \ OrdinalSet.ofList [1, 3, 4, 6, -1] =
      OrdinalSet.ofList [0, 5] := by decide +kernel
  have hunion := (active_union h (OrdinalSet.ofList [1, 3, 4, 6, -1])).2
  rw [hremoved, hdiff] at hunion
  exact ⟨h, hunion⟩

end StableOrdinals.Allocation
