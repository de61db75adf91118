import StableOrdinals.Proofs.Allocation.Boundary

/-!
# The members of an allocation

An ordinal is active exactly if it is free and fewer free numbers lie below it than there are
replicas: `Allocation.mem_of_active_eq_ok`. Everything else about the active set is read off this
one equivalence. `Allocation.active_eq_least_free` lists the set: its members are the first free
numbers in ascending order, one for each replica.
-/

namespace StableOrdinals

variable {reserved : OrdinalSet}

theorem Resolution.mem_active {r : Resolution} (h : r.boundary ≤ Ordinal.largest + 1)
    {o : Ordinal} :
    o ∈ r.active ↔ 0 ≤ o.toInt ∧ o.toInt < r.boundary ∧ o ∉ r.consumed := by
  simp only [Resolution.active, OrdinalSet.mem_ofList, List.mem_filter, List.mem_map,
    List.mem_range, decide_eq_true_eq]
  constructor
  · rintro ⟨⟨i, hi, rfl⟩, hfree⟩
    rw [Ordinal.toInt_ofNat (by omega)]
    exact ⟨by omega, by omega, hfree⟩
  · rintro ⟨h₀, hlt, hfree⟩
    refine ⟨⟨o.toInt.toNat, by omega, ?_⟩, hfree⟩
    apply Int32.toInt_inj.1
    rw [Ordinal.toInt_ofNat (by omega), Int.toNat_of_nonneg h₀]

namespace Allocation

variable {replicas : Int32} {members : OrdinalSet}

theorem Fits.boundary_le (h : Fits replicas reserved) :
    (Resolution.scan replicas.toInt.toNat reserved).boundary ≤ Ordinal.largest + 1 :=
  (Resolution.boundary_le_iff _ _ _).2 h.2

theorem active_eq_ok_iff : active replicas reserved = .ok members ↔
    Fits replicas reserved ∧
      members = (Resolution.scan replicas.toInt.toNat reserved).active := map_resolve_eq_ok_iff

theorem exists_active_iff : (∃ members, active replicas reserved = .ok members) ↔
    Fits replicas reserved := by
  simp only [active_eq_ok_iff, exists_and_left, exists_eq, and_true]

theorem mem_of_active_eq_ok (h : active replicas reserved = .ok members) {o : Ordinal} :
    o ∈ members ↔ 0 ≤ o.toInt ∧ o ∉ reserved ∧ reserved.rank o < replicas.toInt.toNat := by
  obtain ⟨hfits, rfl⟩ := active_eq_ok_iff.1 h
  rw [Resolution.mem_active hfits.boundary_le, Resolution.mem_consumed_scan, OrdinalSet.rank,
    ← Resolution.lt_boundary_iff]
  constructor
  · rintro ⟨h₀, hlt, hfree⟩
    exact ⟨h₀, fun ho => hfree ⟨ho, h₀, hlt⟩, by omega⟩
  · rintro ⟨h₀, hfree, hlt⟩
    exact ⟨h₀, by omega, fun ho => hfree ho.1⟩

theorem lt_of_not_mem_active (h : active replicas reserved = .ok members) {o p : Ordinal}
    (ho : o ∈ members) (h₀ : 0 ≤ p.toInt) (hfree : p ∉ reserved) (hp : p ∉ members) :
    o.toInt < p.toInt := by
  by_contra! hle
  have hrank := ((mem_of_active_eq_ok h).1 ho).2.2
  have := reserved.rank_le_rank hle
  exact hp ((mem_of_active_eq_ok h).2 ⟨h₀, hfree, by omega⟩)

theorem Fits.nth_le_largest (h : Fits replicas reserved) {k : ℕ} (hk : k < replicas.toInt.toNat) :
    Nat.nth reserved.IsFree k ≤ Ordinal.largest :=
  Nat.le_of_lt_succ (Nat.nth_lt_of_lt_count (hk.trans_le h.2))

theorem Fits.toInt_nth (h : Fits replicas reserved) {k : ℕ} (hk : k < replicas.toInt.toNat) :
    (Ordinal.ofNat (Nat.nth reserved.IsFree k)).toInt = Nat.nth reserved.IsFree k :=
  Ordinal.toInt_ofNat (h.nth_le_largest hk)

theorem Fits.rank_nth (h : Fits replicas reserved) {k : ℕ} (hk : k < replicas.toInt.toNat) :
    reserved.rank (Ordinal.ofNat (Nat.nth reserved.IsFree k)) = k := by
  rw [OrdinalSet.rank, h.toInt_nth hk, Int.toNat_natCast,
    Nat.count_nth_of_infinite reserved.infinite_isFree]

theorem nth_rank {o : Ordinal} (h₀ : 0 ≤ o.toInt) (hfree : o ∉ reserved) :
    Ordinal.ofNat (Nat.nth reserved.IsFree (reserved.rank o)) = o := by
  apply Int32.toInt_inj.1
  have := o.toInt_lt
  rw [OrdinalSet.rank, Nat.nth_count ((reserved.isFree_toNat h₀).2 hfree),
    Ordinal.toInt_ofNat (by unfold Ordinal.largest; omega), Int.toNat_of_nonneg h₀]

theorem Fits.pairwise_nth (h : Fits replicas reserved) {first count : ℕ}
    (hle : first + count ≤ replicas.toInt.toNat) :
    ((List.range' first count).map fun k =>
      Ordinal.ofNat (Nat.nth reserved.IsFree k)).Pairwise (fun o p => o.toInt < p.toInt) := by
  refine List.pairwise_map.2 (List.Pairwise.imp_of_mem ?_ List.pairwise_lt_range')
  intro j k hj hk hlt
  rw [List.mem_range'_1] at hj hk
  rw [h.toInt_nth (by omega), h.toInt_nth (by omega)]
  exact_mod_cast Nat.nth_strictMono reserved.infinite_isFree hlt

theorem Fits.mem_nth (h : Fits replicas reserved) {first count : ℕ}
    (hle : first + count ≤ replicas.toInt.toNat) {o : Ordinal} :
    o ∈ (List.range' first count).map (fun k => Ordinal.ofNat (Nat.nth reserved.IsFree k)) ↔
      0 ≤ o.toInt ∧ o ∉ reserved ∧ first ≤ reserved.rank o ∧ reserved.rank o < first + count := by
  simp only [List.mem_map, List.mem_range'_1]
  constructor
  · rintro ⟨k, hk, rfl⟩
    have hint := h.toInt_nth (k := k) (by omega)
    rw [h.rank_nth (by omega), ← reserved.isFree_iff (h.nth_le_largest (by omega))]
    exact ⟨by omega, Nat.nth_mem_of_infinite reserved.infinite_isFree k, hk⟩
  · rintro ⟨h₀, hfree, hk⟩
    exact ⟨reserved.rank o, hk, nth_rank h₀ hfree⟩

theorem toList_active (h : active replicas reserved = .ok members) :
    members.toList = (List.range' 0 replicas.toInt.toNat).map fun k =>
      Ordinal.ofNat (Nat.nth reserved.IsFree k) := by
  have hfits := (active_eq_ok_iff.1 h).1
  apply OrdinalSet.toList_eq (hfits.pairwise_nth (by omega))
  intro o
  rw [mem_of_active_eq_ok h, hfits.mem_nth (by omega)]
  simp

theorem size_active (h : active replicas reserved = .ok members) :
    members.size = replicas.toInt.toNat := by
  rw [← Std.ExtTreeSet.length_toList, toList_active h, List.length_map, List.length_range']

/-- The members are the least numbers that no reservation bears, one for each replica. -/
theorem active_eq_least_free (h : active replicas reserved = .ok members) :
    members.toList.map (·.toInt) =
        (List.range replicas.toInt.toNat).map (fun k => (Nat.nth reserved.IsFree k : ℤ)) ∧
      (members.size : ℤ) = replicas.toInt ∧
      (∀ o ∈ members, 0 ≤ o.toInt ∧ o ∉ reserved) ∧
      (∀ i : ℕ, reserved.IsFree i → ∀ o ∈ members, (i : ℤ) < o.toInt →
        ∃ p ∈ members, p.toInt = i) := by
  have hfits := (active_eq_ok_iff.1 h).1
  refine ⟨?_, ?_, ?_, ?_⟩
  · rw [toList_active h, List.map_map, List.range_eq_range']
    apply List.map_congr_left
    intro k hk
    rw [List.mem_range'_1] at hk
    exact hfits.toInt_nth (by omega)
  · rw [size_active h, Int.toNat_of_nonneg hfits.1]
  · intro o ho
    obtain ⟨h₀, hfree, _⟩ := (mem_of_active_eq_ok h).1 ho
    exact ⟨h₀, hfree⟩
  · intro i hi o ho hlt
    have hsmall : i ≤ Ordinal.largest := by
      have := o.toInt_lt
      unfold Ordinal.largest
      omega
    have hint := Ordinal.toInt_ofNat hsmall
    refine ⟨Ordinal.ofNat i, ?_, hint⟩
    obtain ⟨_, _, hrank⟩ := (mem_of_active_eq_ok h).1 ho
    have hle : reserved.rank (Ordinal.ofNat i) ≤ reserved.rank o :=
      reserved.rank_le_rank (by omega)
    rw [mem_of_active_eq_ok h, ← reserved.isFree_iff hsmall]
    exact ⟨by omega, hi, by omega⟩

/-- A chain of reservations at the boundary, a negative one and the largest ordinal. -/
theorem active_eq_least_free_chain :
    ∃ members, active 3 (OrdinalSet.ofList [-3, 1, 2, 3, 7, 2147483647]) = .ok members ∧
      members.toList = [0, 4, 5] ∧ (members.size : ℤ) = 3 := by
  have h : active 3 (OrdinalSet.ofList [-3, 1, 2, 3, 7, 2147483647]) =
      .ok (OrdinalSet.ofList [0, 4, 5]) := by decide +kernel
  exact ⟨_, h, by decide +kernel, (active_eq_least_free h).2.1⟩

end Allocation

end StableOrdinals
