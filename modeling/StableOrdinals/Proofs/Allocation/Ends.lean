import StableOrdinals.Proofs.Allocation.Removal
import StableOrdinals.Proofs.Allocation.ScaleOut

/-!
# The ends of an allocation

The greatest and the least active ordinal are found by walks that do not build the set. The walk
down starts at the boundary and ends at its first step, and the walk up passes nothing but consumed
reservations until it comes to the least free number, which lies below the boundary. So they answer
with the ends of the active set: `Allocation.ends_of_resolve`.
-/

namespace StableOrdinals

variable {reserved taken : OrdinalSet}

theorem Resolution.lowestFree_eq {next count m : ℕ} (hle : next ≤ m) (hlt : m < next + count)
    (hm : Ordinal.ofNat m ∉ taken) (htaken : ∀ i, next ≤ i → i < m → Ordinal.ofNat i ∈ taken) :
    lowestFree taken next count = some (Ordinal.ofNat m) := by
  induction count generalizing next with
  | zero => omega
  | succ count ih =>
    rw [lowestFree]
    by_cases hnext : Ordinal.ofNat next ∈ taken
    · have hne : next ≠ m := by
        rintro rfl
        exact hm hnext
      rw [if_pos hnext]
      exact ih (by omega) (by omega) fun i hi => htaken i (by omega)
    · have heq : next = m := by
        by_contra hne
        exact hnext (htaken next le_rfl (by omega))
      rw [if_neg hnext, heq]

theorem OrdinalSet.isLeast_nth (reserved : OrdinalSet) :
    IsLeast {i : ℕ | reserved.IsFree i} (Nat.nth reserved.IsFree 0) := by
  constructor
  · exact Nat.nth_mem_of_infinite reserved.infinite_isFree 0
  · intro i hi
    have hfree : reserved.IsFree i := hi
    have hmono := (Nat.nth_strictMono reserved.infinite_isFree).monotone
      (Nat.zero_le (Nat.count reserved.IsFree i))
    rwa [Nat.nth_count hfree] at hmono

theorem Resolution.nth_lt_boundary {replicas : ℕ} (hpos : 0 < replicas) (reserved : OrdinalSet) :
    Nat.nth reserved.IsFree 0 < (scan replicas reserved).boundary := by
  rw [lt_boundary_iff, Nat.count_nth_of_infinite reserved.infinite_isFree]
  exact hpos

theorem Resolution.minActive_scan {replicas : ℕ} (hpos : 0 < replicas)
    (h : (scan replicas reserved).boundary ≤ Ordinal.largest + 1) :
    (scan replicas reserved).minActive =
      some (Ordinal.ofNat (Nat.nth reserved.IsFree 0)) := by
  have hlt := nth_lt_boundary hpos reserved
  obtain ⟨hfree, hleast⟩ := reserved.isLeast_nth
  apply lowestFree_eq (Nat.zero_le _) (by omega)
  · intro hmem
    exact (reserved.isFree_iff (by omega)).1 hfree ((mem_consumed_scan replicas reserved _).1 hmem).1
  · intro i _ hi
    have hint : (Ordinal.ofNat i).toInt = i := Ordinal.toInt_ofNat (by omega)
    have hreserved : Ordinal.ofNat i ∈ reserved := by
      by_contra hnot
      have := hleast ((reserved.isFree_iff (by omega)).2 hnot)
      omega
    exact (mem_consumed_scan replicas reserved _).2 ⟨hreserved, by omega, by omega⟩

namespace Allocation

variable {replicas : Int32} {members : OrdinalSet}

theorem minActive_eq_ok_iff {first : Option Ordinal} :
    minActive replicas reserved = .ok first ↔ Fits replicas reserved ∧
      first = (Resolution.scan replicas.toInt.toNat reserved).minActive := map_resolve_eq_ok_iff

section Ends

variable (h : active replicas reserved = .ok members) (hpos : 0 < replicas.toInt)

include h hpos

/-- All members lie below the boundary, and the last number there is free. -/
theorem exists_greatest : ∃ last, maxActive replicas reserved = .ok (some last) ∧
    last.toInt = ((Resolution.scan replicas.toInt.toNat reserved).boundary : ℤ) - 1 ∧
    last ∈ members ∧ ∀ o ∈ members, o.toInt ≤ last.toInt := by
  have hfits := (active_eq_ok_iff.1 h).1
  have hbound := hfits.boundary_le
  have hlt := Resolution.nth_lt_boundary (show 0 < replicas.toInt.toNat by omega) reserved
  have hmax := Resolution.maxActive_scan (by omega) hbound
  have hfree := Resolution.isFree_pred_boundary replicas.toInt.toNat reserved (by omega)
  have hmem (o : Ordinal) := mem_active_iff_lt_boundary (o := o) h
  generalize hb : (Resolution.scan replicas.toInt.toNat reserved).boundary = b at *
  have hint : (Ordinal.ofNat (b - 1)).toInt = (b - 1 : ℕ) := Ordinal.toInt_ofNat (by omega)
  refine ⟨Ordinal.ofNat (b - 1), maxActive_eq_ok_iff.2 ⟨hfits, hmax.symm⟩, by omega, ?_, ?_⟩
  · exact (hmem _).2 ⟨by omega, (reserved.isFree_iff (by omega)).1 hfree, by omega⟩
  · intro o ho
    have := ((hmem o).1 ho).2.2
    omega

/-- All members are free numbers, and the least free number lies below the boundary. -/
theorem exists_least : ∃ first, minActive replicas reserved = .ok (some first) ∧
    IsLeast {i : ℤ | 0 ≤ i ∧ ∀ o ∈ reserved, o.toInt ≠ i} first.toInt ∧
    first ∈ members ∧ ∀ o ∈ members, first.toInt ≤ o.toInt := by
  have hfits := (active_eq_ok_iff.1 h).1
  have hbound := hfits.boundary_le
  have hreplicas : 0 < replicas.toInt.toNat := by omega
  have hlt := Resolution.nth_lt_boundary hreplicas reserved
  have hmin := Resolution.minActive_scan hreplicas hbound
  have hmem (o : Ordinal) := mem_active_iff_lt_boundary (o := o) h
  have hint := hfits.toInt_nth hreplicas
  obtain ⟨hfree, hleast⟩ := reserved.isLeast_nth
  generalize hm : Nat.nth reserved.IsFree 0 = m at *
  have hleast' (i : ℤ) (h₀ : 0 ≤ i) (hi : ∀ o ∈ reserved, o.toInt ≠ i) : (m : ℤ) ≤ i := by
    have hnat : reserved.IsFree i.toNat := fun o ho => by
      rw [Int.toNat_of_nonneg h₀]
      exact hi o ho
    have := hleast hnat
    omega
  refine ⟨Ordinal.ofNat m, minActive_eq_ok_iff.2 ⟨hfits, hmin.symm⟩, ⟨?_, ?_⟩, ?_, ?_⟩
  · rw [hint]
    exact ⟨by omega, hfree⟩
  · rintro i ⟨h₀, hi⟩
    rw [hint]
    exact hleast' i h₀ hi
  · exact (hmem _).2 ⟨by omega, (reserved.isFree_iff (by omega)).1 hfree, by omega⟩
  · intro o ho
    obtain ⟨h₀, hnot, _⟩ := (hmem o).1 ho
    rw [hint]
    apply hleast' o.toInt h₀
    intro p hp heq
    exact hnot (Int32.toInt_inj.1 heq ▸ hp)

end Ends

/-- Without replicas there are no ends. Otherwise the last number below the boundary is the greatest
active ordinal, and the least number that is not reserved is the least one. -/
theorem ends_of_resolve {r : Resolution} (h : resolve replicas reserved = .ok r) :
    (replicas.toInt = 0 →
        maxActive replicas reserved = .ok none ∧ minActive replicas reserved = .ok none) ∧
      (0 < replicas.toInt → ∃ members last first, active replicas reserved = .ok members ∧
        maxActive replicas reserved = .ok (some last) ∧ last.toInt = (r.boundary : ℤ) - 1 ∧
        last ∈ members ∧ (∀ o ∈ members, o.toInt ≤ last.toInt) ∧
        minActive replicas reserved = .ok (some first) ∧
        IsLeast {i : ℤ | 0 ≤ i ∧ ∀ o ∈ reserved, o.toInt ≠ i} first.toInt ∧
        first ∈ members ∧ ∀ o ∈ members, first.toInt ≤ o.toInt) := by
  obtain ⟨hfits, rfl⟩ := resolve_eq_ok_iff.1 h
  constructor
  · intro hzero
    have hboundary : (Resolution.scan replicas.toInt.toNat reserved).boundary = 0 := by
      have := (Resolution.boundary_le_iff replicas.toInt.toNat reserved 0).2 (by omega)
      omega
    rw [maxActive_eq_ok_iff.2 ⟨hfits, rfl⟩, minActive_eq_ok_iff.2 ⟨hfits, rfl⟩,
      Resolution.maxActive, Resolution.minActive, hboundary]
    exact ⟨rfl, rfl⟩
  · intro hpos
    obtain ⟨members, hmembers⟩ := exists_active_iff.2 hfits
    obtain ⟨last, hmax, hlast, hgreatest⟩ := exists_greatest hmembers hpos
    obtain ⟨first, hmin, hfirst, hleast⟩ := exists_least hmembers hpos
    exact ⟨members, last, first, hmembers, hmax, hlast, hgreatest.1, hgreatest.2, hmin, hfirst, hleast⟩

/-- Reservations stand at zero, in a row after it and at the boundary. -/
theorem ends_of_resolve_row :
    let reserved := OrdinalSet.ofList [-3, 0, 1, 3, 5, 7, 9]
    ∃ r members last first, resolve 3 reserved = .ok r ∧ r.boundary = 7 ∧
      active 3 reserved = .ok members ∧ maxActive 3 reserved = .ok (some last) ∧ last.toInt = 6 ∧
      last ∈ members ∧ minActive 3 reserved = .ok (some first) ∧ first ∈ members := by
  intro reserved
  have hboundary : (resolve 3 reserved).map Resolution.boundary = .ok 7 := by decide +kernel
  obtain ⟨r, h, hr⟩ := map_eq_ok_iff.1 hboundary
  obtain ⟨members, last, first, hmembers, hmax, hlast, hgreatest, _, hmin, _, hleast, _⟩ :=
    (ends_of_resolve h).2 (by decide)
  rw [hr] at hlast
  exact ⟨r, members, last, first, h, hr, hmembers, hmax, hlast, hgreatest, hmin, hleast⟩

end Allocation

end StableOrdinals
