import StableOrdinals.Proofs.Allocation.Members

/-!
# Releasing reservations

When slots are released, the members that have been there and the slots that a member can have now
compete for the same number of places, and the least of them win. So nobody else comes in, and only
the greatest members have to go: `Allocation.release_evicts_greatest`.
-/

namespace StableOrdinals.Allocation

/-- Reserved slots that a member can have once they are released. -/
def released (reserved slots : OrdinalSet) : OrdinalSet :=
  OrdinalSet.ofList (reserved.toList.filter fun o => 0 ≤ o.toInt ∧ o ∈ slots)

theorem mem_released {reserved slots : OrdinalSet} {o : Ordinal} :
    o ∈ released reserved slots ↔ o ∈ reserved ∧ 0 ≤ o.toInt ∧ o ∈ slots := by
  rw [released, OrdinalSet.mem_ofList, List.mem_filter, Std.ExtTreeSet.mem_toList, decide_eq_true_eq]

variable {replicas : Int32} {reserved members after : OrdinalSet} {slots : OrdinalSet} {o p : Ordinal}

section Released

variable (h : active replicas reserved = .ok members)
  (hafter : active replicas (reserved \ slots) = .ok after)

include h hafter

theorem mem_of_mem_active_diff (ho : o ∈ after) : o ∈ members ∪ released reserved slots := by
  obtain ⟨h₀, hnot, hrank⟩ := (mem_of_active_eq_ok hafter).1 ho
  rw [Std.ExtTreeSet.mem_union_iff, mem_released, mem_of_active_eq_ok h]
  by_cases hreserved : o ∈ reserved
  · have hslot : o ∈ slots := by
      by_contra hslot
      exact hnot (Std.ExtTreeSet.mem_diff_iff.2 ⟨hreserved, hslot⟩)
    exact Or.inr ⟨hreserved, h₀, hslot⟩
  · have hle : reserved.rank o ≤ (reserved \ slots).rank o :=
      (reserved \ slots).rank_anti (fun p hp => (Std.ExtTreeSet.mem_diff_iff.1 hp).1) o
    exact Or.inl ⟨h₀, hreserved, by omega⟩

theorem lt_of_not_mem_active_diff (ho : o ∈ after) (hp : p ∈ members ∪ released reserved slots)
    (hnot : p ∉ after) : o.toInt < p.toInt := by
  have hfree : 0 ≤ p.toInt ∧ p ∉ reserved \ slots := by
    rw [Std.ExtTreeSet.mem_diff_iff]
    rcases Std.ExtTreeSet.mem_union_iff.1 hp with hmember | hreleased
    · obtain ⟨h₀, hfree, _⟩ := (mem_of_active_eq_ok h).1 hmember
      exact ⟨h₀, fun hdiff => hfree hdiff.1⟩
    · obtain ⟨_, h₀, hslot⟩ := mem_released.1 hreleased
      exact ⟨h₀, fun hdiff => hdiff.2 hslot⟩
  exact lt_of_not_mem_active hafter ho hfree.1 hfree.2 hnot

end Released

/-- After slots have been released, the members are the least of those that were there and of the
released slots, as many as there are replicas. Whoever has come in has a released slot, and whoever
has gone had a greater ordinal than all who are there now. -/
theorem release_evicts_greatest (h : active replicas reserved = .ok members) (slots : OrdinalSet) :
    ∃ after, active replicas (reserved \ slots) = .ok after ∧
      after.toList = (members ∪ released reserved slots).toList.take replicas.toInt.toNat ∧
      (∀ o ∈ after, o ∉ members → o ∈ released reserved slots) ∧
      ∀ o ∈ members, o ∉ after → ∀ p ∈ after, p.toInt < o.toInt := by
  have hfits := (active_eq_ok_iff.1 h).1
  have hfits' : Fits replicas (reserved \ slots) :=
    hfits.anti hfits.1 le_rfl fun o ho => (Std.ExtTreeSet.mem_diff_iff.1 ho).1
  obtain ⟨after, hafter⟩ := exists_active_iff.2 hfits'
  refine ⟨after, hafter, ?_, ?_, ?_⟩
  · have hsplit := OrdinalSet.toList_eq_append (fun o => mem_of_mem_active_diff h hafter)
      fun o ho p => lt_of_not_mem_active_diff h hafter ho
    rw [hsplit, ← size_active hafter, ← Std.ExtTreeSet.length_toList, List.take_left]
  · intro o ho hnew
    exact (Std.ExtTreeSet.mem_union_iff.1 (mem_of_mem_active_diff h hafter ho)).resolve_left hnew
  · intro o ho hgone p hp
    exact lt_of_not_mem_active_diff h hafter hp (Std.ExtTreeSet.mem_union_iff.2 (Or.inl ho)) hgone

/-- A consumed slot, a latent one, a negative one and one that was not reserved. -/
theorem release_evicts_greatest_mixed :
    let reserved := OrdinalSet.ofList [-3, 1, 2, 7]
    let slots := OrdinalSet.ofList [-3, 2, 7, 9]
    active 4 reserved = .ok (OrdinalSet.ofList [0, 3, 4, 5]) ∧
      ∃ after, active 4 (reserved \ slots) = .ok after ∧ after.toList = [0, 2, 3, 4] := by
  intro reserved slots
  have h : active 4 reserved = .ok (OrdinalSet.ofList [0, 3, 4, 5]) := by decide +kernel
  obtain ⟨after, hafter, hlist, _⟩ := release_evicts_greatest h slots
  have htake : (OrdinalSet.ofList [0, 3, 4, 5] ∪ released reserved slots).toList.take
      (4 : Int32).toInt.toNat = [0, 2, 3, 4] := by decide +kernel
  exact ⟨h, after, hafter, hlist.trans htake⟩

end StableOrdinals.Allocation
