import Mathlib.Data.List.DropRight
import StableOrdinals.Proofs.Allocation.ScaleOut

/-!
# Changing the replicas

The active ordinals of fewer replicas are the least ones of more replicas (`toList_active_of_le`).
So a workload that grows keeps its members, and `scaleOut` lists those that it takes up
(`scaleOut_of_active`). One that shrinks loses its greatest members (`diff_eq_greatest`).
-/

namespace StableOrdinals

def OrdinalSet.greatest (slots : OrdinalSet) (count : ℕ) : OrdinalSet :=
  ofList (slots.toList.rtake count)

namespace Allocation

variable {reserved : OrdinalSet}

section Order

variable {fewer more : Int32} {lesser greater : OrdinalSet}
  (hlesser : active fewer reserved = .ok lesser) (hgreater : active more reserved = .ok greater)
  (hle : fewer.toInt ≤ more.toInt)

include hlesser hgreater hle

theorem mem_active_of_le {o : Ordinal} (ho : o ∈ lesser) : o ∈ greater := by
  obtain ⟨h₀, hfree, hrank⟩ := (mem_of_active_eq_ok hlesser).1 ho
  exact (mem_of_active_eq_ok hgreater).2 ⟨h₀, hfree, by omega⟩

theorem toList_active_of_le : greater.toList = lesser.toList ++ (greater \ lesser).toList := by
  apply OrdinalSet.toList_eq_append
  · exact fun o => mem_active_of_le hlesser hgreater hle
  · intro o ho p hp hnot
    obtain ⟨h₀, hfree, _⟩ := (mem_of_active_eq_ok hgreater).1 hp
    exact lt_of_not_mem_active hlesser ho h₀ hfree hnot

theorem diff_active_of_le : lesser \ greater = ∅ := by
  apply Std.ExtTreeSet.eq_empty_iff_forall_not_mem.2
  intro o ho
  obtain ⟨hlow, hnot⟩ := Std.ExtTreeSet.mem_diff_iff.1 ho
  exact hnot (mem_active_of_le hlesser hgreater hle hlow)

theorem length_toList_diff :
    (greater \ lesser).toList.length = (more.toInt - fewer.toInt).toNat := by
  have hfewer := (active_eq_ok_iff.1 hlesser).1.1
  have hlength := congrArg List.length (toList_active_of_le hlesser hgreater hle)
  rw [List.length_append, Std.ExtTreeSet.length_toList, Std.ExtTreeSet.length_toList,
    size_active hlesser, size_active hgreater] at hlength
  omega

theorem diff_eq_greatest :
    greater \ lesser = greater.greatest (more.toInt - fewer.toInt).toNat := by
  have hlist := toList_active_of_le hlesser hgreater hle
  have hrtake : greater.toList.rtake (more.toInt - fewer.toInt).toNat =
      (greater \ lesser).toList := by
    rw [List.rtake, hlist, List.length_append, ← length_toList_diff hlesser hgreater hle,
      Nat.add_sub_cancel, List.drop_left]
  apply Std.ExtTreeSet.ext_mem
  intro o
  rw [OrdinalSet.greatest, OrdinalSet.mem_ofList, hrtake, Std.ExtTreeSet.mem_toList]

end Order

/-- Nobody is taken up unless there are more replicas than before. -/
theorem scaleOut_of_active {current target : Int32} {before after : OrdinalSet}
    (hbefore : active current reserved = .ok before) (hafter : active target reserved = .ok after) :
    scaleOut current target reserved =
      .ok (if current.toInt < target.toInt then (after \ before).toList else []) := by
  have h₀ := (active_eq_ok_iff.1 hbefore).1.1
  have hfits := (active_eq_ok_iff.1 hafter).1
  by_cases hlt : current.toInt < target.toInt
  · have hlist := toList_active_of_le hbefore hafter hlt.le
    have hsum : current.toInt.toNat + (target.toInt - current.toInt).toNat = target.toInt.toNat := by
      omega
    have hrange := List.range'_append_1 (s := 0) (m := current.toInt.toNat)
      (n := (target.toInt - current.toInt).toNat)
    rw [Nat.zero_add, hsum] at hrange
    rw [if_pos hlt, scaleOut_eq_ok_iff h₀ hlt]
    refine ⟨hfits, ?_⟩
    rw [toList_active hbefore, toList_active hafter, ← hrange, List.map_append] at hlist
    exact (List.append_cancel_left hlist).symm
  · have htarget := hfits.1
    rw [if_neg hlt, scaleOut, if_neg (by omega), if_neg (by omega), if_pos (by omega)]

theorem exists_scaleOut {current target : Int32} (hcurrent : Fits current reserved)
    (htarget : Fits target reserved) :
    ∃ ordinals, scaleOut current target reserved = .ok ordinals := by
  obtain ⟨before, hbefore⟩ := exists_active_iff.2 hcurrent
  obtain ⟨after, hafter⟩ := exists_active_iff.2 htarget
  exact ⟨_, scaleOut_of_active hbefore hafter⟩

end Allocation

end StableOrdinals
