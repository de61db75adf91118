import Std.Data.ExtTreeSet

/-!
# Ordinals

A member of a workload is known by its ordinal, a 32-bit integer. Members have ordinals from 0 up to
`Ordinal.largest`; a negative ordinal can be reserved but names no member.
-/

namespace StableOrdinals

abbrev Ordinal := Int32

/-- Sets of ordinals are equal when they have the same members. -/
abbrev OrdinalSet := Std.ExtTreeSet Ordinal

namespace Ordinal

/-- The largest ordinal a member can have. -/
def largest : Nat := 2147483647

def ofNat (n : Nat) : Ordinal := Int32.ofNat n

theorem toInt_ofNat {n : Nat} (h : n ≤ largest) : (ofNat n).toInt = n := by
  unfold largest at h
  exact Int32.toInt_ofNat_of_lt (by omega)

end Ordinal

namespace OrdinalSet

def ofList (ordinals : List Ordinal) : OrdinalSet := Std.ExtTreeSet.ofList ordinals

@[simp] theorem mem_ofList {ordinals : List Ordinal} {o : Ordinal} :
    o ∈ ofList ordinals ↔ o ∈ ordinals := by
  simp [ofList, Std.ExtTreeSet.mem_ofList]

end OrdinalSet

end StableOrdinals
