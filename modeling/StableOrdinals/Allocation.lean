import StableOrdinals.Ordinal
import StableOrdinals.Text.Decimal

/-!
# Allocation of ordinals

A workload with `replicas` members and a set of reserved ordinals has the members
`[0, boundary)` without `consumed`, where `consumed` holds the reservations below the boundary.
`Resolution.scan` finds both in one pass over the reservations in ascending order: each one below
the current boundary is consumed and pushes the boundary up by one.

`active` is the set of members, `maxActive` and `minActive` its ends, and `scaleOut` lists the
ordinals that a growing workload takes up, in order.
-/

namespace StableOrdinals

inductive ReplicaCount
  | replicas
  | current
  | target
  deriving DecidableEq, Repr

def ReplicaCount.name : ReplicaCount → Text
  | .replicas => "replicas"
  | .current => "current replicas"
  | .target => "target replicas"

inductive AllocationError
  | negative (count : ReplicaCount) (given : Int32)
  /-- The boundary lies beyond the largest ordinal. -/
  | beyondRange (replicas : Int32) (consumed : Nat)
  /-- Growth past `last` runs out of ordinals with `missing` still to be assigned. -/
  | exhausted (missing : Nat) (last : Option Ordinal)
  deriving DecidableEq, Repr

namespace AllocationError

def message : AllocationError → Text
  | .negative count given =>
    count.name ++ " must be non-negative, got " ++ Text.ofInt given.toInt
  | .beyondRange replicas consumed =>
    Text.ofInt replicas.toInt ++ " replicas with " ++ Text.ofNat consumed
      ++ " reserved slots exceed the ordinal range"
  | .exhausted missing last =>
    "cannot assign " ++ Text.ofNat missing ++ " more ordinals after "
      ++ Text.ofInt (last.elim (-1) (·.toInt)) ++ ": ordinal space exhausted"

end AllocationError

structure Resolution where
  boundary : Nat
  consumed : OrdinalSet

namespace Resolution

def start (replicas : Nat) : Resolution := ⟨replicas, ∅⟩

def absorb (r : Resolution) (slot : Ordinal) : Resolution :=
  if 0 ≤ slot.toInt ∧ slot.toInt < r.boundary then ⟨r.boundary + 1, r.consumed.insert slot⟩ else r

def scan (replicas : Nat) (reserved : OrdinalSet) : Resolution :=
  reserved.toList.foldl absorb (start replicas)

/-- The greatest ordinal below `bound` that is not in `taken`. -/
def highestFree (taken : OrdinalSet) : (bound : Nat) → Option Ordinal
  | 0 => none
  | bound + 1 =>
    if Ordinal.ofNat bound ∈ taken then highestFree taken bound else some (Ordinal.ofNat bound)

/-- The least of the `count` ordinals from `next` on that is not in `taken`. -/
def lowestFree (taken : OrdinalSet) : (next count : Nat) → Option Ordinal
  | _, 0 => none
  | next, count + 1 =>
    if Ordinal.ofNat next ∈ taken then lowestFree taken (next + 1) count
    else some (Ordinal.ofNat next)

def active (r : Resolution) : OrdinalSet :=
  OrdinalSet.ofList (((List.range r.boundary).map Ordinal.ofNat).filter (· ∉ r.consumed))

def maxActive (r : Resolution) : Option Ordinal := highestFree r.consumed r.boundary

def minActive (r : Resolution) : Option Ordinal := lowestFree r.consumed 0 r.boundary

@[simp] theorem absorb_of_lt {r : Resolution} {slot : Ordinal} (h₀ : 0 ≤ slot.toInt)
    (h : slot.toInt < r.boundary) :
    r.absorb slot = ⟨r.boundary + 1, r.consumed.insert slot⟩ := if_pos ⟨h₀, h⟩

theorem absorb_of_not {r : Resolution} {slot : Ordinal}
    (h : ¬ (0 ≤ slot.toInt ∧ slot.toInt < r.boundary)) : r.absorb slot = r := if_neg h

end Resolution

namespace Allocation

def resolve (replicas : Int32) (reserved : OrdinalSet) : Except AllocationError Resolution :=
  if replicas.toInt < 0 then .error (.negative .replicas replicas)
  else
    let r := Resolution.scan replicas.toInt.toNat reserved
    if Ordinal.largest + 1 < r.boundary then .error (.beyondRange replicas r.consumed.size)
    else .ok r

def active (replicas : Int32) (reserved : OrdinalSet) : Except AllocationError OrdinalSet :=
  (resolve replicas reserved).map Resolution.active

/-- No ordinal when there are no replicas. -/
def maxActive (replicas : Int32) (reserved : OrdinalSet) :
    Except AllocationError (Option Ordinal) :=
  (resolve replicas reserved).map Resolution.maxActive

def minActive (replicas : Int32) (reserved : OrdinalSet) :
    Except AllocationError (Option Ordinal) :=
  (resolve replicas reserved).map Resolution.minActive

/-- The first `wanted` ordinals outside `reserved` among the `room` ordinals from `next` on, or how
many of them are missing. -/
def takeFree (reserved : OrdinalSet) : (room next wanted : Nat) → Except Nat (List Ordinal)
  | _, _, 0 => .ok []
  | 0, _, wanted + 1 => .error (wanted + 1)
  | room + 1, next, wanted + 1 =>
    if Ordinal.ofNat next ∈ reserved then takeFree reserved room (next + 1) (wanted + 1)
    else (takeFree reserved room (next + 1) wanted).map (Ordinal.ofNat next :: ·)

/-- The number of the ordinal that follows `last`. -/
def following (last : Option Ordinal) : Nat := last.elim 0 fun o => o.toInt.toNat + 1

/-- New ordinals lie above every ordinal that is active at `current` replicas, and reservations are
skipped whether or not they lie below the boundary. -/
def scaleOut (current target : Int32) (reserved : OrdinalSet) :
    Except AllocationError (List Ordinal) :=
  if current.toInt < 0 then .error (.negative .current current)
  else if target.toInt < 0 then .error (.negative .target target)
  else if target.toInt ≤ current.toInt then .ok []
  else do
    let last ← maxActive current reserved
    let next := following last
    (takeFree reserved (Ordinal.largest + 1 - next) next
      (target.toInt - current.toInt).toNat).mapError (.exhausted · last)

end Allocation

end StableOrdinals
