import Mathlib.Data.Int.Interval
import StableOrdinals.Proofs.Allocation.ScaleOut

/-!
# Allocation in machine words

Replicas and ordinals are signed words of 32 bits, and a machine that looks for ordinals counts in
signed words of 64 bits. The definitions of the library count without bounds. Here they stand once
more as the machine has them, with every sum, every difference and every step to a shorter word
checked: where a number does not fit, there is no result (`int64?`, `Text.int32?`).

There always is a result, and it is the one found without bounds: `resolve?_eq`, `active?_eq`,
`maxActive?_eq`, `minActive?_eq` and `scaleOut?_eq`. The boundary starts at a 32-bit number and
grows at most once for each reservation, of which there are at most `2 ^ 32`; once it is known to
lie in range, so does every number that is made an ordinal.
-/

namespace StableOrdinals.Words

open StableOrdinals.Text (int32?)

/-- The number, provided that a signed word of 64 bits holds it. -/
def int64? (i : ℤ) : Option ℤ := if -2 ^ 63 ≤ i ∧ i < 2 ^ 63 then some i else none

def absorb? (r : Resolution) (slot : Ordinal) : Option Resolution :=
  if 0 ≤ slot.toInt ∧ slot.toInt < r.boundary then
    (int64? (r.boundary + 1)).map fun boundary => ⟨boundary.toNat, r.consumed.insert slot⟩
  else some r

def resolve? (replicas : Int32) (reserved : OrdinalSet) :
    Option (Except AllocationError Resolution) :=
  if replicas.toInt < 0 then some (.error (.negative .replicas replicas))
  else do
    let r ← reserved.toList.foldlM absorb? (Resolution.start replicas.toInt.toNat)
    let last ← int64? (r.boundary - 1)
    if Ordinal.largest < last then some (.error (.beyondRange replicas r.consumed.size))
    else some (.ok r)

def collect? (taken : OrdinalSet) : (left : ℕ) → (i : ℤ) → Option (List Ordinal)
  | 0, _ => some []
  | left + 1, i => do
    let o ← int32? i
    let next ← int64? (i + 1)
    let ordinals ← collect? taken left next
    some (if o ∈ taken then ordinals else o :: ordinals)

def firstFree? (taken : OrdinalSet) (step : ℤ) : (left : ℕ) → (i : ℤ) → Option (Option Ordinal)
  | 0, _ => some none
  | left + 1, i => do
    let o ← int32? i
    if o ∈ taken then
      let next ← int64? (i + step)
      firstFree? taken step left next
    else some (some o)

/-- What a function finds in the resolution, if there is one. -/
def find? {α : Type} (f : Resolution → Option α) (replicas : Int32) (reserved : OrdinalSet) :
    Option (Except AllocationError α) := do
  match ← resolve? replicas reserved with
  | .error e => some (.error e)
  | .ok r => (f r).map .ok

def active? : Int32 → OrdinalSet → Option (Except AllocationError OrdinalSet) :=
  find? fun r => (collect? r.consumed r.boundary 0).map OrdinalSet.ofList

def maxActive? : Int32 → OrdinalSet → Option (Except AllocationError (Option Ordinal)) :=
  find? fun r => do
    let last ← int64? (r.boundary - 1)
    firstFree? r.consumed (-1) r.boundary last

def minActive? : Int32 → OrdinalSet → Option (Except AllocationError (Option Ordinal)) :=
  find? fun r => firstFree? r.consumed 1 r.boundary 0

def takeFree? (reserved : OrdinalSet) :
    (room : ℕ) → (next : ℤ) → (wanted : ℕ) → Option (Except ℕ (List Ordinal))
  | _, _, 0 => some (.ok [])
  | 0, _, wanted + 1 => some (.error (wanted + 1))
  | room + 1, next, wanted + 1 => do
    let o ← int32? next
    let following ← int64? (next + 1)
    if o ∈ reserved then takeFree? reserved room following (wanted + 1)
    else (takeFree? reserved room following wanted).map (·.map (o :: ·))

def following? (last : Option Ordinal) : Option ℤ :=
  last.elim (some 0) fun o => int64? (o.toInt + 1)

def scaleOut? (current target : Int32) (reserved : OrdinalSet) :
    Option (Except AllocationError (List Ordinal)) :=
  if current.toInt < 0 then some (.error (.negative .current current))
  else if target.toInt < 0 then some (.error (.negative .target target))
  else if target.toInt ≤ current.toInt then some (.ok [])
  else do
    let wanted ← int32? (target.toInt - current.toInt)
    match ← maxActive? current reserved with
    | .error e => some (.error e)
    | .ok last =>
      let next ← following? last
      let ordinals ← takeFree? reserved (Ordinal.largest + 1 - next).toNat next wanted.toInt.toNat
      some (ordinals.mapError (.exhausted · last))

theorem int64?_eq {i : ℤ} (h₁ : -2 ^ 63 ≤ i) (h₂ : i < 2 ^ 63) : int64? i = some i :=
  if_pos ⟨h₁, h₂⟩

theorem int64?_of_le {i : ℤ} (h₁ : -1 ≤ i) (h₂ : i ≤ Ordinal.largest + 1) : int64? i = some i := by
  unfold Ordinal.largest at h₂
  exact int64?_eq (by omega) (by omega)

theorem int32?_ofNat {i : ℕ} (h : i ≤ Ordinal.largest) : int32? i = some (Ordinal.ofNat i) := by
  unfold Ordinal.largest at h
  rw [int32?, if_pos (by omega), Int32.ofInt_eq_ofNat]
  rfl

variable {replicas current target : Int32} {reserved taken : OrdinalSet} {r : Resolution}

section Resolve

theorem absorb?_eq {slot : Ordinal} (h : r.boundary + 1 < 2 ^ 63) :
    absorb? r slot = some (r.absorb slot) := by
  unfold absorb? Resolution.absorb
  split_ifs
  · rw [int64?_eq (by omega) (by omega)]
    rfl
  · rfl

theorem boundary_absorb_le (r : Resolution) (slot : Ordinal) :
    (r.absorb slot).boundary ≤ r.boundary + 1 := by
  unfold Resolution.absorb
  split_ifs
  · exact le_rfl
  · exact Nat.le_succ r.boundary

/-- In each step the boundary grows by one at most, and it has grown by one at most for each slot
before, so that all boundaries on the way fit if this last bound does. -/
theorem foldlM_absorb?_eq (slots : List Ordinal) (h : r.boundary + slots.length < 2 ^ 63) :
    slots.foldlM absorb? r = some (slots.foldl Resolution.absorb r) ∧
      (slots.foldl Resolution.absorb r).boundary ≤ r.boundary + slots.length := by
  induction slots generalizing r with
  | nil => exact ⟨rfl, le_rfl⟩
  | cons slot slots ih =>
    rw [List.length_cons] at h
    have hstep := boundary_absorb_le r slot
    obtain ⟨hrest, hle⟩ := ih (r := r.absorb slot) (by omega)
    rw [List.foldlM_cons, absorb?_eq (by omega), Option.bind_eq_bind, Option.bind_some,
      List.foldl_cons, List.length_cons]
    exact ⟨hrest, by omega⟩

theorem length_toList_le (slots : OrdinalSet) : slots.toList.length ≤ 2 ^ 32 := by
  let numbers := slots.toList.map fun o => o.toInt
  have hnodup : numbers.Nodup := by
    refine List.pairwise_map.2 (slots.pairwise_toList.imp ?_)
    intro o p hlt
    exact hlt.ne
  have hsub : numbers.toFinset ⊆ Finset.Ico (-2 ^ 31) (2 ^ 31) := by
    intro i hi
    obtain ⟨o, _, rfl⟩ := List.mem_map.1 (List.mem_toFinset.1 hi)
    have h₁ := o.le_toInt
    have h₂ := o.toInt_lt
    exact Finset.mem_Ico.2 ⟨h₁, h₂⟩
  have hcard := Finset.card_le_card hsub
  rw [List.toFinset_card_of_nodup hnodup, List.length_map, Int.card_Ico] at hcard
  omega

theorem resolve?_eq (replicas : Int32) (reserved : OrdinalSet) :
    resolve? replicas reserved = some (Allocation.resolve replicas reserved) := by
  unfold resolve? Allocation.resolve
  by_cases hneg : replicas.toInt < 0
  · rw [if_pos hneg, if_pos hneg]
  · have hlength := length_toList_le reserved
    have hreplicas := replicas.toInt_lt
    have hstart : (Resolution.start replicas.toInt.toNat).boundary = replicas.toInt.toNat := rfl
    obtain ⟨hscan, hle⟩ := foldlM_absorb?_eq (r := Resolution.start replicas.toInt.toNat)
      reserved.toList (by omega)
    change (Resolution.scan replicas.toInt.toNat reserved).boundary ≤ _ at hle
    rw [if_neg hneg, if_neg hneg, hscan, Option.bind_eq_bind, Option.bind_some]
    change (int64? ((Resolution.scan replicas.toInt.toNat reserved).boundary - 1)).bind _ = _
    rw [int64?_eq (by omega) (by omega), Option.bind_some]
    by_cases hbeyond :
        Ordinal.largest + 1 < (Resolution.scan replicas.toInt.toNat reserved).boundary
    · rw [if_pos (by omega), if_pos hbeyond]
      rfl
    · rw [if_neg (by omega), if_neg hbeyond]
      rfl

end Resolve

/-- A function that finds in words what another one finds without bounds, in every resolution that
stays in range, does so in the resolution of any replicas. -/
theorem find?_eq {α : Type} {f : Resolution → Option α} {g : Resolution → α}
    (h : ∀ r : Resolution, r.boundary ≤ Ordinal.largest + 1 → f r = some (g r))
    (replicas : Int32) (reserved : OrdinalSet) :
    find? f replicas reserved = some ((Allocation.resolve replicas reserved).map g) := by
  unfold find?
  rw [resolve?_eq, Option.bind_eq_bind, Option.bind_some]
  cases hresolve : Allocation.resolve replicas reserved with
  | error e => rfl
  | ok r =>
    obtain ⟨hfits, rfl⟩ := Allocation.resolve_eq_ok_iff.1 hresolve
    change (f _).map Except.ok = _
    rw [h _ hfits.boundary_le]
    rfl

theorem collect?_eq {left i : ℕ} (h : i + left ≤ Ordinal.largest + 1) :
    collect? taken left i =
      some (((List.range' i left).map Ordinal.ofNat).filter (· ∉ taken)) := by
  induction left generalizing i with
  | zero => rfl
  | succ left ih =>
    have hrest := ih (i := i + 1) (by omega)
    rw [Nat.cast_succ] at hrest
    rw [collect?, int32?_ofNat (by omega), Option.bind_eq_bind, Option.bind_some,
      int64?_of_le (by omega) (by omega), Option.bind_eq_bind, Option.bind_some, hrest,
      Option.bind_eq_bind, Option.bind_some, List.range'_succ, List.map_cons]
    by_cases ho : Ordinal.ofNat i ∈ taken
    · rw [if_pos ho, List.filter_cons_of_neg (by simpa using ho)]
    · rw [if_neg ho, List.filter_cons_of_pos (by simpa using ho)]

theorem active?_eq (replicas : Int32) (reserved : OrdinalSet) :
    active? replicas reserved = some (Allocation.active replicas reserved) := by
  refine find?_eq ?_ replicas reserved
  intro r hr
  have hcollect : collect? r.consumed r.boundary (0 : ℕ) = _ := collect?_eq (by omega)
  rw [Nat.cast_zero] at hcollect
  rw [hcollect, ← List.range_eq_range', Option.map_some, Resolution.active]

theorem firstFree?_down {left : ℕ} (h : left ≤ Ordinal.largest + 1) :
    firstFree? taken (-1) left (left - 1) = some (Resolution.highestFree taken left) := by
  induction left with
  | zero => rfl
  | succ left ih =>
    have hi : ((left + 1 : ℕ) : ℤ) - 1 = left := by omega
    rw [hi, firstFree?, int32?_ofNat (by omega), Option.bind_eq_bind, Option.bind_some,
      Resolution.highestFree]
    by_cases ho : Ordinal.ofNat left ∈ taken
    · rw [if_pos ho, if_pos ho, int64?_of_le (by omega) (by omega), Option.bind_eq_bind,
        Option.bind_some]
      exact ih (by omega)
    · rw [if_neg ho, if_neg ho]

theorem firstFree?_up {left i : ℕ} (h : i + left ≤ Ordinal.largest + 1) :
    firstFree? taken 1 left i = some (Resolution.lowestFree taken i left) := by
  induction left generalizing i with
  | zero => rfl
  | succ left ih =>
    rw [firstFree?, int32?_ofNat (by omega), Option.bind_eq_bind, Option.bind_some,
      Resolution.lowestFree]
    by_cases ho : Ordinal.ofNat i ∈ taken
    · rw [if_pos ho, if_pos ho, int64?_of_le (by omega) (by omega), Option.bind_eq_bind,
        Option.bind_some]
      exact ih (i := i + 1) (by omega)
    · rw [if_neg ho, if_neg ho]

theorem maxActive?_eq (replicas : Int32) (reserved : OrdinalSet) :
    maxActive? replicas reserved = some (Allocation.maxActive replicas reserved) := by
  refine find?_eq ?_ replicas reserved
  intro r hr
  rw [int64?_of_le (by omega) (by omega), Option.bind_eq_bind, Option.bind_some]
  exact firstFree?_down hr

theorem minActive?_eq (replicas : Int32) (reserved : OrdinalSet) :
    minActive? replicas reserved = some (Allocation.minActive replicas reserved) := by
  refine find?_eq ?_ replicas reserved
  intro r hr
  exact firstFree?_up (i := 0) (by omega)

theorem takeFree?_eq {room next wanted : ℕ} (h : next + room ≤ Ordinal.largest + 1) :
    takeFree? reserved room next wanted = some (Allocation.takeFree reserved room next wanted) := by
  induction room, next, wanted using Allocation.takeFree.induct reserved with
  | case1 room next => rw [takeFree?, Allocation.takeFree]
  | case2 next wanted => rw [takeFree?, Allocation.takeFree]
  | case3 room next wanted ho ih =>
    rw [takeFree?, int32?_ofNat (by omega), Option.bind_eq_bind, Option.bind_some,
      int64?_of_le (by omega) (by omega), Option.bind_eq_bind,
      Option.bind_some, if_pos ho, Allocation.takeFree, if_pos ho]
    exact ih (by omega)
  | case4 room next wanted ho ih =>
    have hrest := ih (by omega)
    rw [Nat.cast_succ] at hrest
    rw [takeFree?, int32?_ofNat (by omega), Option.bind_eq_bind, Option.bind_some,
      int64?_of_le (by omega) (by omega), Option.bind_eq_bind,
      Option.bind_some, if_neg ho, Allocation.takeFree, if_neg ho, hrest]
    rfl

theorem nonneg_of_highestFree {bound : ℕ} (h : bound ≤ Ordinal.largest + 1) {o : Ordinal}
    (ho : Resolution.highestFree taken bound = some o) : 0 ≤ o.toInt := by
  induction bound with
  | zero => cases ho
  | succ bound ih =>
    rw [Resolution.highestFree] at ho
    split_ifs at ho
    · exact ih (by omega) ho
    · obtain rfl := Option.some.inj ho
      rw [Ordinal.toInt_ofNat (by omega)]
      exact Int.natCast_nonneg bound

theorem following?_eq {last : Option Ordinal}
    (h : Allocation.maxActive current reserved = .ok last) :
    following? last = some (Allocation.following last : ℤ) ∧
      Allocation.following last ≤ Ordinal.largest + 1 := by
  obtain ⟨hfits, rfl⟩ := Allocation.maxActive_eq_ok_iff.1 h
  have hle := hfits.boundary_le
  have hfollowing := Resolution.following_maxActive hle
  rw [hfollowing]
  refine ⟨?_, hle⟩
  cases hlast : (Resolution.scan current.toInt.toNat reserved).maxActive with
  | none =>
    rw [hlast] at hfollowing
    rw [← hfollowing]
    rfl
  | some o =>
    have h₀ := nonneg_of_highestFree hle hlast
    rw [hlast, Allocation.following, Option.elim_some] at hfollowing
    rw [following?, Option.elim_some, int64?_of_le (by omega) (by omega)]
    congr 1
    omega

theorem scaleOut?_eq (current target : Int32) (reserved : OrdinalSet) :
    scaleOut? current target reserved = some (Allocation.scaleOut current target reserved) := by
  unfold scaleOut? Allocation.scaleOut
  by_cases hcurrent : current.toInt < 0
  · rw [if_pos hcurrent, if_pos hcurrent]
  by_cases htarget : target.toInt < 0
  · rw [if_neg hcurrent, if_neg hcurrent, if_pos htarget, if_pos htarget]
  by_cases hle : target.toInt ≤ current.toInt
  · rw [if_neg hcurrent, if_neg hcurrent, if_neg htarget, if_neg htarget, if_pos hle, if_pos hle]
  have hwanted : (target - current).toInt = target.toInt - current.toInt := by
    apply Int32.toInt_sub_of_le <;> rw [Int32.le_iff_toInt_le]
    · exact not_lt.1 hcurrent
    · exact (not_le.1 hle).le
  rw [if_neg hcurrent, if_neg hcurrent, if_neg htarget, if_neg htarget, if_neg hle, if_neg hle,
    ← hwanted, Text.int32?_toInt, Option.bind_eq_bind, Option.bind_some, maxActive?_eq,
    Option.bind_eq_bind, Option.bind_some]
  cases hlast : Allocation.maxActive current reserved with
  | error e => rfl
  | ok last =>
    obtain ⟨hnext, hroom⟩ := following?_eq hlast
    have hleft : ((Ordinal.largest : ℤ) + 1 - Allocation.following last).toNat =
        Ordinal.largest + 1 - Allocation.following last := by omega
    change (following? last).bind _ = _
    rw [hnext, Option.bind_some, hleft, takeFree?_eq (by omega), Option.bind_eq_bind,
      Option.bind_some]
    rfl

end StableOrdinals.Words
