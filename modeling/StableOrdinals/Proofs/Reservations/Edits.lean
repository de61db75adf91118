import Mathlib.Data.Nat.Notation
import StableOrdinals.Proofs.Reservations.RoundTrip

/-!
# Edits of reservations and the sets they stand for

A bag holds text under a key and may be absent, while a set of reserved slots is just a set. Every
edit of a bag writes the set that the edit makes of what was read (`Edit.apply_eq`), whatever stood
under the key before, so that a run of edits follows a run of set operations. `edits_refine_sets`
says that none of them fails and what the bag looks like after each.
-/

namespace StableOrdinals.Reservations

inductive Edit
  | write (slots : OrdinalSet)
  | add (slots : OrdinalSet)
  | remove (slots : OrdinalSet)
  | clear

namespace Edit

def apply (key : Text) (bag : Bag) : Edit → Except EncodingError Bag
  | write slots => Reservations.write key slots bag
  | add slots => Reservations.add key slots bag
  | remove slots => Reservations.remove key slots bag
  | clear => Reservations.clear key bag

def result (reserved : OrdinalSet) : Edit → OrdinalSet
  | write slots => slots
  | add slots => reserved ∪ slots
  | remove slots => reserved \ slots
  | clear => ∅

def made (key : Text) (bag : Bag) (edit : Edit) : Bag :=
  written key (edit.result (read key bag)) bag

theorem apply_eq (key : Text) (bag : Bag) (edit : Edit) :
    edit.apply key bag = .ok (edit.made key bag) := by
  cases edit with
  | write slots => exact write_eq key slots bag
  | add slots => exact add_eq key slots bag
  | remove slots => exact remove_eq key slots bag
  | clear => exact clear_eq key bag

end Edit

section Written

variable (key : Text) (slots : OrdinalSet) (bag : Bag)

theorem value?_written_of_ne {other : Text} (h : other ≠ key) :
    value? other (written key slots bag) = value? other bag := by
  unfold written
  by_cases hempty : slots.isEmpty = true
  · rw [if_pos hempty]
    cases bag with
    | none => rfl
    | some annotations => simp [value?, Std.ExtTreeMap.getElem?_erase, h.symm]
  · rw [if_neg hempty]
    cases bag <;> simp [value?, Std.ExtTreeMap.getElem?_insert, h.symm]

theorem warnings_written : warnings key (written key slots bag) = [] := by
  rw [warnings, value?_written]
  by_cases hempty : slots.isEmpty = true
  · rw [if_pos hempty]
  · rw [if_neg hempty]
    simp only [decode_ofOrdinals_toList, Option.isSome_some, if_true]

theorem written_eq_none_iff : written key slots bag = none ↔ bag = none ∧ slots = ∅ := by
  unfold written
  by_cases hempty : slots.isEmpty = true
  · rw [if_pos hempty, Option.map_eq_none_iff]
    exact (and_iff_left (Std.ExtTreeSet.isEmpty_iff.1 hempty)).symm
  · rw [if_neg hempty]
    simp only [reduceCtorEq, false_iff]
    exact fun h => hempty (Std.ExtTreeSet.isEmpty_iff.2 h.2)

theorem written_none : written key slots none = none ∨
    written key slots none = written key slots (some ∅) := by
  unfold written
  by_cases hempty : slots.isEmpty = true
  · rw [if_pos hempty]
    exact Or.inl rfl
  · rw [if_neg hempty, if_neg hempty]
    exact Or.inr rfl

end Written

section Runs

variable (key : Text) (bag : Bag) (edits : List Edit)

def bagAt (i : ℕ) : Except EncodingError Bag := (edits.take i).foldlM (Edit.apply key) bag

def madeAt (i : ℕ) : Bag := (edits.take i).foldl (Edit.made key) bag

def setAt (reserved : OrdinalSet) (edits : List Edit) (i : ℕ) : OrdinalSet :=
  (edits.take i).foldl Edit.result reserved

variable {key bag edits} {i : ℕ}

theorem bagAt_eq : bagAt key bag edits i = .ok (madeAt key bag edits i) := by
  unfold bagAt madeAt
  generalize edits.take i = edits
  induction edits generalizing bag with
  | nil => rfl
  | cons edit edits ih =>
    rw [List.foldlM_cons, Edit.apply_eq, List.foldl_cons]
    exact ih

theorem madeAt_succ (hi : i < edits.length) :
    madeAt key bag edits (i + 1) = edits[i].made key (madeAt key bag edits i) := by
  unfold madeAt
  rw [List.take_succ_eq_append_getElem hi, List.foldl_append, List.foldl_cons, List.foldl_nil]

theorem setAt_succ {reserved : OrdinalSet} (hi : i < edits.length) :
    setAt reserved edits (i + 1) = edits[i].result (setAt reserved edits i) := by
  unfold setAt
  rw [List.take_succ_eq_append_getElem hi, List.foldl_append, List.foldl_cons, List.foldl_nil]

theorem read_madeAt (hi : i ≤ edits.length) :
    read key (madeAt key bag edits i) = setAt (read key bag) edits i := by
  induction i with
  | zero => rfl
  | succ i ih => rw [madeAt_succ hi, setAt_succ hi, Edit.made, read_written, ih (by omega)]

theorem madeAt_succ_eq_written (hi : i < edits.length) :
    madeAt key bag edits (i + 1) =
      written key (setAt (read key bag) edits (i + 1)) (madeAt key bag edits i) := by
  rw [madeAt_succ hi, setAt_succ hi, Edit.made, read_madeAt hi.le]

theorem value?_madeAt_of_ne {other : Text} (h : other ≠ key) (hi : i ≤ edits.length) :
    value? other (madeAt key bag edits i) = value? other bag := by
  induction i with
  | zero => rfl
  | succ i ih => rw [madeAt_succ_eq_written hi, value?_written_of_ne key _ _ h, ih (by omega)]

theorem madeAt_eq_none_iff (hi : i ≤ edits.length) :
    madeAt key bag edits i = none ↔
      bag = none ∧ ∀ j < i, setAt (read key bag) edits (j + 1) = ∅ := by
  induction i with
  | zero =>
    change bag = none ↔ _
    simp only [Nat.not_lt_zero, false_imp_iff, implies_true, and_true]
  | succ i ih =>
    rw [madeAt_succ_eq_written hi, written_eq_none_iff, ih (by omega), and_assoc]
    exact and_congr_right fun _ => Nat.forall_lt_succ_right.symm

/-- No edit fails. After each of them what is read is what the set operations make of the set read
at the start, and every other key holds what it held then. The key is there exactly for a set that
is not empty, which it encodes, so that no reading gives a warning any more. The bag is absent as
long as it was so at the start and no set has been anything but empty. -/
theorem edits_refine_sets (key : Text) (bag : Bag) (edits : List Edit) (i : ℕ)
    (hi : i < edits.length) :
    let slots := setAt (read key bag) edits (i + 1)
    ∃ after, bagAt key bag edits (i + 1) = .ok after ∧
      read key after = slots ∧
      (∀ other, other ≠ key → value? other after = value? other bag) ∧
      (if slots.isEmpty then value? key after = none
        else ∃ value, encode slots = .ok value ∧ value? key after = some value) ∧
      warnings key after = [] ∧
      (after = none ↔ bag = none ∧ ∀ j ≤ i, setAt (read key bag) edits (j + 1) = ∅) := by
  intro slots
  have hafter : madeAt key bag edits (i + 1) = written key slots (madeAt key bag edits i) :=
    madeAt_succ_eq_written hi
  refine ⟨_, bagAt_eq, read_madeAt hi, ?_, ?_, ?_, ?_⟩
  · intro other hother
    exact value?_madeAt_of_ne hother hi
  · rw [hafter, value?_written]
    split
    · rfl
    · exact ⟨_, encode_eq slots, rfl⟩
  · rw [hafter, warnings_written]
  · rw [madeAt_eq_none_iff hi]
    simp only [Nat.lt_succ_iff]

/-- The value at the start is malformed and counts as the empty set, and another key stands beside
it. -/
theorem edits_refine_sets_malformed :
    let bag : Bag := some (((∅ : Annotations).insert "slots" "[7").insert "note" "new")
    let edits : List Edit :=
      [.remove (OrdinalSet.ofList [7]), .add (OrdinalSet.ofList [4, -1, 2]),
        .remove (OrdinalSet.ofList [2, 9]), .clear]
    2 < edits.length ∧ warnings "slots" bag ≠ [] ∧
      ∃ after, bagAt "slots" bag edits 3 = .ok after ∧
        read "slots" after = OrdinalSet.ofList [-1, 4] ∧
        value? "note" after = some (Text.ofString "new") ∧ warnings "slots" after = [] := by
  intro bag edits
  have hlength : 2 < edits.length := by decide
  have hslots : setAt (read "slots" bag) edits 3 = OrdinalSet.ofList [-1, 4] := by decide +kernel
  have hnote : value? "note" bag = some (Text.ofString "new") := by decide +kernel
  have hmalformed : warnings "slots" bag ≠ [] := by decide +kernel
  obtain ⟨after, hafter, hread, hothers, _, hwarnings, _⟩ :=
    edits_refine_sets "slots" bag edits 2 hlength
  refine ⟨hlength, hmalformed, after, hafter, hread.trans hslots, ?_, hwarnings⟩
  exact (hothers "note" (by decide)).trans hnote

end Runs

end StableOrdinals.Reservations
