import StableOrdinals.Proofs.Allocation.Boundary
import StableOrdinals.Proofs.Ordinal.Entered
import StableOrdinals.Proofs.Reservations.RoundTrip
import StableOrdinals.Proofs.Text.Numerals

/-!
# Printed ordinals

A list is printed in brackets and a set in braces, with a comma and a space between two ordinals.
Both are separators to whoever enters ordinals, and no printed ordinal holds one, so that the
printed ordinals are the words of what stands inside (`words_commaSeparated`). Each of them is a
numeral.

What is printed is read back, by the reader of entered ordinals once the brackets or braces are
taken off, and a list in its brackets by the decoder of reservations as well:
`printed_ordinals_read_back`.
-/

namespace StableOrdinals.Text

open Reservations (IsNatural IsInteger isInteger_ofInt mem_of_isInteger decode decode_ofOrdinals)

theorem IsDigits.of_isNatural {s : Text} {n : ℕ} (h : IsNatural s n) : IsDigits s n := by
  cases h with
  | zero => exact .intro (List.cons_ne_nil 0 []) (List.forall_mem_singleton.2 (Nat.zero_lt_succ 9))
  | positive _ lt_ten => exact .intro (List.cons_ne_nil _ _) lt_ten

theorem IsNumeral.of_isInteger {s : Text} {i : ℤ} (h : IsInteger s i) : IsNumeral s i := by
  cases h with
  | plain natural => exact .unsigned (.of_isNatural natural)
  | negated natural => exact .minus (.of_isNatural natural)

theorem enteredInt32?_ofInt (o : Int32) : enteredInt32? (ofInt o.toInt) = some o :=
  enteredInt32?_eq_some_iff.2 (IsNumeral.of_isInteger (isInteger_ofInt o.toInt)).isEntered

theorem isOrdinalSeparator_of_mem_ofInt {i : ℤ} {c : Byte} (h : c ∈ ofInt i) :
    isOrdinalSeparator c = false := by
  rcases mem_of_isInteger (isInteger_ofInt i) c h with rfl | hdigit
  · rfl
  · rw [Bool.eq_false_iff]
    intro hsep
    simp only [isOrdinalSeparator, Bool.or_eq_true, decide_eq_true_eq] at hsep
    rcases hsep with (rfl | rfl) | rfl <;> cases hdigit

theorem words_commaSeparated (ordinals : List Ordinal) :
    words isOrdinalSeparator (commaSeparated ordinals) = ordinals.map fun o => ofInt o.toInt := by
  have hne : ofString ", " ≠ [] := List.cons_ne_nil _ _
  have hglue : ∀ c ∈ ofString ", ", isOrdinalSeparator c = true := List.all_eq_true.1 rfl
  have hword (o : Ordinal) : words isOrdinalSeparator (ofInt o.toInt) = [ofInt o.toInt] :=
    words_of_forall (isInteger_ofInt o.toInt).ne_nil fun c hc => isOrdinalSeparator_of_mem_ofInt hc
  rw [commaSeparated, words_join hne hglue, List.flatMap_map]
  simp only [hword]
  exact (List.map_eq_flatMap).symm

theorem enteredOrdinals?_commaSeparated (ordinals : List Ordinal) :
    enteredOrdinals? (commaSeparated ordinals) = some ordinals := by
  rw [enteredOrdinals?, words_commaSeparated, mapM_eq_some_iff_forall₂, List.forall₂_map_left_iff,
    List.forall₂_same]
  exact fun o _ => enteredInt32?_ofInt o

def inside (s : Text) : Text := s.tail.dropLast

theorem inside_ofOrdinals (ordinals : List Ordinal) :
    inside (ofOrdinals ordinals) = commaSeparated ordinals := List.dropLast_concat

theorem inside_ofOrdinalSet (ordinals : OrdinalSet) :
    inside (ofOrdinalSet ordinals) = commaSeparated ordinals.toList := List.dropLast_concat

/-- Every printed list is read back as it was, and decoded to the set of its ordinals. Every printed
set is read back as the list of its members in ascending order. -/
theorem printed_ordinals_read_back :
    (∀ ordinals : List Ordinal,
      ofOrdinals ordinals = "[" ++ inside (ofOrdinals ordinals) ++ "]" ∧
        enteredOrdinals? (inside (ofOrdinals ordinals)) = some ordinals ∧
        decode (ofOrdinals ordinals) = some (OrdinalSet.ofList ordinals)) ∧
      ∀ slots : OrdinalSet,
        ofOrdinalSet slots = "\x7b" ++ inside (ofOrdinalSet slots) ++ "\x7d" ∧
          enteredOrdinals? (inside (ofOrdinalSet slots)) = some slots.toList ∧
          slots.toList.Pairwise (fun o p => o.toInt < p.toInt) ∧ ∀ o, o ∈ slots.toList ↔ o ∈ slots := by
  constructor
  · intro ordinals
    rw [inside_ofOrdinals]
    exact ⟨rfl, enteredOrdinals?_commaSeparated ordinals, decode_ofOrdinals ordinals⟩
  · intro slots
    rw [inside_ofOrdinalSet]
    refine ⟨rfl, enteredOrdinals?_commaSeparated slots.toList, slots.pairwise_toList, ?_⟩
    exact fun o => Std.ExtTreeSet.mem_toList

end StableOrdinals.Text
