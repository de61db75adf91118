import Mathlib.Data.Nat.Notation
import StableOrdinals.Proofs.Reservations.Decoding
import StableOrdinals.Reservations

/-!
# Reservations are read back as they were written

What `Text.ofOrdinals` prints is an array of the ordinals printed (`isArray_ofOrdinals`), and is
decoded to their set, whatever their order: `decode_ofOrdinals`. An encoded set is such an array, so
that nothing is lost by encoding it: `encode_lossless`.

No set is refused, and so a write always makes a bag, which is `written`. What is read of it is the
set that was written: `read_written`.
-/

namespace StableOrdinals

namespace Text

theorem digitChar_ne_zero : ∀ d < 10, 0 < d → (Nat.digitChar d).toUInt8 ≠ '0' := by decide

theorem head?_ofNat {n : ℕ} (h : 0 < n) : (ofNat n).head? ≠ some ('0' : Byte) := by
  induction n using Nat.strongRecOn with
  | ind n ih =>
    by_cases hn : n < 10
    · rw [ofNat_of_lt_ten hn, List.head?_cons, Ne, Option.some.injEq]
      exact digitChar_ne_zero n hn h
    · have hlead := ih (n / 10) (by omega) (by omega)
      cases hs : ofNat (n / 10) with
      | nil => exact absurd hs (ofNat_ne_nil _)
      | cons d rest =>
        rw [hs] at hlead
        rw [ofNat_of_ten_le (by omega), hs]
        exact hlead

theorem commaSeparated_cons_cons (o p : Ordinal) (ordinals : List Ordinal) :
    commaSeparated (o :: p :: ordinals) =
      ofInt o.toInt ++ (',' : Byte) :: (' ' : Byte) :: commaSeparated (p :: ordinals) := by
  simp only [commaSeparated, join, List.map_cons, List.intercalate_cons_cons, List.append_assoc]
  rfl

end Text

namespace Reservations

open Text

theorem isNatural_ofNat (n : ℕ) : IsNatural (ofNat n) n := by
  apply isNatural_of_toNat? (toNat?_ofNat n)
  intro hzero
  by_cases hn : 0 < n
  · exact absurd hzero (head?_ofNat hn)
  · obtain rfl : n = 0 := Nat.eq_zero_of_not_pos hn
    rfl

theorem isInteger_ofInt (i : ℤ) : IsInteger (ofInt i) i := by
  cases i with
  | ofNat n => exact .plain (isNatural_ofNat n)
  | negSucc n => exact .negated (isNatural_ofNat (n + 1))

theorem isItems_commaSeparated (o : Ordinal) (ordinals : List Ordinal) :
    IsItems (commaSeparated (o :: ordinals)) ((o :: ordinals).map (·.toInt)) := by
  have hspace : IsBlanks " " := List.forall_mem_singleton.2 (by decide)
  induction ordinals generalizing o with
  | nil => exact .single (isInteger_ofInt o.toInt) isBlanks_nil
  | cons p ordinals ih =>
    have hitems := IsItems.cons (isInteger_ofInt o.toInt) isBlanks_nil hspace (ih p)
    rw [List.append_nil, List.append_assoc, List.append_assoc] at hitems
    rw [commaSeparated_cons_cons]
    exact hitems

theorem isArray_ofOrdinals (ordinals : List Ordinal) :
    IsArray (ofOrdinals ordinals) (ordinals.map (·.toInt)) := by
  cases ordinals with
  | nil => exact .empty isBlanks_nil isBlanks_nil isBlanks_nil
  | cons o ordinals =>
    have harray := IsArray.items isBlanks_nil isBlanks_nil (isItems_commaSeparated o ordinals)
      isBlanks_nil
    rwa [List.append_nil] at harray

theorem decode_ofOrdinals (ordinals : List Ordinal) :
    decode (ofOrdinals ordinals) = some (OrdinalSet.ofList ordinals) :=
  decode_eq_some_iff.2 ⟨ordinals, isArray_ofOrdinals ordinals, rfl⟩

@[simp] theorem encode_eq (slots : OrdinalSet) : encode slots = .ok (ofOrdinals slots.toList) := rfl

@[simp] theorem decode_ofOrdinals_toList (slots : OrdinalSet) :
    decode (ofOrdinals slots.toList) = some slots := by
  rw [decode_ofOrdinals]
  congr 1
  apply Std.ExtTreeSet.ext_mem
  intro o
  rw [OrdinalSet.mem_ofList, Std.ExtTreeSet.mem_toList]

/-- Every set is encoded as an array of its members and decoded again. Hence encoding what was
decoded changes nothing about its value, and different sets have different encodings. -/
theorem encode_lossless :
    (∀ slots, ∃ s, encode slots = .ok s ∧ IsArray s (slots.toList.map (·.toInt)) ∧
        decode s = some slots) ∧
      (∀ s slots, decode s = some slots → ∃ s', encode slots = .ok s' ∧ decode s' = decode s) ∧
      ∀ slots slots', encode slots = encode slots' → slots = slots' := by
  refine ⟨fun slots => ?_, fun s slots hdecode => ?_, fun slots slots' heq => ?_⟩
  · exact ⟨_, encode_eq slots, isArray_ofOrdinals slots.toList, decode_ofOrdinals_toList slots⟩
  · exact ⟨_, encode_eq slots, by rw [decode_ofOrdinals_toList, hdecode]⟩
  · rw [encode_eq, encode_eq, Except.ok.injEq] at heq
    have hdecode := congrArg decode heq
    rw [decode_ofOrdinals_toList, decode_ofOrdinals_toList] at hdecode
    exact Option.some.inj hdecode

section Written

variable (key : Text) (slots : OrdinalSet) (bag : Bag)

def written : Bag :=
  if slots.isEmpty then bag.map (·.erase key)
  else some ((bag.getD ∅).insert key (ofOrdinals slots.toList))

theorem write_eq : write key slots bag = .ok (written key slots bag) := by
  unfold write written
  split <;> rfl

theorem add_eq : add key slots bag = .ok (written key (read key bag ∪ slots) bag) :=
  write_eq key _ bag

theorem remove_eq : remove key slots bag = .ok (written key (read key bag \ slots) bag) :=
  write_eq key _ bag

theorem clear_eq : clear key bag = .ok (written key ∅ bag) := write_eq key ∅ bag

theorem value?_written : value? key (written key slots bag) =
    if slots.isEmpty then none else some (ofOrdinals slots.toList) := by
  unfold written
  by_cases h : slots.isEmpty = true
  · rw [if_pos h, if_pos h]
    cases bag <;> simp [value?]
  · rw [if_neg h, if_neg h]
    simp [value?]

@[simp] theorem read_written : read key (written key slots bag) = slots := by
  rw [read, value?_written]
  by_cases h : slots.isEmpty = true
  · rw [if_pos h, Std.ExtTreeSet.isEmpty_iff.1 h]
    rfl
  · rw [if_neg h, Option.bind_some, decode_ofOrdinals_toList]
    rfl

end Written

end Reservations

end StableOrdinals
