import Mathlib.Data.List.Induction
import Mathlib.Data.List.TakeWhile
import Mathlib.Data.Nat.Digits.Defs
import Mathlib.Tactic.ByContra
import StableOrdinals.Reservations.Encoding

/-!
# The grammar of encoded reservations

`IsArray` derives the arrays of integers by their grammar, in which `ws` is any run of blanks:

    ws '[' ws ( int ws ( ',' ws int ws )* )? ']' ws        int = -?(0|[1-9][0-9]*)

Each derivation comes with the numbers that the integers denote, in the order in which they stand.
Cutting an array at its commas gives its numbers: `IsArray.slots?_eq`.
-/

namespace StableOrdinals

namespace Text

def IsBlanks (s : Text) : Prop := ∀ c ∈ s, isBlank c = true

theorem isBlanks_nil : IsBlanks [] := fun _ hc => absurd hc List.not_mem_nil

theorem IsBlanks.ne_comma {s : Text} (h : IsBlanks s) : ∀ c ∈ s, c ≠ ',' := by
  rintro c hc rfl
  have := h _ hc
  revert this
  decide

theorem not_isBlank_of_isDigit {c : Byte} (h : isDigit c = true) : isBlank c = false := by
  rw [Bool.eq_false_iff]
  intro hb
  simp only [isBlank, Bool.or_eq_true, decide_eq_true_eq] at hb
  rcases hb with ((rfl | rfl) | rfl) | rfl <;> revert h <;> decide

theorem trim_append {before s after : Text} (hbefore : IsBlanks before) (hafter : IsBlanks after)
    (hne : s ≠ []) (hs : trim s = s) : trim (before ++ s ++ after) = s := by
  have hleft : (before ++ s ++ after).dropWhile isBlank = s.dropWhile isBlank ++ after := by
    rw [List.append_assoc, List.dropWhile_append_of_pos hbefore, List.dropWhile_append, if_neg]
    intro hempty
    rw [List.isEmpty_iff] at hempty
    rw [trim, hempty] at hs
    exact hne hs.symm
  have hright (t : Text) : dropBlanksRight (t ++ after) = dropBlanksRight t := by
    rw [dropBlanksRight, List.reverse_append, List.dropWhile_append_of_pos, dropBlanksRight]
    exact fun c hc => hafter c (List.mem_reverse.1 hc)
  rw [trim, hleft, hright]
  exact hs

end Text

namespace Reservations

open Text

def digit (d : ℕ) : Byte := UInt8.ofNat (48 + d)

/-- `0|[1-9][0-9]*` -/
inductive IsNatural : Text → ℕ → Prop
  | zero : IsNatural "0" 0
  | positive {lead : ℕ} {digits : List ℕ} (lead_pos : 0 < lead)
      (lt_ten : ∀ d ∈ lead :: digits, d < 10) :
      IsNatural ((lead :: digits).map digit) (Nat.ofDigits 10 (lead :: digits).reverse)

/-- `-?(0|[1-9][0-9]*)` -/
inductive IsInteger : Text → ℤ → Prop
  | plain {s : Text} {n : ℕ} (natural : IsNatural s n) : IsInteger s n
  | negated {s : Text} {n : ℕ} (natural : IsNatural s n) : IsInteger (('-' : Byte) :: s) (-n)

/-- `int ws ( ',' ws int ws )*` -/
inductive IsItems : Text → List ℤ → Prop
  | single {number after : Text} {i : ℤ} (integer : IsInteger number i)
      (blanks_after : IsBlanks after) : IsItems (number ++ after) [i]
  | cons {number after before items : Text} {i : ℤ} {numbers : List ℤ}
      (integer : IsInteger number i) (blanks_after : IsBlanks after)
      (blanks_before : IsBlanks before) (rest : IsItems items numbers) :
      IsItems (number ++ after ++ "," ++ before ++ items) (i :: numbers)

/-- `ws '[' ws ( int ws ( ',' ws int ws )* )? ']' ws` -/
inductive IsArray : Text → List ℤ → Prop
  | empty {before inner after : Text} (blanks_before : IsBlanks before)
      (blanks_inner : IsBlanks inner) (blanks_after : IsBlanks after) :
      IsArray (before ++ "[" ++ inner ++ "]" ++ after) []
  | items {before inner items after : Text} {numbers : List ℤ} (blanks_before : IsBlanks before)
      (blanks_inner : IsBlanks inner) (items_eq : IsItems items numbers)
      (blanks_after : IsBlanks after) :
      IsArray (before ++ "[" ++ inner ++ items ++ "]" ++ after) numbers

section Numbers

variable {s : Text} {n : ℕ} {i : ℤ}

theorem isDigit_digit : ∀ d < 10, isDigit (digit d) = true ∧ (digit d).toNat - 48 = d := by decide

theorem digit_of_isDigit {c : Byte} (h : isDigit c = true) :
    c.toNat - 48 < 10 ∧ digit (c.toNat - 48) = c := by
  simp only [isDigit, Bool.and_eq_true, decide_eq_true_eq] at h
  have hlow : 48 ≤ c.toNat := UInt8.le_iff_toNat_le.1 h.1
  have hhigh : c.toNat ≤ 57 := UInt8.le_iff_toNat_le.1 h.2
  refine ⟨by omega, ?_⟩
  rw [digit, Nat.add_sub_cancel' hlow, UInt8.ofNat_toNat]

theorem digitsValue_map_digit {digits : List ℕ} (h : ∀ d ∈ digits, d < 10) :
    digitsValue (digits.map digit) = Nat.ofDigits 10 digits.reverse := by
  induction digits using List.reverseRecOn with
  | nil => rfl
  | append_singleton digits d ih =>
    have hd : d < 10 := h d (by simp)
    rw [List.map_append, List.map_singleton, digitsValue_append_singleton, (isDigit_digit d hd).2,
      ih fun e he => h e (by simp [he]), List.reverse_append, List.reverse_singleton,
      List.singleton_append, Nat.ofDigits_cons]
    omega

theorem toNat?_map_digit {digits : List ℕ} (hne : digits ≠ []) (h : ∀ d ∈ digits, d < 10) :
    toNat? (digits.map digit) = some (Nat.ofDigits 10 digits.reverse) := by
  have hall : (digits.map digit).all isDigit = true := by
    rw [List.all_map, List.all_eq_true]
    exact fun d hd => (isDigit_digit d (h d hd)).1
  rw [toNat?, if_pos ⟨by simpa using hne, hall⟩, digitsValue_map_digit h]

theorem exists_digits_of_toNat? (h : toNat? s = some n) :
    ∃ digits, digits ≠ [] ∧ (∀ d ∈ digits, d < 10) ∧ s = digits.map digit := by
  unfold toNat? at h
  split at h
  · rename_i hs
    have hdigit (c : Byte) (hc : c ∈ s) := digit_of_isDigit (List.all_eq_true.1 hs.2 c hc)
    refine ⟨s.map fun c => c.toNat - 48, by simpa using hs.1, ?_, ?_⟩
    · intro d hd
      obtain ⟨c, hc, rfl⟩ := List.mem_map.1 hd
      exact (hdigit c hc).1
    · rw [List.map_map]
      exact ((List.map_congr_left fun c hc => (hdigit c hc).2).trans (List.map_id' s)).symm
  · cases h

theorem isNatural_of_toNat? (h : toNat? s = some n) (hzero : s.head? = some ('0' : Byte) → s = "0") :
    IsNatural s n := by
  obtain ⟨digits, hne, hlt, rfl⟩ := exists_digits_of_toNat? h
  rw [toNat?_map_digit hne hlt, Option.some.injEq] at h
  subst h
  cases digits with
  | nil => exact absurd rfl hne
  | cons lead digits =>
    by_cases hlead : lead = 0
    · subst hlead
      have hs := hzero rfl
      obtain rfl : digits = [] := List.map_eq_nil_iff.1 (List.cons.inj hs).2
      exact .zero
    · exact .positive (Nat.pos_of_ne_zero hlead) hlt

theorem IsNatural.toNat?_eq (h : IsNatural s n) : toNat? s = some n := by
  cases h with
  | zero => rfl
  | positive _ lt_ten => exact toNat?_map_digit (List.cons_ne_nil _ _) lt_ten

theorem isDigit_of_isNatural (h : IsNatural s n) : ∀ c ∈ s, isDigit c = true := by
  cases h with
  | zero => exact List.forall_mem_singleton.2 (by decide)
  | positive _ lt_ten =>
    intro c hc
    obtain ⟨d, hd, rfl⟩ := List.mem_map.1 hc
    exact (isDigit_digit d (lt_ten d hd)).1

theorem IsNatural.ne_nil (h : IsNatural s n) : s ≠ [] := by
  cases h with
  | zero => exact List.cons_ne_nil _ _
  | positive _ _ => exact List.cons_ne_nil _ _

theorem IsInteger.toInt?_eq (h : IsInteger s i) : toInt? s = some i := by
  cases h with
  | @negated s n natural =>
    rw [toInt?, if_pos rfl, natural.toNat?_eq]
    rfl
  | @plain s n natural =>
    cases s with
    | nil => exact absurd rfl natural.ne_nil
    | cons c rest =>
      have hc : c ≠ '-' := by
        rintro rfl
        have := isDigit_of_isNatural natural '-' List.mem_cons_self
        revert this
        decide
      rw [toInt?, if_neg hc, natural.toNat?_eq]
      rfl

theorem IsInteger.ne_nil (h : IsInteger s i) : s ≠ [] := by
  cases h with
  | plain natural => exact natural.ne_nil
  | negated _ => exact List.cons_ne_nil _ _

theorem mem_of_isInteger (h : IsInteger s i) : ∀ c ∈ s, c = '-' ∨ isDigit c = true := by
  intro c hc
  cases h with
  | plain natural => exact Or.inr (isDigit_of_isNatural natural c hc)
  | negated natural =>
    rcases List.mem_cons.1 hc with rfl | hc
    · exact Or.inl rfl
    · exact Or.inr (isDigit_of_isNatural natural c hc)

theorem IsInteger.not_isBlank (h : IsInteger s i) : ∀ c ∈ s, isBlank c = false := by
  intro c hc
  rcases mem_of_isInteger h c hc with rfl | hdigit
  · decide
  · exact not_isBlank_of_isDigit hdigit

theorem IsInteger.ne_comma (h : IsInteger s i) : ∀ c ∈ s, c ≠ ',' := by
  rintro c hc rfl
  rcases mem_of_isInteger h _ hc with hc | hc <;> revert hc <;> decide

end Numbers

section Items

variable {s : Text} {i : ℤ} {numbers : List ℤ}

theorem trim_of_isInteger (h : IsInteger s i) : trim s = s := by
  apply trim_of_ends
  · intro c hc
    exact h.not_isBlank c (List.mem_of_mem_head? hc)
  · intro c hc
    exact h.not_isBlank c (List.mem_of_mem_getLast? hc)

theorem toInt32?_trim_padded {before number after : Text} (hbefore : IsBlanks before)
    (hnumber : IsInteger number i) (hafter : IsBlanks after) :
    toInt32? (trim (before ++ number ++ after)) = int32? i := by
  rw [trim_append hbefore hafter hnumber.ne_nil (trim_of_isInteger hnumber), toInt32?,
    hnumber.toInt?_eq, Option.bind_some]

theorem split_padded {before number after : Text} (hbefore : IsBlanks before)
    (hnumber : IsInteger number i) (hafter : IsBlanks after) :
    split (· = ',') (before ++ number ++ after) = [before ++ number ++ after] := by
  apply split_of_forall
  intro c hc
  rw [List.mem_append, List.mem_append] at hc
  rw [decide_eq_false_iff_not]
  rcases hc with (hc | hc) | hc
  · exact hbefore.ne_comma c hc
  · exact hnumber.ne_comma c hc
  · exact hafter.ne_comma c hc

theorem IsItems.mapM_split {items : Text} (h : IsItems items numbers) {before : Text}
    (hbefore : IsBlanks before) :
    (split (· = ',') (before ++ items)).mapM (fun s => toInt32? (trim s)) = numbers.mapM int32? := by
  -- The blanks after a comma belong to the piece that follows, hence `before`.
  induction h generalizing before with
  | single integer blanks_after =>
    rw [← List.append_assoc, split_padded hbefore integer blanks_after, List.mapM_cons,
      toInt32?_trim_padded hbefore integer blanks_after]
    rfl
  | @cons number after between items i numbers integer blanks_after blanks_before rest ih =>
    have hform : before ++ (number ++ after ++ "," ++ between ++ items) =
        before ++ number ++ after ++ (',' : Byte) :: (between ++ items) := by
      simp only [List.append_assoc]
      rfl
    rw [hform, split_append_cons (by decide), split_padded hbefore integer blanks_after,
      List.singleton_append, List.mapM_cons, ih blanks_before,
      toInt32?_trim_padded hbefore integer blanks_after, List.mapM_cons]

theorem IsItems.exists_integer {items : Text} (h : IsItems items numbers) :
    ∃ number rest i, IsInteger number i ∧ items = number ++ rest := by
  cases h with
  | single integer _ => exact ⟨_, _, _, integer, rfl⟩
  | cons integer _ _ _ => exact ⟨_, _, _, integer, by simp only [List.append_assoc]; rfl⟩

theorem IsItems.not_isBlanks {items : Text} (h : IsItems items numbers) (before : Text) :
    ¬ IsBlanks (before ++ items) := by
  obtain ⟨number, rest, i, hnumber, rfl⟩ := h.exists_integer
  intro hblanks
  obtain ⟨c, hc⟩ := List.exists_mem_of_ne_nil _ hnumber.ne_nil
  have hblank := hblanks c (by simp [hc])
  rw [hnumber.not_isBlank c hc] at hblank
  cases hblank

theorem trim_bracketed (body : Text) :
    trim (('[' : Byte) :: (body ++ [(']' : Byte)])) = ('[' : Byte) :: (body ++ [(']' : Byte)]) := by
  apply trim_of_ends
  · intro c hc
    rw [List.head?_cons, Option.mem_def, Option.some.injEq] at hc
    subst hc
    decide
  · intro c hc
    rw [← List.cons_append, List.getLast?_concat, Option.mem_def, Option.some.injEq] at hc
    subst hc
    decide

/-- What is cut at the commas is what stands between the first bracket and the last. -/
theorem slots?_bracketed {before body after : Text} (hbefore : IsBlanks before)
    (hafter : IsBlanks after) :
    slots? (before ++ "[" ++ body ++ "]" ++ after) = if body.all isBlank then some []
      else (split (· = ',') body).mapM fun s => toInt32? (trim s) := by
  have hform : before ++ "[" ++ body ++ "]" ++ after =
      before ++ ('[' : Byte) :: (body ++ [(']' : Byte)]) ++ after := by
    simp only [List.append_assoc, List.cons_append]
    rfl
  have htrim := trim_append hbefore hafter (List.cons_ne_nil _ _) (trim_bracketed body)
  rw [slots?, hform, htrim, List.drop_one, List.tail_cons, List.dropLast_concat]

theorem IsArray.slots?_eq (h : IsArray s numbers) : slots? s = numbers.mapM int32? := by
  cases h with
  | @empty before inner after blanks_before blanks_inner blanks_after =>
    rw [slots?_bracketed blanks_before blanks_after, if_pos (List.all_eq_true.2 blanks_inner)]
    rfl
  | @items before inner items after numbers blanks_before blanks_inner items_eq blanks_after =>
    have hblank : ¬ (inner ++ items).all isBlank = true := fun hall =>
      items_eq.not_isBlanks inner (List.all_eq_true.1 hall)
    rw [List.append_assoc _ inner, slots?_bracketed blanks_before blanks_after, if_neg hblank,
      items_eq.mapM_split blanks_inner]

end Items

end Reservations

end StableOrdinals
