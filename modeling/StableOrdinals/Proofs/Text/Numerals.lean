import Mathlib.Data.List.TakeWhile
import StableOrdinals.Proofs.Allocation.Words
import StableOrdinals.Proofs.Reservations.Decoding

/-!
# Numbers as entered

`IsNumeral` derives the decimal numerals by their grammar, each with the number that it denotes:

    [+-]?[0-9]+

`IsEntered` adds what `enteredInt32?` lets pass beside a numeral: whitespace in front, and whatever
stands behind a NUL byte. Nothing at all in front of a NUL byte counts as zero. These are exactly
the texts that are read (`enteredInt32?_eq_some_iff`), so that a text without NUL bytes that does
not start with whitespace is read if and only if it is a numeral from end to end:
`entered_iff_numeral`.

`scannedInt32?` reads a number as a machine does that takes as many digits as there are at the
front, keeps them in 64 bits and then asks what is left of the text. It reads the same numbers.
-/

namespace StableOrdinals.Text

open Reservations (digit isDigit_digit toNat?_map_digit exists_digits_of_toNat? int32?_eq_some_iff)
open Words (int64?)

/-- `[0-9]+` -/
inductive IsDigits : Text → ℕ → Prop
  | intro {digits : List ℕ} (ne_nil : digits ≠ []) (lt_ten : ∀ d ∈ digits, d < 10) :
      IsDigits (digits.map digit) (Nat.ofDigits 10 digits.reverse)

/-- `[+-]?[0-9]+` -/
inductive IsNumeral : Text → ℤ → Prop
  | unsigned {s : Text} {n : ℕ} (digits : IsDigits s n) : IsNumeral s n
  | plus {s : Text} {n : ℕ} (digits : IsDigits s n) : IsNumeral (('+' : Byte) :: s) n
  | minus {s : Text} {n : ℕ} (digits : IsDigits s n) : IsNumeral (('-' : Byte) :: s) (-n)

/-- A numeral with whitespace in front and with anything behind it that a NUL byte hides. -/
inductive IsEntered : Text → ℤ → Prop
  | numeral {gap numeral hidden : Text} {i : ℤ} (blank : ∀ c ∈ gap, isWhitespace c = true)
      (denotes : IsNumeral numeral i) (nul : ∀ c ∈ hidden.head?, c = 0) :
      IsEntered (gap ++ numeral ++ hidden) i
  | nothing {hidden : Text} : IsEntered ((0 : Byte) :: hidden) 0

section Numerals

variable {s : Text} {n : ℕ} {i : ℤ}

theorem toNat?_eq_some_iff : toNat? s = some n ↔ IsDigits s n := by
  constructor
  · intro h
    obtain ⟨digits, hne, hlt, rfl⟩ := exists_digits_of_toNat? h
    rw [toNat?_map_digit hne hlt, Option.some.injEq] at h
    exact h ▸ .intro hne hlt
  · rintro ⟨hne, hlt⟩
    exact toNat?_map_digit hne hlt

theorem IsDigits.ne_nil (h : IsDigits s n) : s ≠ [] := by
  cases h with
  | intro hne _ => simpa using hne

theorem IsDigits.isDigit (h : IsDigits s n) : ∀ c ∈ s, isDigit c = true := by
  cases h with
  | intro _ hlt =>
    intro c hc
    obtain ⟨d, hd, rfl⟩ := List.mem_map.1 hc
    exact (isDigit_digit d (hlt d hd)).1

def splitSign : Text → Bool × Text
  | [] => (false, [])
  | c :: s => if c = '-' then (true, s) else if c = '+' then (false, s) else (false, c :: s)

def withSign (negative : Bool) (n : ℕ) : ℤ := if negative then -n else n

theorem splitSign_of_isDigits (h : IsDigits s n) : splitSign s = (false, s) := by
  cases s with
  | nil => rfl
  | cons c rest =>
    have hdigit := h.isDigit c List.mem_cons_self
    rw [splitSign, if_neg, if_neg]
    · rintro rfl
      cases hdigit
    · rintro rfl
      cases hdigit

theorem isNumeral_iff :
    IsNumeral s i ↔ ∃ n, IsDigits (splitSign s).2 n ∧ withSign (splitSign s).1 n = i := by
  constructor
  · intro h
    cases h with
    | unsigned digits =>
      rw [splitSign_of_isDigits digits]
      exact ⟨_, digits, rfl⟩
    | plus digits => exact ⟨_, digits, rfl⟩
    | minus digits => exact ⟨_, digits, rfl⟩
  · rintro ⟨n, hdigits, rfl⟩
    cases s with
    | nil => exact absurd rfl hdigits.ne_nil
    | cons c rest =>
      rw [splitSign] at hdigits ⊢
      split_ifs at hdigits ⊢ with hminus hplus
      · exact hminus ▸ .minus hdigits
      · exact hplus ▸ .plus hdigits
      · exact .unsigned hdigits

theorem signedInt?_eq (s : Text) :
    signedInt? s = (toNat? (splitSign s).2).map (withSign (splitSign s).1) := by
  cases s with
  | nil => rfl
  | cons c rest =>
    rw [signedInt?, toInt?, splitSign]
    by_cases hplus : c = '+'
    · have hminus : c ≠ '-' := by
        rintro rfl
        cases hplus
      rw [if_pos hplus, if_neg hminus, if_pos hplus]
      cases toNat? rest <;> rfl
    · rw [if_neg hplus, if_neg hplus]
      by_cases hminus : c = '-'
      · rw [if_pos hminus, if_pos hminus]
        cases toNat? rest <;> rfl
      · rw [if_neg hminus, if_neg hminus]
        cases toNat? (c :: rest) <;> rfl

theorem signedInt?_eq_some_iff : signedInt? s = some i ↔ IsNumeral s i := by
  rw [signedInt?_eq, Option.map_eq_some_iff, isNumeral_iff]
  simp only [toNat?_eq_some_iff]

theorem IsNumeral.ne_nil (h : IsNumeral s i) : s ≠ [] := by
  cases h with
  | unsigned digits => exact digits.ne_nil
  | plus digits => exact List.cons_ne_nil _ _
  | minus digits => exact List.cons_ne_nil _ _

theorem IsNumeral.mem (h : IsNumeral s i) :
    ∀ c ∈ s, c = '+' ∨ c = '-' ∨ isDigit c = true := by
  intro c hc
  cases h with
  | unsigned digits => exact Or.inr (Or.inr (digits.isDigit c hc))
  | plus digits =>
    rcases List.mem_cons.1 hc with rfl | hc
    · exact Or.inl rfl
    · exact Or.inr (Or.inr (digits.isDigit c hc))
  | minus digits =>
    rcases List.mem_cons.1 hc with rfl | hc
    · exact Or.inr (Or.inl rfl)
    · exact Or.inr (Or.inr (digits.isDigit c hc))

theorem not_isWhitespace_of_isDigit {c : Byte} (h : isDigit c = true) : isWhitespace c = false := by
  simp only [isDigit, Bool.and_eq_true, decide_eq_true_eq] at h
  have hlow : 48 ≤ c.toNat := UInt8.le_iff_toNat_le.1 h.1
  rw [Bool.eq_false_iff]
  intro hw
  simp only [isWhitespace, Bool.or_eq_true, Bool.and_eq_true, decide_eq_true_eq] at hw
  rcases hw with rfl | ⟨_, hw⟩
  · exact absurd hlow (by decide)
  · have hhigh : c.toNat ≤ 13 := UInt8.le_iff_toNat_le.1 hw
    omega

theorem IsNumeral.not_isWhitespace (h : IsNumeral s i) : ∀ c ∈ s, isWhitespace c = false := by
  intro c hc
  rcases h.mem c hc with rfl | rfl | hdigit
  · rfl
  · rfl
  · exact not_isWhitespace_of_isDigit hdigit

theorem IsNumeral.ne_nul (h : IsNumeral s i) : ∀ c ∈ s, c ≠ 0 := by
  rintro c hc rfl
  rcases h.mem 0 hc with hc | hc | hc <;> cases hc

end Numerals

section Entered

variable {s gap numeral hidden : Text} {i : ℤ} {o : Int32}

theorem exists_eq_beforeNul_append (s : Text) :
    ∃ hidden : Text, (∀ c ∈ hidden.head?, c = 0) ∧ s = beforeNul s ++ hidden := by
  refine ⟨s.dropWhile (· ≠ 0), ?_, List.takeWhile_append_dropWhile.symm⟩
  intro c hc
  have hnot := List.head?_dropWhile_not (· ≠ 0) s
  rw [hc] at hnot
  simpa using hnot

theorem beforeNul_append_hidden {shown : Text} (hshown : ∀ c ∈ shown, c ≠ 0)
    (hhidden : ∀ c ∈ hidden.head?, c = 0) : beforeNul (shown ++ hidden) = shown := by
  rw [beforeNul, List.takeWhile_append_of_pos (by simpa using hshown)]
  cases hidden with
  | nil => exact List.append_nil shown
  | cons c hidden =>
    rw [hhidden c rfl, List.takeWhile_cons_of_neg (by simp), List.append_nil]

theorem dropWhile_isWhitespace_append (hgap : ∀ c ∈ gap, isWhitespace c = true)
    (hnumeral : IsNumeral numeral i) : (gap ++ numeral).dropWhile isWhitespace = numeral := by
  rw [List.dropWhile_append_of_pos hgap]
  cases numeral with
  | nil => rfl
  | cons c rest =>
    rw [List.dropWhile_cons_of_neg]
    rw [hnumeral.not_isWhitespace c List.mem_cons_self]
    exact Bool.false_ne_true

theorem ne_nul_of_isWhitespace (hgap : ∀ c ∈ gap, isWhitespace c = true) : ∀ c ∈ gap, c ≠ 0 := by
  rintro c hc rfl
  cases hgap 0 hc

/-- Of a text that is read, whatever is seen is whitespace and a numeral, or nothing at all is seen.
-/
theorem enteredInt32?_eq_some_iff : enteredInt32? s = some o ↔ IsEntered s o.toInt := by
  constructor
  · intro h
    obtain ⟨hidden, hnul, hs⟩ := exists_eq_beforeNul_append s
    rw [enteredInt32?, Option.ite_none_left_eq_some] at h
    obtain ⟨hne, h⟩ := h
    by_cases hshown : s.beforeNul = []
    · rw [if_pos hshown, Option.some.injEq] at h
      rw [hshown, List.nil_append] at hs
      cases hidden with
      | nil => exact absurd hs hne
      | cons c hidden =>
        rw [hs, hnul c rfl, ← h]
        exact .nothing
    · rw [if_neg hshown, Option.bind_eq_some_iff] at h
      obtain ⟨i, hi, ho⟩ := h
      have hcut := List.takeWhile_append_dropWhile (p := isWhitespace) (l := s.beforeNul)
      rw [← int32?_eq_some_iff.1 ho, hs, ← hcut]
      refine .numeral ?_ (signedInt?_eq_some_iff.1 hi) hnul
      exact fun c hc => List.mem_takeWhile_imp hc
  · intro h
    generalize hi : o.toInt = i at h
    cases h with
    | nothing =>
      obtain rfl : o = 0 := Int32.toInt_inj.1 hi
      rfl
    | @numeral gap numeral hidden _ blank denotes nul =>
      have hshown : beforeNul (gap ++ numeral ++ hidden) = gap ++ numeral := by
        apply beforeNul_append_hidden ?_ nul
        intro c hc
        rcases List.mem_append.1 hc with hc | hc
        · exact ne_nul_of_isWhitespace blank c hc
        · exact denotes.ne_nul c hc
      have hne : gap ++ numeral ≠ [] := by simp [denotes.ne_nil]
      rw [enteredInt32?, if_neg (by simp [denotes.ne_nil]), hshown, if_neg hne,
        dropWhile_isWhitespace_append blank denotes, signedInt?_eq_some_iff.2 denotes,
        Option.bind_some]
      exact int32?_eq_some_iff.2 hi.symm

theorem IsNumeral.isEntered (h : IsNumeral s i) : IsEntered s i := by
  have hentered := @IsEntered.numeral [] s [] i nofun h nofun
  rwa [List.nil_append, List.append_nil] at hentered

/-- Nothing passes beside a numeral if there is no NUL byte and no whitespace in front. -/
theorem IsEntered.isNumeral (h : IsEntered s i) (hnul : ∀ c ∈ s, c ≠ 0)
    (hfront : ∀ c ∈ s.head?, isWhitespace c = false) : IsNumeral s i := by
  cases h with
  | nothing => exact absurd rfl (hnul 0 List.mem_cons_self)
  | @numeral gap numeral hidden _ blank denotes nul =>
    have hhidden : hidden = [] := by
      cases hidden with
      | nil => rfl
      | cons c hidden =>
        refine absurd (nul c rfl) (hnul c ?_)
        exact List.mem_append_right _ List.mem_cons_self
    have hgap : gap = [] := by
      cases gap with
      | nil => rfl
      | cons c gap =>
        have hblank := blank c List.mem_cons_self
        rw [hfront c rfl] at hblank
        cases hblank
    rw [hhidden, hgap, List.nil_append, List.append_nil]
    exact denotes

theorem exists_toInt_iff {p : ℤ → Prop} :
    (∃ o : Int32, p o.toInt) ↔ ∃ i, p i ∧ -2 ^ 31 ≤ i ∧ i ≤ 2 ^ 31 - 1 := by
  constructor
  · rintro ⟨o, ho⟩
    have hlow := o.le_toInt
    have hhigh := o.toInt_lt
    exact ⟨o.toInt, ho, by omega, by omega⟩
  · rintro ⟨i, hi, hlow, hhigh⟩
    have hvalue : (Int32.ofInt i).toInt = i :=
      Int32.toInt_ofInt_of_le (by omega) (by omega)
    exact ⟨Int32.ofInt i, hvalue.symm ▸ hi⟩

end Entered

section Scan

/-- A number found at the front of a text, if 64 bits hold it, and what follows it. -/
structure Scan where
  value? : Option ℤ
  rest : Text

/-- Whitespace, a sign and as many digits as there are. Without a digit nothing is consumed, and the
number is zero. -/
def scanInt64 (s : Text) : Scan :=
  let signed := splitSign (s.dropWhile isWhitespace)
  let digits := signed.2.takeWhile isDigit
  if digits = [] then ⟨some 0, s⟩
  else ⟨int64? (withSign signed.1 (digitsValue digits)), signed.2.dropWhile isDigit⟩

/-- Some text is given, nothing seen of it is left behind the number, and 32 bits hold the number.
-/
def scannedInt32? (s : Text) : Option Int32 :=
  if s = [] then none
  else
    let scan := scanInt64 s.beforeNul
    if scan.rest ≠ [] then none else scan.value?.bind int32?

theorem toNat?_eq (s : Text) : toNat? s =
    if s.takeWhile isDigit = [] ∨ s.dropWhile isDigit ≠ [] then none
    else some (digitsValue (s.takeWhile isDigit)) := by
  have hcut := List.takeWhile_append_dropWhile (p := isDigit) (l := s)
  by_cases hall : s.all isDigit = true
  · have hdigits : s.takeWhile isDigit = s :=
      List.takeWhile_eq_self_iff.2 fun c hc => List.all_eq_true.1 hall c hc
    have hrest : s.dropWhile isDigit = [] := by simpa [hdigits] using hcut
    rw [toNat?, hdigits, hrest]
    by_cases hs : s = [] <;> simp [hs, hall]
  · have hrest : s.dropWhile isDigit ≠ [] := by
      rw [Ne, List.dropWhile_eq_nil_iff, ← List.all_eq_true]
      exact hall
    rw [toNat?, if_neg fun h => hall h.2, if_pos (Or.inr hrest)]

theorem int64?_bind_int32? (i : ℤ) : (int64? i).bind int32? = int32? i := by
  unfold int64?
  split_ifs with hrange
  · rfl
  · rw [int32?, if_neg (by omega)]
    rfl

/-- A text of which nothing is seen is zero to both. Otherwise both go by the digits behind the
sign. -/
theorem scannedInt32?_eq (s : Text) : scannedInt32? s = enteredInt32? s := by
  unfold scannedInt32? enteredInt32? scanInt64
  by_cases hs : s = []
  · rw [if_pos hs, if_pos hs]
  by_cases hshown : s.beforeNul = []
  · rw [if_neg hs, if_neg hs, hshown]
    rfl
  rw [if_neg hs, if_neg hs, if_neg hshown, signedInt?_eq, toNat?_eq]
  generalize splitSign (s.beforeNul.dropWhile isWhitespace) = signed
  dsimp only
  by_cases hdigits : signed.2.takeWhile isDigit = []
  · -- nothing is consumed, so that all of what is seen is left
    rw [if_pos hdigits, if_pos hshown, if_pos (Or.inl hdigits)]
    rfl
  rw [if_neg hdigits]
  dsimp only
  by_cases hrest : signed.2.dropWhile isDigit = []
  · rw [if_neg (not_not.2 hrest), if_neg (not_or.2 ⟨hdigits, not_not.2 hrest⟩),
      int64?_bind_int32?]
    rfl
  · rw [if_pos hrest, if_pos (Or.inr hrest)]
    rfl

end Scan

/-- The numerals of 32-bit numbers are read, and beside them only what has whitespace in front, or a
NUL byte. A text that neither starts with whitespace nor holds a NUL byte is read exactly if it is,
from its first byte to its last, a numeral of a 32-bit number, and as this number. -/
theorem entered_iff_numeral (s : Text) :
    scannedInt32? s = enteredInt32? s ∧
      (∀ o, enteredInt32? s = some o ↔ IsEntered s o.toInt) ∧
      (∀ o, IsNumeral s o.toInt → enteredInt32? s = some o) ∧
      ((∀ c ∈ s, c ≠ 0) → (∀ c ∈ s.head?, isWhitespace c = false) →
        (∀ o, enteredInt32? s = some o ↔ IsNumeral s o.toInt) ∧
          ((enteredInt32? s).isSome = true ↔
            ∃ i, IsNumeral s i ∧ -2 ^ 31 ≤ i ∧ i ≤ 2 ^ 31 - 1)) := by
  refine ⟨scannedInt32?_eq s, fun o => enteredInt32?_eq_some_iff, ?_, ?_⟩
  · exact fun o h => enteredInt32?_eq_some_iff.2 h.isEntered
  · intro hnul hfront
    have hstrict (o : Int32) : enteredInt32? s = some o ↔ IsNumeral s o.toInt := by
      rw [enteredInt32?_eq_some_iff]
      exact ⟨fun h => h.isNumeral hnul hfront, IsNumeral.isEntered⟩
    refine ⟨hstrict, ?_⟩
    rw [Option.isSome_iff_exists, ← exists_toInt_iff]
    exact exists_congr hstrict

/-- Leading zeros belong to the numeral, here of the least number that is in range. -/
theorem entered_iff_numeral_least :
    let s : Text := "-02147483648"
    (∀ c ∈ s, c ≠ 0) ∧ (∀ c ∈ s.head?, isWhitespace c = false) ∧
      enteredInt32? s = some (-2147483648) ∧ IsNumeral s (-2147483648) := by
  intro s
  have hnul : ∀ c ∈ s, c ≠ 0 := by
    have hall : s.all (· ≠ 0) = true := by decide
    exact fun c hc => of_decide_eq_true (List.all_eq_true.1 hall c hc)
  have hfront : ∀ c ∈ s.head?, isWhitespace c = false := by
    rintro c ⟨⟩
    rfl
  have hread : enteredInt32? s = some (-2147483648) := by decide
  exact ⟨hnul, hfront, hread, (((entered_iff_numeral s).2.2.2 hnul hfront).1 _).1 hread⟩

/-- Whitespace in front and bytes behind a NUL byte are no part of a numeral, and are let pass. -/
theorem entered_beside_numeral :
    enteredInt32? " 5" = some 5 ∧ enteredInt32? "12\x00abc" = some 12 ∧ enteredInt32? "\x00" = some 0 ∧
      (∀ i, ¬ IsNumeral " 5" i) ∧ (∀ i, ¬ IsNumeral "12\x00abc" i) ∧ ∀ i, ¬ IsNumeral "\x00" i := by
  refine ⟨by decide, by decide, by decide, ?_, ?_, ?_⟩
  · intro i h
    cases h.not_isWhitespace ' ' (by decide)
  · intro i h
    exact h.ne_nul 0 (by decide) rfl
  · intro i h
    exact h.ne_nul 0 (by decide) rfl

end StableOrdinals.Text
