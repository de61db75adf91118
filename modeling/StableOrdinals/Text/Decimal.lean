import StableOrdinals.Text

/-!
# Decimal numbers

`ofNat` and `ofInt` write a number in decimal. `toNat?` and `toInt?` read a text that is a number
from end to end, and `toInt32?`, `toUInt64?` also ask that it is in range. What is written is read
back: `toNat?_ofNat`, `toInt?_ofInt`, `toInt32?_ofInt` and `toUInt64?_ofNat`.

`enteredInt32?` reads a number as a person enters it: whitespace may stand in front, either sign
is accepted, and nothing from a NUL byte on is seen.
-/

namespace StableOrdinals.Text

def ofNat (n : Nat) : Text := (Nat.toDigits 10 n).map Char.toUInt8

def ofInt : Int → Text
  | .ofNat n => ofNat n
  | .negSucc n => '-' :: ofNat (n + 1)

def digitsValue (digits : Text) : Nat := digits.foldl (fun n d => 10 * n + (d.toNat - 48)) 0

def toNat? (s : Text) : Option Nat :=
  if s ≠ [] ∧ s.all isDigit then some (digitsValue s) else none

/-- An optional minus sign and digits. -/
def toInt? (s : Text) : Option Int :=
  match s with
  | [] => none
  | c :: rest =>
    if c = '-' then (toNat? rest).map fun n => -(n : Int) else (toNat? s).map fun n => n

def int32? (i : Int) : Option Int32 :=
  if -2147483648 ≤ i ∧ i ≤ 2147483647 then some (Int32.ofInt i) else none

def toInt32? (s : Text) : Option Int32 := (toInt? s).bind int32?

def toUInt64? (s : Text) : Option UInt64 :=
  (toNat? s).bind fun n => if n ≤ 18446744073709551615 then some (UInt64.ofNat n) else none

/-- An optional sign of either kind and digits. -/
def signedInt? (s : Text) : Option Int :=
  match s with
  | [] => none
  | c :: rest => if c = '+' then (toNat? rest).map fun n => n else toInt? s

/-- A number as entered by a person. A text that starts with NUL shows nothing at all, which counts
as zero; the empty text is no number. -/
def enteredInt32? (s : Text) : Option Int32 :=
  if s = [] then none
  else if s.beforeNul = [] then some 0
  else (signedInt? (s.beforeNul.dropWhile isWhitespace)).bind int32?

theorem int32?_toInt (n : Int32) : int32? n.toInt = some n := by
  have := n.le_toInt
  have := n.toInt_lt
  simp only [int32?]
  rw [if_pos (by omega), Int32.ofInt_toInt]

theorem digitChar_toUInt8 : ∀ d < 10, isDigit (Nat.digitChar d).toUInt8 = true ∧
    ((Nat.digitChar d).toUInt8.toNat - 48 = d) := by decide

theorem ofNat_of_ten_le {n : Nat} (h : 10 ≤ n) :
    ofNat n = ofNat (n / 10) ++ [(Nat.digitChar (n % 10)).toUInt8] := by
  simp [ofNat, Nat.toDigits_of_base_le (by decide : 1 < 10) h]

theorem ofNat_of_lt_ten {n : Nat} (h : n < 10) : ofNat n = [(Nat.digitChar n).toUInt8] := by
  simp [ofNat, Nat.toDigits_of_lt_base h]

theorem digitsValue_append_singleton (digits : Text) (d : Byte) :
    digitsValue (digits ++ [d]) = 10 * digitsValue digits + (d.toNat - 48) := by
  simp [digitsValue]

theorem digitsValue_ofNat (n : Nat) : digitsValue (ofNat n) = n := by
  induction n using Nat.strongRecOn with
  | ind n ih =>
    by_cases h : n < 10
    · rw [ofNat_of_lt_ten h]
      simpa [digitsValue] using (digitChar_toUInt8 n h).2
    · rw [ofNat_of_ten_le (by omega), digitsValue_append_singleton, ih (n / 10) (by omega),
        (digitChar_toUInt8 (n % 10) (by omega)).2]
      omega

theorem isDigit_of_mem_ofNat {n : Nat} {c : Byte} (h : c ∈ ofNat n) : isDigit c = true := by
  induction n using Nat.strongRecOn with
  | ind n ih =>
    by_cases hn : n < 10
    · rw [ofNat_of_lt_ten hn, List.mem_singleton] at h
      exact h ▸ (digitChar_toUInt8 n hn).1
    · rw [ofNat_of_ten_le (by omega), List.mem_append, List.mem_singleton] at h
      rcases h with h | rfl
      · exact ih (n / 10) (by omega) h
      · exact (digitChar_toUInt8 (n % 10) (by omega)).1

theorem ofNat_ne_nil (n : Nat) : ofNat n ≠ [] := by
  by_cases h : n < 10
  · simp [ofNat_of_lt_ten h]
  · simp [ofNat_of_ten_le (Nat.le_of_not_lt h)]

@[simp] theorem toNat?_ofNat (n : Nat) : toNat? (ofNat n) = some n := by
  have h : (ofNat n).all isDigit = true := List.all_eq_true.2 fun _ hc => isDigit_of_mem_ofNat hc
  simp [toNat?, ofNat_ne_nil, h, digitsValue_ofNat]

theorem toInt?_ofNat (n : Nat) : toInt? (ofNat n) = some (n : Int) := by
  have h := toNat?_ofNat n
  cases hs : ofNat n with
  | nil => exact absurd hs (ofNat_ne_nil n)
  | cons c rest =>
    have hc : c ≠ '-' := by
      have := isDigit_of_mem_ofNat (n := n) (c := c) (by simp [hs])
      rintro rfl
      revert this
      decide
    rw [hs] at h
    simp [toInt?, hc, h]

@[simp] theorem toInt?_ofInt (i : Int) : toInt? (ofInt i) = some i := by
  cases i with
  | ofNat n => exact toInt?_ofNat n
  | negSucc n => simp [ofInt, toInt?, Int.negSucc_eq]

@[simp] theorem toInt32?_ofInt (n : Int32) : toInt32? (ofInt n.toInt) = some n := by
  simp [toInt32?, int32?_toInt]

@[simp] theorem toUInt64?_ofNat (n : UInt64) : toUInt64? (ofNat n.toNat) = some n := by
  have := n.toNat_lt
  simp [toUInt64?]
  omega

end StableOrdinals.Text
