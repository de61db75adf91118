/-!
# Text

Everything the library reads, stores and prints is `Text`, a list of bytes in UTF-8. A string
literal stands for its bytes, and so does a character literal below U+0080.

`split` cuts a text at every separator and `words` keeps the pieces that are not empty.
`join_split` and `split_of_forall` say that cutting loses nothing and cuts nowhere else.
-/

namespace StableOrdinals

abbrev Byte := UInt8

abbrev Text := List Byte

/-- Only for characters below U+0080, whose encoding is one byte. -/
instance : Coe Char Byte := ⟨Char.toUInt8⟩

namespace Text

def ofString (s : String) : Text := s.toList.flatMap String.utf8EncodeChar

instance : Coe String Text := ⟨ofString⟩

/-- Space, tab, line feed and carriage return. -/
def isBlank (c : Byte) : Bool := c = ' ' || c = '\t' || c = '\n' || c = '\r'

/-- Space and the control characters from tab to carriage return. -/
def isWhitespace (c : Byte) : Bool := c = ' ' || ('\t' ≤ c && c ≤ '\r')

def isDigit (c : Byte) : Bool := '0' ≤ c && c ≤ '9'

def isLetter (c : Byte) : Bool := ('a' ≤ c && c ≤ 'z') || ('A' ≤ c && c ≤ 'Z')

/-- What stands before the first NUL byte, which is all that the operating system sees. -/
def beforeNul (s : Text) : Text := s.takeWhile (· ≠ 0)

def dropBlanksRight (s : Text) : Text := (s.reverse.dropWhile isBlank).reverse

/-- Without the blanks at both ends. -/
def trim (s : Text) : Text := dropBlanksRight (s.dropWhile isBlank)

/-- Cut at every byte that satisfies `sep`: one piece more than there are separators. -/
def split (sep : Byte → Bool) : Text → List Text
  | [] => [[]]
  | c :: s =>
    if sep c then [] :: split sep s
    else
      match split sep s with
      | [] => [[c]]
      | piece :: pieces => (c :: piece) :: pieces

/-- The maximal runs of bytes that are no separators. -/
def words (sep : Byte → Bool) (s : Text) : List Text := (split sep s).filter (!·.isEmpty)

def join (sep : Text) (pieces : List Text) : Text := sep.intercalate pieces

/-- Join with single spaces. An empty word adds a space only once something stands before it, so
empty words at the front leave no trace. -/
def joinWords (ws : List Text) : Text := join " " (ws.dropWhile (·.isEmpty))

/-- Pad with spaces on the right to at least `width` bytes. -/
def padRight (width : Nat) (s : Text) : Text := s.rightpad width ' '

theorem split_ne_nil (sep : Byte → Bool) (s : Text) : split sep s ≠ [] := by
  cases s with
  | nil => simp [split]
  | cons c s => simp only [split]; split <;> (try split) <;> simp

@[simp] theorem split_nil (sep : Byte → Bool) : split sep [] = [[]] := rfl

theorem split_cons_of_sep {sep : Byte → Bool} {c : Byte} (h : sep c = true) (s : Text) :
    split sep (c :: s) = [] :: split sep s := by simp [split, h]

theorem split_cons_of_not_sep {sep : Byte → Bool} {c : Byte} (h : sep c = false) (s : Text) :
    split sep (c :: s) = (c :: (split sep s).headD []) :: (split sep s).tail := by
  have hs := split_ne_nil sep s
  simp only [split, h]
  cases hp : split sep s with
  | nil => exact absurd hp hs
  | cons piece pieces => simp

theorem split_append_cons {sep : Byte → Bool} {c : Byte} (h : sep c = true) (s t : Text) :
    split sep (s ++ c :: t) = split sep s ++ split sep t := by
  induction s with
  | nil => rw [List.nil_append, split_cons_of_sep h]; rfl
  | cons d s ih =>
    by_cases hd : sep d = true
    · rw [List.cons_append, split_cons_of_sep hd, split_cons_of_sep hd, ih, List.cons_append]
    · rw [Bool.not_eq_true] at hd
      rw [List.cons_append, split_cons_of_not_sep hd, split_cons_of_not_sep hd, ih]
      cases hs : split sep s with
      | nil => exact absurd hs (split_ne_nil sep s)
      | cons piece pieces => rfl

theorem split_of_forall {sep : Byte → Bool} {s : Text} (h : ∀ c ∈ s, sep c = false) :
    split sep s = [s] := by
  induction s with
  | nil => rfl
  | cons c s ih =>
    rw [split_cons_of_not_sep (h c (by simp)), ih fun d hd => h d (by simp [hd])]
    rfl

theorem sep_of_mem_split {sep : Byte → Bool} {s piece : Text} (h : piece ∈ split sep s) :
    ∀ c ∈ piece, sep c = false := by
  induction s generalizing piece with
  | nil => simp at h; simp [h]
  | cons c s ih =>
    by_cases hc : sep c = true
    · rw [split_cons_of_sep hc] at h
      rcases List.mem_cons.1 h with rfl | h
      · simp
      · exact ih h
    · rw [Bool.not_eq_true] at hc
      rw [split_cons_of_not_sep hc] at h
      cases hp : split sep s with
      | nil => exact absurd hp (split_ne_nil sep s)
      | cons first pieces =>
        rw [hp] at h ih
        rcases List.mem_cons.1 h with rfl | h
        · intro d hd
          rcases List.mem_cons.1 hd with rfl | hd
          · exact hc
          · exact ih (List.mem_cons_self) d hd
        · exact ih (List.mem_cons_of_mem first h)

theorem join_split (b : Byte) (s : Text) : join [b] (split (· = b) s) = s := by
  induction s with
  | nil => rfl
  | cons c s ih =>
    by_cases hc : c = b
    · subst hc
      rw [split_cons_of_sep (by simp)]
      cases hp : split (· = c) s with
      | nil => exact absurd hp (split_ne_nil _ s)
      | cons first pieces => rw [hp] at ih; simpa [join, List.intercalate] using ih
    · rw [split_cons_of_not_sep (by simp [hc])]
      cases hp : split (· = b) s with
      | nil => exact absurd hp (split_ne_nil _ s)
      | cons first pieces =>
        rw [hp] at ih
        cases pieces <;> simpa [join, List.intercalate] using ih

theorem dropBlanksRight_of_getLast {s : Text} (h : ∀ c ∈ s.getLast?, isBlank c = false) :
    dropBlanksRight s = s := by
  unfold dropBlanksRight
  cases hr : s.reverse with
  | nil => simp_all
  | cons c r =>
    have hs : s.getLast? = some c := by
      rw [← List.head?_reverse, hr]; rfl
    rw [List.dropWhile_cons_of_neg (by simp [h c (by simp [hs])]), ← hr, List.reverse_reverse]

theorem trim_of_ends {s : Text} (h₁ : ∀ c ∈ s.head?, isBlank c = false)
    (h₂ : ∀ c ∈ s.getLast?, isBlank c = false) : trim s = s := by
  have : s.dropWhile isBlank = s := by
    cases s with
    | nil => rfl
    | cons c s => rw [List.dropWhile_cons_of_neg (by simp [h₁ c (by simp)])]
  rw [trim, this, dropBlanksRight_of_getLast h₂]

theorem beforeNul_of_forall {s : Text} (h : ∀ c ∈ s, c ≠ 0) : beforeNul s = s := by
  induction s with
  | nil => rfl
  | cons c s ih =>
    have hs : beforeNul s = s := ih fun d hd => h d (by simp [hd])
    rw [beforeNul, List.takeWhile_cons_of_pos (by simpa using h c (by simp))]
    exact congrArg _ hs

end Text

end StableOrdinals
