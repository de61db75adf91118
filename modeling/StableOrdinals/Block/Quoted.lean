import StableOrdinals.Text

/-!
# Quoted text

Between double quotes a backslash starts an escape, between single quotes a quote is written twice.
`unquote?` and `unquoteSingle?` read the text up to the closing quote and return it with what
follows. `quote` writes double quotes, and `unquote?_escaped` says that any text is read back.
-/

namespace StableOrdinals.Block

open Text

def hexDigit (n : Nat) : Byte := if n < 10 then UInt8.ofNat (48 + n) else UInt8.ofNat (87 + n)

def hexValue? (c : Byte) : Option Nat :=
  if isDigit c then some (c.toNat - 48)
  else if 'a' ≤ c && c ≤ 'f' then some (c.toNat - 87)
  else if 'A' ≤ c && c ≤ 'F' then some (c.toNat - 55)
  else none

/-- The letter that stands behind a backslash in place of a character. -/
def letter? (c : Byte) : Option Byte :=
  if c = '"' ∨ c = '\\' then some c
  else if c = '\n' then some 'n'
  else if c = '\t' then some 't'
  else if c = '\r' then some 'r'
  else none

/-- Quotes, backslashes and control characters are escaped, line breaks among them. -/
def escape (c : Byte) : Text :=
  match letter? c with
  | some letter => ['\\', letter]
  | none =>
    if c < 32 ∨ c = 127 then ['\\', 'x', hexDigit (c.toNat / 16), hexDigit (c.toNat % 16)]
    else [c]

def quote (s : Text) : Text := "\"" ++ s.flatMap escape ++ "\""

def escaped? (letter : Byte) : Option Byte :=
  if letter = '"' ∨ letter = '\\' then some letter
  else if letter = 'n' then some '\n'
  else if letter = 't' then some '\t'
  else if letter = 'r' then some '\r'
  else none

/-- The encoding of the character U+00hl for two hexadecimal digits. -/
def hexEscaped? (h l : Byte) : Option Text := do
  let high ← hexValue? h
  let low ← hexValue? l
  some (String.utf8EncodeChar (Char.ofNat (16 * high + low)))

def prepend (t : Text) (p : Text × Text) : Text × Text := (t ++ p.1, p.2)

/-- Reads from behind the opening quote. -/
def unquote? : Text → Option (Text × Text)
  | [] => none
  | c :: s =>
    if c = '"' then some ([], s)
    else if c = '\\' then
      match s with
      | [] => none
      | letter :: s =>
        if letter = 'x' then
          match s with
          | h :: l :: s => (hexEscaped? h l).bind fun t => (unquote? s).map (prepend t)
          | _ => none
        else (escaped? letter).bind fun d => (unquote? s).map (prepend [d])
    else (unquote? s).map (prepend [c])

def unquoteSingle? : Text → Option (Text × Text)
  | [] => none
  | c :: s =>
    if c = '\'' then
      match s with
      | [] => some ([], [])
      | d :: s => if d = '\'' then (unquoteSingle? s).map (prepend [d]) else some ([], d :: s)
    else (unquoteSingle? s).map (prepend [c])

theorem hexEscaped?_hexDigit :
    ∀ n < 128, hexEscaped? (hexDigit (n / 16)) (hexDigit (n % 16)) = some [UInt8.ofNat n] := by
  decide

theorem escaped?_of_letter? {c letter : Byte} (h : letter? c = some letter) :
    letter ≠ 'x' ∧ escaped? letter = some c := by
  unfold letter? at h
  split at h
  · rename_i hc
    cases h
    rcases hc with rfl | rfl <;> decide
  repeat' split at h
  all_goals (try cases h) <;> subst_vars <;> decide

theorem unquote?_escape (c : Byte) (s : Text) :
    unquote? (escape c ++ s) = (unquote? s).map (prepend [c]) := by
  unfold escape
  split
  · rename_i letter h
    obtain ⟨hx, he⟩ := escaped?_of_letter? h
    have : ('\\' : Byte) ≠ '"' := by decide
    simp only [List.cons_append, List.nil_append]
    rw [unquote?.eq_def]
    simp [hx, he, this]
  · rename_i h
    split
    · rename_i hc
      have hc : c.toNat < 128 := by
        rcases hc with hc | rfl
        · exact Nat.lt_trans (UInt8.lt_iff_toNat_lt.1 hc) (by decide)
        · decide
      have : ('\\' : Byte) ≠ '"' := by decide
      simp [unquote?, hexEscaped?_hexDigit _ hc, this]
    · have hq : c ≠ '"' := by rintro rfl; cases h
      have hb : c ≠ '\\' := by rintro rfl; cases h
      simp only [List.singleton_append]
      rw [unquote?.eq_def]
      simp [hq, hb]

theorem unquote?_escaped (s rest : Text) :
    unquote? (s.flatMap escape ++ "\"" ++ rest) = some (s, rest) := by
  induction s with
  | nil =>
    change unquote? (('"' : Byte) :: rest) = _
    rw [unquote?.eq_def]
    simp
  | cons c s ih =>
    rw [List.flatMap_cons, List.append_assoc, List.append_assoc, unquote?_escape,
      ← List.append_assoc, ih]
    rfl

theorem quote_eq (s : Text) : quote s = ('"' : Byte) :: (s.flatMap escape ++ [('"' : Byte)]) := rfl

theorem le_hexDigit : ∀ n < 16, 32 ≤ hexDigit n := by decide

theorem le_of_mem_escape {c d : Byte} (h : d ∈ escape c) : 32 ≤ d := by
  unfold escape at h
  split at h
  · rename_i letter hletter
    have hd : d = '\\' ∨ d = letter := by simpa using h
    rcases hd with rfl | rfl
    · decide
    · unfold letter? at hletter
      split at hletter
      · rename_i hc
        cases hletter
        rcases hc with rfl | rfl <;> decide
      repeat' split at hletter
      all_goals (try cases hletter) <;> decide
  · split at h
    · have := c.toNat_lt
      have hhigh := le_hexDigit (c.toNat / 16) (by omega)
      have hlow := le_hexDigit (c.toNat % 16) (by omega)
      have hd : d = '\\' ∨ d = 'x' ∨ d = hexDigit (c.toNat / 16) ∨ d = hexDigit (c.toNat % 16) := by
        simpa using h
      rcases hd with rfl | rfl | rfl | rfl
      · decide
      · decide
      · exact hhigh
      · exact hlow
    · rename_i hc
      rw [List.mem_singleton] at h
      subst h
      exact UInt8.not_lt.1 fun hlt => hc (Or.inl hlt)

theorem le_of_mem_quote {s : Text} {d : Byte} (h : d ∈ quote s) : 32 ≤ d := by
  rw [quote_eq] at h
  simp only [List.mem_cons, List.mem_append, List.mem_flatMap, List.not_mem_nil, or_false] at h
  rcases h with rfl | ⟨c, _, hd⟩ | rfl
  · decide
  · exact le_of_mem_escape hd
  · decide

end StableOrdinals.Block
