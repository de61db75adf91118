import StableOrdinals.Text

/-!
# The scanner

`isIntegerArray` says whether a text is a JSON array of integers, of any size. It goes over the text
once, with an index: each function answers the index behind what it has passed over, or `none` where
it does not find what it looks for.
-/

namespace StableOrdinals.Reservations

open Text

/-- The index behind the bytes from `i` on that satisfy `p`. -/
def skip (p : Byte → Bool) (s : Text) (i : Nat) : Nat :=
  if h : i < s.length then if p s[i] then skip p s (i + 1) else i else i

/-- The index behind the digits at `i`. A zero in front ends them. -/
def naturalAt? (s : Text) (i : Nat) : Option Nat :=
  if s[i]?.any isDigit = false then none
  else if s[i]? = some ('0' : Byte) then some (i + 1)
  else some (skip isDigit s i)

def integerAt? (s : Text) (i : Nat) : Option Nat :=
  naturalAt? s (if s[i]? = some ('-' : Byte) then i + 1 else i)

theorem le_skip (p : Byte → Bool) (s : Text) (i : Nat) : i ≤ skip p s i := by
  fun_induction skip p s i with
  | case1 i h hp ih => omega
  | case2 i h hp => exact Nat.le_refl i
  | case3 i h => exact Nat.le_refl i

theorem lt_skip {p : Byte → Bool} {s : Text} {i : Nat} (h : s[i]?.any p = true) :
    i < skip p s i := by
  obtain ⟨c, hc, hp⟩ := (Option.any_eq_true _ _).1 h
  obtain ⟨hi, rfl⟩ := List.getElem?_eq_some_iff.1 hc
  rw [skip, dif_pos hi, if_pos hp]
  exact le_skip p s (i + 1)

theorem lt_of_naturalAt? {s : Text} {i j : Nat} (h : naturalAt? s i = some j) : i < j := by
  unfold naturalAt? at h
  split at h
  · cases h
  · rename_i hdigit
    have := lt_skip (Bool.not_eq_false _ ▸ hdigit)
    split at h <;> cases h <;> omega

theorem lt_of_integerAt? {s : Text} {i j : Nat} (h : integerAt? s i = some j) : i < j := by
  have hlt := lt_of_naturalAt? h
  split at hlt <;> omega

/-- The index behind the bracket that closes the integers which start at `i`. -/
def itemsAt? (s : Text) (i : Nat) : Option Nat :=
  match hi : integerAt? s i with
  | none => none
  | some j =>
    let k := skip isBlank s j
    if s[k]? = some (']' : Byte) then some (k + 1)
    else if hk : s[k]? = some (',' : Byte) then itemsAt? s (skip isBlank s (k + 1))
    else none
termination_by s.length - i
decreasing_by
  have hij : i < j := lt_of_integerAt? hi
  have hjk : j ≤ k := le_skip isBlank s j
  have hk' : k < s.length := (List.getElem?_eq_some_iff.1 hk).1
  have := le_skip isBlank s (k + 1)
  change s.length - skip isBlank s (k + 1) < s.length - i
  omega

/-- The index behind the bracket that closes an array, where `i` is the index behind its first one.
-/
def bodyAt? (s : Text) (i : Nat) : Option Nat :=
  let j := skip isBlank s i
  if s[j]? = some (']' : Byte) then some (j + 1) else itemsAt? s j

def isIntegerArray (s : Text) : Bool :=
  let i := skip isBlank s 0
  s[i]? = some ('[' : Byte) && (bodyAt? s (i + 1)).any fun j => skip isBlank s j = s.length

end StableOrdinals.Reservations
