import StableOrdinals.Ordinal.Notation
import StableOrdinals.Reservations.Scanner

/-!
# Encoded reservations

A set of reserved ordinals is kept as a JSON array of integers, such as `[2, 4]`. `encode` writes
the set in ascending order. `decode` accepts every JSON array of 32-bit integers, in any order and
with blanks wherever JSON allows them, and nothing else: only what the scanner lets through is cut
at the commas and read.
-/

namespace StableOrdinals

structure EncodingError where
  cause : Text
  deriving DecidableEq, Repr

def EncodingError.message (e : EncodingError) : Text :=
  "Failed to encode reserved slots: " ++ e.cause

namespace Reservations

open Text

/-- How a sequence of integers is emitted. There is none that is refused. -/
def emit (ordinals : List Ordinal) : Except Text Text := .ok (ofOrdinals ordinals)

def encode (slots : OrdinalSet) : Except EncodingError Text :=
  (emit slots.toList).mapError EncodingError.mk

/-- The ordinals of an array of integers, if all of them are in range. -/
def slots? (value : Text) : Option (List Ordinal) :=
  let body := ((trim value).drop 1).dropLast
  if body.all isBlank then some []
  else (split (· = ',') body).mapM fun s => toInt32? (trim s)

def decode (value : Text) : Option OrdinalSet :=
  if isIntegerArray value then (slots? value).map OrdinalSet.ofList else none

end Reservations

end StableOrdinals
