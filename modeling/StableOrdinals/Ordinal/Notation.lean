import StableOrdinals.Ordinal
import StableOrdinals.Text.Decimal

/-!
# Written ordinals

Sets are shown in braces and lists in brackets. `enteredOrdinals?` reads the ordinals that a person
enters, separated by commas, spaces or tabs in any number.
-/

namespace StableOrdinals

namespace Text

def commaSeparated (ordinals : List Ordinal) : Text :=
  join ", " (ordinals.map fun o => ofInt o.toInt)

def ofOrdinals (ordinals : List Ordinal) : Text := "[" ++ commaSeparated ordinals ++ "]"

def ofOrdinalSet (ordinals : OrdinalSet) : Text :=
  "\x7b" ++ commaSeparated ordinals.toList ++ "\x7d"

def isOrdinalSeparator (c : Byte) : Bool := c = ',' || c = ' ' || c = '\t'

/-- All or nothing: one word that is no number makes the whole list unreadable. -/
def enteredOrdinals? (s : Text) : Option (List Ordinal) :=
  (words isOrdinalSeparator s).mapM enteredInt32?

end Text

end StableOrdinals
