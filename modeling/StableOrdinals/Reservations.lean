import Std.Data.ExtTreeMap
import StableOrdinals.Allocation
import StableOrdinals.Reservations.Encoding

/-!
# Reservations in annotations

A workload carries its reserved ordinals in a bag of annotations, encoded under one key. No bag, no
such key and the empty set all mean that nothing is reserved; a value that does not decode counts
as the empty set and gives a warning whenever it is read.

`read` and `write` are the view and its replacement; `add`, `remove` and `clear` are written through
them. A set that cannot be encoded leaves the bag as it was. The allocation of a workload is that of
its replicas and what `read` finds.
-/

namespace StableOrdinals

abbrev Annotations := Std.ExtTreeMap Text Text

/-- The annotations of an object, or `none` for an object without a bag. -/
abbrev Bag := Option Annotations

namespace Reservations

/-- The key in use unless another one is configured. -/
def defaultKey : Text := "delete-slots"

/-- How much of a malformed value a warning shows. -/
def previewBytes : Nat := 200

def value? (key : Text) (bag : Bag) : Option Text := bag.bind fun annotations => annotations[key]?

def read (key : Text) (bag : Bag) : OrdinalSet := ((value? key bag).bind decode).getD ∅

/-- What one reading of the bag leaves in the log. -/
def warnings (key : Text) (bag : Bag) : List Text :=
  match value? key bag with
  | none => []
  | some value =>
    if (decode value).isSome then []
    else ["[reservations] ignoring malformed " ++ key ++ " annotation: " ++ value.take previewBytes]

/-- The empty set removes the key, and does not create a bag to do so. -/
def write (key : Text) (slots : OrdinalSet) (bag : Bag) : Except EncodingError Bag :=
  if slots.isEmpty then .ok (bag.map (·.erase key))
  else (encode slots).map fun value => some ((bag.getD ∅).insert key value)

def add (key : Text) (slots : OrdinalSet) (bag : Bag) : Except EncodingError Bag :=
  write key (read key bag ∪ slots) bag

def remove (key : Text) (slots : OrdinalSet) (bag : Bag) : Except EncodingError Bag :=
  write key (read key bag \ slots) bag

def clear (key : Text) (bag : Bag) : Except EncodingError Bag := write key ∅ bag

def active (key : Text) (replicas : Int32) (bag : Bag) : Except AllocationError OrdinalSet :=
  Allocation.active replicas (read key bag)

def maxActive (key : Text) (replicas : Int32) (bag : Bag) :
    Except AllocationError (Option Ordinal) :=
  Allocation.maxActive replicas (read key bag)

def minActive (key : Text) (replicas : Int32) (bag : Bag) :
    Except AllocationError (Option Ordinal) :=
  Allocation.minActive replicas (read key bag)

def scaleOut (key : Text) (current target : Int32) (bag : Bag) :
    Except AllocationError (List Ordinal) :=
  Allocation.scaleOut current target (read key bag)

end Reservations

end StableOrdinals
