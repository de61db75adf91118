import StableOrdinals.Text

/-!
# Paths

A path is text whose components stand between slashes. Paths are joined and cut as they are
written, and never normalised.
-/

namespace StableOrdinals

abbrev Path := Text

namespace Path

def isSlash (c : Byte) : Bool := c = '/'

def isDot (c : Byte) : Bool := c = '.'

def isAbsolute (p : Path) : Bool := p.head? = some ('/' : Byte)

/-- An absolute right side replaces the left. A slash is added only between two components. -/
def append (left right : Path) : Path :=
  if right.isAbsolute ∨ left = [] then right
  else if left.getLast? = some ('/' : Byte) then left ++ right
  else left ++ "/" ++ right

def components (p : Path) : List Text := Text.split isSlash p

/-- Neither empty nor one of the dots, which stand for a directory on the way. -/
def isName (component : Text) : Bool := component ≠ [] && component ≠ "." && component ≠ ".."

/-- What follows the last slash. -/
def fileName (p : Path) : Text := (p.reverse.takeWhile (!isSlash ·)).reverse

/-- Up to and including the last slash. -/
def beforeFileName (p : Path) : Path := (p.reverse.dropWhile (!isSlash ·)).reverse

/-- Without the last component and the slashes in front of it. The parent of the root is the root,
and a path of a single component has the empty parent. -/
def parent (p : Path) : Path :=
  if p.all isSlash then p
  else if p.beforeFileName ≠ [] ∧ p.beforeFileName.all isSlash then "/"
  else (p.beforeFileName.reverse.dropWhile isSlash).reverse

/-- The stem of a file name and its extension, which starts at the last dot. A dot at the front
starts no extension. -/
def splitExtension (name : Text) : Text × Text :=
  let suffix := (name.reverse.takeWhile (!isDot ·)).reverse
  let stem := ((name.reverse.dropWhile (!isDot ·)).drop 1).reverse
  if stem = [] then (name, []) else (stem, "." ++ suffix)

end Path

end StableOrdinals
