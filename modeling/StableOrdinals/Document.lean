import StableOrdinals.Text.Decimal

/-!
# Documents

Objects and the configuration are kept as documents, which a library of its own reads and writes.
Which texts it accepts and how it spells what it writes is left to that library: a `Document.Format`
is whatever it does, and says so in its own words where it refuses something.

A `Document` is what can be asked of a text that has been read, and a `Node` what can be asked of
the value that a key stands for. `Document.Item` is what is handed over in order to be written.
-/

namespace StableOrdinals

namespace Document

/-- A value as a text, as a number in range and as a mapping, as far as it is one. -/
structure Node where
  text? : Option Text
  int32? : Option Int32
  uint64? : Option UInt64
  /-- Both sides of each entry. Only a text can be taken for a key. -/
  entries? : Option (List (Except Text Text × Option Text))

inductive Item
  | text (s : Text)
  | number (i : Int)
  /-- A mapping whose values are texts, whatever they look like. -/
  | texts (entries : List (Text × Text))
  deriving DecidableEq, Repr

end Document

structure Document where
  /-- A document that is no mapping may refuse to look anything up. -/
  find? : Text → Except Text (Option Document.Node)

namespace Document

structure Format where
  read : Text → Except Text Document
  write : List (Text × Item) → Except Text Text
  /-- The complaint about a file that cannot be opened. -/
  unopened : Text → Text

end Document

end StableOrdinals
