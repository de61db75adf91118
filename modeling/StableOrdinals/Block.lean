import StableOrdinals.Document

/-!
# Block notation

A document in block notation is a list of lines with a key each; a line without a value of its own
that is followed by deeper lines has those as a mapping of its own. A document without lines is
empty, and looking up any key in it finds nothing.

`find?` looks a key up at the outermost level, and `Node.view` is what can be asked of what is
found.

This is the format that the executable reads and writes, and the one in which general results are
seen at work. No general result depends on it.
-/

namespace StableOrdinals.Block

inductive Value
  | null
  | scalar (text : Text)
  | sequence
  | emptyMapping
  deriving DecidableEq, Repr

structure Line where
  indent : Nat
  key : Text
  value : Value
  deriving DecidableEq, Repr

inductive Node
  | null
  | scalar (text : Text)
  | sequence
  | mapping (lines : List Line)
  deriving DecidableEq, Repr

/-- The node of a value that is followed by the deeper lines `below`. -/
def Value.node (below : List Line) : Value → Node
  | .null => if below = [] then .null else .mapping below
  | .scalar text => .scalar text
  | .sequence => .sequence
  | .emptyMapping => .mapping []

def entriesAt (indent : Nat) : List Line → List (Text × Node)
  | [] => []
  | line :: rest =>
    if line.indent = indent then
      (line.key, line.value.node (rest.takeWhile (indent < ·.indent))) :: entriesAt indent rest
    else entriesAt indent rest

/-- The outermost entries, which are those as deep as the first line. -/
def entries : List Line → List (Text × Node)
  | [] => []
  | line :: rest => entriesAt line.indent (line :: rest)

def find? (lines : List Line) (key : Text) : Option Node := (entries lines).lookup key

namespace Node

def text? : Node → Option Text
  | .scalar text => some text
  | _ => none

def entries? : Node → Option (List (Except Text Text × Option Text))
  | .mapping lines => some ((entries lines).map fun (key, node) => (.ok key, node.text?))
  | _ => none

/-- A scalar that is a decimal number in range is one, quoted or not. -/
def view (node : Node) : Document.Node where
  text? := node.text?
  int32? := node.text?.bind Text.toInt32?
  uint64? := node.text?.bind Text.toUInt64?
  entries? := node.entries?

end Node

def view (lines : List Line) : Document := ⟨fun key => .ok ((find? lines key).map Node.view)⟩

theorem entriesAt_of_forall_ne {indent : Nat} {lines : List Line}
    (h : ∀ line ∈ lines, line.indent ≠ indent) : entriesAt indent lines = [] := by
  induction lines with
  | nil => rfl
  | cons line lines ih =>
    rw [entriesAt, if_neg (h line (by simp)), ih fun l hl => h l (by simp [hl])]

theorem entriesAt_scalars (indent : Nat) (pairs : List (Text × Text)) :
    entriesAt indent (pairs.map fun p => ⟨indent, p.1, .scalar p.2⟩)
      = pairs.map fun p => (p.1, .scalar p.2) := by
  induction pairs with
  | nil => rfl
  | cons p pairs ih => simp [entriesAt, ih, Value.node]

theorem entries_scalars (indent : Nat) (pairs : List (Text × Text)) :
    entries (pairs.map fun p => ⟨indent, p.1, .scalar p.2⟩)
      = pairs.map fun p => (p.1, .scalar p.2) := by
  cases pairs with
  | nil => rfl
  | cons p pairs => exact entriesAt_scalars indent (p :: pairs)

end StableOrdinals.Block
