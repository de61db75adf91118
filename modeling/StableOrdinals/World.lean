import StableOrdinals.Document
import StableOrdinals.Files

/-!
# World

What a run can change: the files and the debug log, whose lines stand in the order in which they
were noted. An environment is what a run finds and leaves alone. It is presupposed that the
temporary directory, where the log is kept, is a directory: then noting a line never fails, since a
log that cannot be opened there is left alone.
-/

namespace StableOrdinals

structure World where
  files : Files
  log : List Text

def World.note (world : World) (lines : List Text) : World :=
  { world with log := world.log ++ lines }

@[simp] theorem World.note_nil (world : World) : world.note [] = world := by
  simp [World.note]

structure Environment where
  /-- The home directory, if one is set. -/
  home : Option Path
  /-- An existing directory. -/
  temporary : Path
  /-- How documents are read and written. -/
  format : Document.Format

namespace Environment

/-- Without a home directory the temporary directory takes its place. -/
def homeDirectory (environment : Environment) : Path :=
  environment.home.getD environment.temporary

/-- A path in the temporary directory that carries a process number and a number of five digits. -/
def temporaryPath (environment : Environment) (stem : Text) (process number : Nat) : Path :=
  environment.temporary.append (stem ++ "_" ++ Text.ofNat process ++ "_" ++ Text.ofNat number)

/-- The first of these paths where nothing is yet. -/
def freshPath? (environment : Environment) (files : Files) (stem : Text) (process : Nat) :
    Option Path :=
  ((List.range' 10000 90000).map (environment.temporaryPath stem process)).find? files.isFree

end Environment

end StableOrdinals
