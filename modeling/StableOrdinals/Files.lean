import Std.Data.ExtTreeMap
import StableOrdinals.Files.SystemError

/-!
# Files

`Files` is a tree of files and directories, held as a map from locations to entries. A location
names the entries on the way from the root, innermost first, and the entry that holds another is
always a directory. Of the links only those have a place in the tree that lead in a circle, which is
what makes it impossible to tell the kind of an entry; links that lead somewhere are left out.

`locate` finds the location of a path: every component but the last has to be a directory, an empty
component or a dot stays where it is, and two dots lead to the parent. Names and paths have a
greatest length. The operations on paths are defined by it and by `put?` and `delete?`, which change
one location.
-/

namespace StableOrdinals

inductive Entry
  | file (content : Text)
  | directory
  /-- Something else that cannot be opened, such as a socket. -/
  | special
  /-- A link that leads in a circle. -/
  | loop
  deriving DecidableEq, Repr

namespace Entry

/-- What reading an entry yields. A directory can be opened, but there is nothing in it to read. -/
def content? : Entry → Option Text
  | file content => some content
  | directory => some []
  | special | loop => none

def isFile : Entry → Except SystemError Bool
  | file _ => .ok true
  | loop => .error .tooManyLinks
  | directory | special => .ok false

def isClosed : Entry → Bool
  | file _ => false
  | directory | special | loop => true

/-- What is found where a path leads, if anything stands there. -/
def found : Option Entry → Except SystemError Entry
  | none => .error .missing
  | some loop => .error .tooManyLinks
  | some entry => .ok entry

/-- What can be told of what stands where a path leads. -/
def status : Option Entry → Except SystemError (Option Entry)
  | none => .ok none
  | some loop => .error .tooManyLinks
  | some entry => .ok (some entry)

end Entry

/-- The names of the entries on the way from the root, innermost first. -/
abbrev Location := List Text

abbrev Entries := Std.ExtTreeMap Location Entry

def Entries.at? (entries : Entries) (place : Location) : Option Entry :=
  if place = [] then some .directory else entries[place]?

namespace Entries

theorem at?_insert_of_ne {entries : Entries} {place place' : Location} (h : place ≠ place')
    (entry : Entry) : at? (entries.insert place entry) place' = entries.at? place' := by
  simp [at?, Std.ExtTreeMap.getElem?_insert, h]

theorem at?_erase_of_ne {entries : Entries} {place place' : Location} (h : place ≠ place') :
    at? (entries.erase place) place' = entries.at? place' := by
  simp [at?, Std.ExtTreeMap.getElem?_erase, h]

def names (entries : Entries) (place : Location) : List Text :=
  entries.keys.filterMap fun l =>
    match l with
    | [] => none
    | name :: holder => if holder = place then some name else none

theorem mem_names {entries : Entries} {place : Location} {name : Text} :
    name ∈ entries.names place ↔ name :: place ∈ entries := by
  simp only [names, List.mem_filterMap, Std.ExtTreeMap.mem_keys]
  constructor
  · rintro ⟨l, hl, h⟩
    cases l with
    | nil => simp at h
    | cons n holder =>
      simp only [Option.ite_none_right_eq_some, Option.some.injEq] at h
      obtain ⟨rfl, rfl⟩ := h
      exact hl
  · exact fun h => ⟨_, h, by simp⟩

end Entries

structure Files where
  entries : Entries
  /-- Where relative paths start. -/
  here : Location
  holder_directory : ∀ name place, name :: place ∈ entries → entries.at? place = some .directory

namespace Files

def empty (here : Location) : Files where
  entries := ∅
  here := here
  holder_directory name place h := by simp at h

def at? (files : Files) (place : Location) : Option Entry := files.entries.at? place

/-- The content of the file at a location, and nothing for a directory. -/
def fileAt? (files : Files) (place : Location) : Option Text :=
  match files.at? place with
  | some (.file content) => some content
  | _ => none

/-- Nothing can be written at a location because of what stands there. -/
def isClosed (files : Files) (place : Location) : Bool := (files.at? place).any Entry.isClosed

def names (files : Files) (place : Location) : List Text := files.entries.names place

def places (files : Files) : List Location := files.entries.keys

theorem holder_directory_insert (files : Files) {name : Text} {place : Location}
    (h₁ : files.at? place = some .directory) (h₂ : files.at? (name :: place) ≠ some .directory)
    (entry : Entry) (name' : Text) (place' : Location)
    (h : name' :: place' ∈ files.entries.insert (name :: place) entry) :
    Entries.at? (files.entries.insert (name :: place) entry) place' = some .directory := by
  have holder : files.at? place' = some .directory := by
    rcases Std.ExtTreeMap.mem_insert.1 h with h | h
    · simp at h
      exact h.2 ▸ h₁
    · exact files.holder_directory _ _ h
  rw [Entries.at?_insert_of_ne]
  · exact holder
  · rintro rfl
    exact h₂ holder

theorem holder_directory_erase (files : Files) {name : Text} {place : Location}
    (h₁ : files.names (name :: place) = []) (name' : Text) (place' : Location)
    (h : name' :: place' ∈ files.entries.erase (name :: place)) :
    Entries.at? (files.entries.erase (name :: place)) place' = some .directory := by
  have h := (Std.ExtTreeMap.mem_erase.1 h).2
  rw [Entries.at?_erase_of_ne, files.holder_directory _ _ h]
  rintro rfl
  have := Entries.mem_names.2 h
  simp_all [names]

/-- Put an entry into a directory. It may replace a file, but no directory. -/
def put? (files : Files) (name : Text) (place : Location) (entry : Entry) : Option Files :=
  if h : files.at? place = some .directory ∧ files.at? (name :: place) ≠ some .directory then
    some ⟨files.entries.insert (name :: place) entry, files.here,
      files.holder_directory_insert h.1 h.2 entry⟩
  else none

/-- Delete a file or an empty directory. -/
def delete? (files : Files) (name : Text) (place : Location) : Option Files :=
  if h : files.names (name :: place) = [] ∧ files.at? (name :: place) ≠ none then
    some ⟨files.entries.erase (name :: place), files.here, files.holder_directory_erase h.1⟩
  else none

/-- The longest name that an entry can have, in bytes. -/
def longestName : Nat := 255

/-- The longest path that can be followed, in bytes. -/
def longestPath : Nat := 4095

/-- One component further on the way to an entry, which has to start at a directory. -/
def step (files : Files) (place : Location) (component : Text) : Except SystemError Location :=
  match files.at? place with
  | none => .error .missing
  | some (.file _) | some .special => .error .notDirectory
  | some .loop => .error .tooManyLinks
  | some .directory =>
    if component = [] ∨ component = "." then .ok place
    else if component = ".." then .ok place.tail
    else if longestName < component.length then .error .nameTooLong
    else .ok (component :: place)

def origin (files : Files) (path : Path) : Location := if path.isAbsolute then [] else files.here

/-- The empty path leads nowhere. -/
def locate (files : Files) (path : Path) : Except SystemError Location :=
  let path := Text.beforeNul path
  if path = [] then .error .missing
  else if longestPath < path.length then .error .nameTooLong
  else (Path.components path).foldlM files.step (files.origin path)

def entryAt (files : Files) (path : Path) : Except SystemError Entry :=
  match files.locate path with
  | .error cause => .error cause
  | .ok place => Entry.found (files.at? place)

/-- What stands at a path, if anything. It is an error if the path cannot be followed far enough to
tell. -/
def status (files : Files) (path : Path) : Except SystemError (Option Entry) :=
  match files.entryAt path with
  | .ok entry => .ok (some entry)
  | .error cause => if cause.isAbsence then .ok none else .error cause

def existsAt (files : Files) (path : Path) : Except SystemError Bool :=
  (files.status path).map Option.isSome

def isFree (files : Files) (path : Path) : Bool :=
  match files.status path with
  | .ok none => true
  | _ => false

def read? (files : Files) (path : Path) : Option Text :=
  (files.entryAt path).toOption.bind Entry.content?

def write? (files : Files) (path : Path) (content : Text) : Option Files :=
  match files.locate path with
  | .ok (name :: place) =>
    if files.isClosed (name :: place) then none else files.put? name place (.file content)
  | _ => none

/-- Delete what stands at a location, unless it is a directory that holds something. -/
def deleteAt (files : Files) : Location → Except SystemError Files
  | [] => .error .busy
  | name :: place =>
    if files.at? (name :: place) = none then .error .missing
    else
      match files.delete? name place with
      | some files => .ok files
      | none => .error .notEmpty

/-- Delete a file or an empty directory. The last component has to name it. -/
def remove (files : Files) (path : Path) : Except SystemError Files :=
  match files.locate path with
  | .error cause => .error cause
  | .ok place =>
    let last := (Path.components (Text.beforeNul path)).reverse.find? (· ≠ [])
    if last = some "." then .error .invalid
    else if last = some ".." then .error .notEmpty
    else files.deleteAt place

/-- Move a file, over whatever stands there except for a directory. -/
def rename? (files : Files) (source target : Path) : Option Files :=
  match (files.locate source).toOption.bind files.fileAt?, files.locate target with
  | some content, .ok (name :: place) =>
    (files.put? name place (.file content)).bind fun files => (files.remove source).toOption
  | _, _ => none

end Files

end StableOrdinals
