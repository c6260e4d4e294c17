/-!
# The files a run can see

A disk is a table of directories and regular files by location. A file has its text, or none when
its bytes are not UTF-8. Looking up a path walks it component by component, so that a step
through a file or up from one fails as it does on a host.
-/

namespace Provision

/-- A place on the disk: the component names from the root down. -/
abbrev Location := List String

/-- What is at a location. -/
inductive Entry
  | directory
  /-- A regular file, with its text unless its bytes are not UTF-8. -/
  | file (text : Option String)
deriving DecidableEq, Repr

/-- Why a file could not be read. -/
inductive ReadFault
  | notFound
  | isADirectory
  | notADirectory
  | invalidData
deriving DecidableEq, Repr

/-- The directories and files below the root, which is always there. -/
structure Disk where
  entries : List (Location × Entry)
deriving Repr

namespace Disk

/-- The disk that holds nothing. -/
def empty : Disk := ⟨[]⟩

/-- What is at a location. -/
def lookup? (disk : Disk) : Location → Option Entry
  | [] => some .directory
  | location => disk.entries.lookup location

/-- Follows path components from a location. Every step starts from a directory; `..` at the root
stays there. -/
def walk (disk : Disk) (here : Location) : List String → Except ReadFault Location
  | [] => .ok here
  | name :: rest =>
    match disk.lookup? here with
    | none => .error .notFound
    | some (.file _) => .error .notADirectory
    | some .directory =>
      if name = "." then disk.walk here rest
      else if name = ".." then disk.walk here.dropLast rest
      else if (disk.lookup? (here ++ [name])).isSome then disk.walk (here ++ [name]) rest
      else .error .notFound

/-- Puts an entry at a location. -/
def put (disk : Disk) (location : Location) (entry : Entry) : Disk :=
  ⟨(location, entry) :: disk.entries.filter (·.1 != location)⟩

/-- Makes the directories on the way from `here` down through `names`; fails where a file is. -/
def makeDirectories (disk : Disk) (here : Location) : List String → Option Disk
  | [] => some disk
  | name :: rest =>
    let next := here ++ [name]
    match disk.lookup? next with
    | some .directory => disk.makeDirectories next rest
    | some (.file _) => none
    | none => (disk.put next .directory).makeDirectories next rest

/-- Removes a location and everything below it. -/
def remove (disk : Disk) (location : Location) : Disk :=
  ⟨disk.entries.filter fun (other, _) => !location.isPrefixOf other⟩

end Disk

end Provision
