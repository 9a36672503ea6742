/-!
# Files and paths

Files are found by following a path from the working directory, or from the root if
the path starts with a slash.  Parts that are empty or a single dot stay where they
are, two dots go one directory outwards, and the last part may name a file.

A path is followed from left to right, and the first part that cannot be followed
decides the failure.  Lengths are counted in bytes.

No directory can be entered by its name here: files lie in the working directory, in
those around it, and in the root.
-/

namespace CallResolution

/-- Why a file cannot be read. -/
inductive ReadFailure where
  | notFound
  | notADirectory
  | isDirectory
  | nameTooLong
  | zeroByteInPath
  | notText
  deriving DecidableEq, Repr

namespace ReadFailure

def message : ReadFailure → String
  | .notFound => "No such file or directory (os error 2)"
  | .notADirectory => "Not a directory (os error 20)"
  | .isDirectory => "Is a directory (os error 21)"
  | .nameTooLong => "File name too long (os error 36)"
  | .zeroByteInPath => "file name contained an unexpected NUL byte"
  | .notText => "stream did not contain valid UTF-8"

end ReadFailure

/-- A directory that a path can reach. -/
inductive Folder where
  /-- So many steps outwards from the working directory. -/
  | outwards (steps : Nat)
  | root
  deriving DecidableEq, Repr

namespace Folder

/-- The working directory. -/
def working : Folder := .outwards 0

/-- The directory around this one; around the root there is only the root. -/
def outer : Folder → Folder
  | .outwards steps => .outwards (steps + 1)
  | .root => .root

end Folder

/-- Where a file lies, or would lie. -/
structure FilePlace where
  folder : Folder
  name : String
  deriving DecidableEq, Repr

/-- Where a path leads. -/
inductive Destination where
  | folder (folder : Folder)
  | file (place : FilePlace)
  deriving DecidableEq, Repr

/-- The files that can be reached, the newest first. -/
structure Disk where
  files : List (FilePlace × ByteArray)

namespace Disk

/-- The longest name of a file or directory, in bytes. -/
def longestName : Nat := 255

/-- The longest path, in bytes. -/
def longestPath : Nat := 4095

/-- A disk without files. -/
def empty : Disk where
  files := []

/-- The contents of the file at a place. -/
def contents? (disk : Disk) (place : FilePlace) : Option ByteArray :=
  disk.files.lookup place

/-- Follow the parts of a path from a directory.  A name with more parts after it would
have to be a directory, and none can be entered by name. -/
def follow (disk : Disk) : Folder → List String → Except ReadFailure Destination
  | folder, [] => .ok (.folder folder)
  | folder, part :: rest =>
      if part = "" ∨ part = "." then
        disk.follow folder rest
      else if part = ".." then
        disk.follow folder.outer rest
      else if longestName < part.utf8ByteSize then
        .error .nameTooLong
      else if rest.isEmpty then
        .ok (.file ⟨folder, part⟩)
      else if (disk.contents? ⟨folder, part⟩).isSome then
        .error .notADirectory
      else
        .error .notFound

/-- Where a path leads.  The path as a whole is checked before it is followed. -/
def locate (disk : Disk) (path : String) : Except ReadFailure Destination :=
  if path.toList.contains '\x00' then
    .error .zeroByteInPath
  else if path = "" then
    .error .notFound
  else if longestPath < path.utf8ByteSize then
    .error .nameTooLong
  else
    disk.follow (if path.startsWith "/" then .root else .working) (path.splitOn "/")

/-- Write a file.  A path that leads to no place for a file leaves the disk as it is. -/
def write (disk : Disk) (path : String) (bytes : ByteArray) : Disk :=
  match disk.locate path with
  | .ok (.file place) => ⟨(place, bytes) :: disk.files⟩
  | _ => disk

/-- The text of a file. -/
def readText (disk : Disk) (path : String) : Except ReadFailure String := do
  match ← disk.locate path with
  | .folder _ => throw .isDirectory
  | .file place =>
      match disk.contents? place with
      | none => throw .notFound
      | some bytes =>
          match String.fromUTF8? bytes with
          | some text => return text
          | none => throw .notText

end Disk
end CallResolution
