/-
A small model of files: what is in them by their path, and how a write to a path can fail. Directories
are not kept: those above a file exist, and a write makes those above its path.
-/
import PluginTools.Roster

namespace PluginTools

/-- Why a file cannot be written. -/
inductive WriteFault where
  | missing
  | exists
  | notDirectory
  | directory
  | nameTooLong
  | nullCharacter
deriving DecidableEq, Repr, Inhabited

namespace WriteFault

/-- The system's words for a fault. -/
def message : WriteFault → String
  | .missing => "No such file or directory (os error 2)"
  | .exists => "File exists (os error 17)"
  | .notDirectory => "Not a directory (os error 20)"
  | .directory => "Is a directory (os error 21)"
  | .nameTooLong => "File name too long (os error 36)"
  | .nullCharacter => "file name contained an unexpected NUL byte"

end WriteFault

namespace FilePath

/-- The parts of a path between its slashes. -/
def segments (path : String) : List (List Char) := path.toList.splitOn '/'

def isNamed (segment : List Char) : Bool := !segment.isEmpty && segment != ['.']

/-- The segments that name something: empty ones and single dots name the place itself. -/
def names (path : String) : List (List Char) := (segments path).filter isNamed

/-- Follows names, innermost first; two dots lead one place up. -/
def follow (place : List (List Char)) : List (List Char) → List (List Char)
  | [] => place
  | n :: rest => if n = ['.', '.'] then follow place.tail rest else follow (n :: place) rest

/-- The place of a path as one text. -/
def key (names : List (List Char)) : String :=
  String.ofList (['/'].intercalate (follow [] names).reverse)

end FilePath

/-- The contents of files, by the places of their paths. -/
structure Disk where
  files : Roster (List UInt8) := {}
deriving Repr, Inhabited

namespace Disk

def file? (d : Disk) (names : List (List Char)) : Option (List UInt8) := d.files.get? (FilePath.key names)

/-- Whether some file lies below a place. -/
def isDirectory (d : Disk) (names : List (List Char)) : Bool :=
  let place := FilePath.follow [] names
  place.isEmpty || d.files.names.any fun key => (FilePath.key names ++ "/").toList.isPrefixOf key.toList

def read? (d : Disk) (path : String) : Option (List UInt8) :=
  if (FilePath.segments path).getLast?.any FilePath.isNamed then d.file? (FilePath.names path) else none

def put (d : Disk) (path : String) (content : List UInt8) : Disk :=
  ⟨d.files.insert (FilePath.key (FilePath.names path)) content⟩

/-! ## Writing -/

/-- The greatest number of octets of a name. -/
def maxName : Nat := 255

def isTooLong (name : List Char) : Bool := maxName < (String.ofList name).utf8ByteSize

/-- What stands in the way of making the directories of a path: the first of its places that is a file,
or a name that is too long. -/
def directoryFault? (d : Disk) (parents : List (List Char)) : Option WriteFault :=
  (List.range parents.length).findSome? fun i =>
    let place := parents.take (i + 1)
    if place.getLast?.any isTooLong then some .nameTooLong
    else if (d.file? place).isSome then
      some (if i + 1 = parents.length then .exists else .notDirectory)
    else none

/-- What stands in the way of writing a file once the directories above it are made. -/
def fileFault? (d : Disk) (path : String) : Option WriteFault :=
  let names := FilePath.names path
  let last := (FilePath.segments path).getLastD []
  if last = [] ∨ last = ['.', '.'] then some .directory
  else if last = ['.'] then
    if (d.file? names).isSome then some .notDirectory
    else if d.isDirectory names ∨ names.getLast? = some ['.', '.'] then some .directory
    else some .missing
  else if d.isDirectory names then some .directory
  else if isTooLong last then some .nameTooLong
  else none

/-- Writes a file in place of what was there, or leaves everything as it was. -/
def write (d : Disk) (path : String) (content : List UInt8) : Except WriteFault Disk :=
  if path.toList.contains '\x00' then .error .nullCharacter
  else match d.directoryFault? (FilePath.names path).dropLast with
    | some fault => .error fault
    | none =>
      match d.fileFault? path with
      | some fault => .error fault
      | none => .ok (d.put path content)

end Disk
end PluginTools
