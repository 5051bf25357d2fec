/-! The part of a disk that can be seen from a working directory, and what reading a file by its
path answers. A path is followed one name at a time; the first name that leads nowhere decides the
answer. -/

namespace BlockPool

/-- Why a file could not be read. -/
inductive FileError
  | notFound
  | notDirectory
  | isDirectory
  | nameTooLong
  | nulInName
  | notText
  deriving DecidableEq, Repr, Inhabited

def FileError.text : FileError → String
  | notFound => "No such file or directory (os error 2)"
  | notDirectory => "Not a directory (os error 20)"
  | isDirectory => "Is a directory (os error 21)"
  | nameTooLong => "File name too long (os error 36)"
  | nulInName => "file name contained an unexpected NUL byte"
  | notText => "stream did not contain valid UTF-8"

inductive DiskEntry
  | directory
  | file (content : ByteArray)
  deriving Inhabited

/-- The entries below the working directory, each under the names that lead to it. -/
structure Disk where
  entries : List (List String × DiskEntry) := []
  deriving Inhabited

/-- A place that a path has led to. -/
inductive Place
  /-- A directory that the working directory is not above; nothing in it is known. -/
  | outside
  | inside (names : List String) (entry : DiskEntry)
  deriving Inhabited

namespace Disk

/-- The longest name of an entry and the longest path, in bytes. -/
def maxName : Nat := 255

def maxPath : Nat := 4095

/-- The names in a path. -/
def names (path : String) : List String :=
  (path.toList.splitBy fun a b => a ≠ '/' && b ≠ '/').filterMap fun part =>
    if part = ['/'] then none else some (String.ofList part)

/-- The place that a name leads to from another place. -/
def follow (disk : Disk) (place : Place) (name : String) : Except FileError Place :=
  match place with
  | .inside _ (.file _) => .error .notDirectory
  | .outside =>
    if name = "." || name = ".." then .ok .outside
    else if maxName < name.utf8ByteSize then .error .nameTooLong
    else .error .notFound
  | .inside names .directory =>
    if name = "." then .ok place
    else if name = ".." then
      .ok (if names.isEmpty then .outside else .inside names.dropLast .directory)
    else if maxName < name.utf8ByteSize then .error .nameTooLong
    else
      match disk.entries.lookup (names ++ [name]) with
      | some entry => .ok (.inside (names ++ [name]) entry)
      | none => .error .notFound

/-- The content of the file that a path leads to. -/
def read (disk : Disk) (path : String) : Except FileError ByteArray :=
  if path.toList.contains '\x00' then .error .nulInName
  else if path.isEmpty then .error .notFound
  else if maxPath < path.utf8ByteSize then .error .nameTooLong
  else
    let start : Place := if path.toList.head? = some '/' then .outside else .inside [] .directory
    match (names path).foldlM disk.follow start with
    | .error e => .error e
    | .ok (.inside _ (.file content)) =>
      if path.toList.getLast? = some '/' then .error .notDirectory else .ok content
    | .ok _ => .error .isDirectory

/-- The disk with a file under a path, if the directory that it belongs to is there. -/
def write (disk : Disk) (path : String) (content : ByteArray) : Disk :=
  match (names path).getLast? with
  | none => disk
  | some name =>
    match (names path).dropLast.foldlM disk.follow (.inside [] .directory) with
    | .ok (.inside above .directory) =>
      { entries := (above ++ [name], .file content) :: disk.entries }
    | _ => disk

end Disk

end BlockPool
