import Lox.Table

/-!
Files as a program finds them: a tree of directories in which a path is followed name by name,
and the ways in which reading a file can fail.
-/

namespace Lox.CommandLine

/-- Why a file cannot be read. -/
inductive FileError where
  | notFound
  | permissionDenied
  /-- A name on the way is that of a file. -/
  | notDirectory
  | isDirectory
  | nameTooLong
  deriving DecidableEq, Repr

/-- The wording of the error, with its number. -/
def FileError.message : FileError → String
  | .notFound => "No such file or directory (os error 2)"
  | .permissionDenied => "Permission denied (os error 13)"
  | .notDirectory => "Not a directory (os error 20)"
  | .isDirectory => "Is a directory (os error 21)"
  | .nameTooLong => "File name too long (os error 36)"

/-- The names that lead from the root to a file or a directory. -/
abbrev Location := List String

/-- The files that there are. A directory that holds something need not be listed. -/
structure FileTree where
  files : List (Location × ByteArray)
  directories : List Location
  /-- The directory that a path starts in unless it starts at the root. -/
  working : Location

namespace FileTree

/-- The tree without files. -/
def empty : FileTree := ⟨[], [], []⟩

/-- What the file at a location holds. -/
def content? (tree : FileTree) (location : Location) : Option ByteArray :=
  Table.lookup? location tree.files

/-- There is a directory at a location: it is listed, or on the way to something. -/
def hasDirectory (tree : FileTree) (location : Location) : Bool :=
  (tree.working :: tree.directories ++ tree.files.map (·.1.dropLast)).any (location.isPrefixOf ·)

/-- Sets what a file in the working directory holds. -/
def put (tree : FileTree) (name : String) (content : ByteArray) : FileTree :=
  { tree with files := Table.put (tree.working ++ [name]) content tree.files }

/-- The longest name, in bytes. -/
def maxNameSize : Nat := 255

/-- The longest path, in bytes. -/
def maxPathSize : Nat := 4095

/-- Follows names from a location on. An empty name leads nowhere else, just as a dot, and two
dots lead out by one directory, up to the root. -/
def follow (tree : FileTree) (location : Location) : List String → Except FileError ByteArray
  | [] =>
    match tree.content? location with
    | some content => .ok content
    | none => .error (if tree.hasDirectory location then .isDirectory else .notFound)
  | name :: rest =>
    if tree.hasDirectory location then
      if name = "" || name = "." then tree.follow location rest
      else if name = ".." then tree.follow location.dropLast rest
      else if maxNameSize < name.utf8ByteSize then .error .nameTooLong
      else tree.follow (location ++ [name]) rest
    else .error (if (tree.content? location).isSome then .notDirectory else .notFound)

/-- Reads the file that a path leads to. A path with a slash in front starts at the root. -/
def read (tree : FileTree) (path : String) : Except FileError ByteArray :=
  if maxPathSize < path.utf8ByteSize then .error .nameTooLong
  else if path = "" then .error .notFound
  else
    match path.splitOn "/" with
    | "" :: names => tree.follow [] names
    | names => tree.follow tree.working names

end FileTree

end Lox.CommandLine
