import MiniPascal.CommandLine.Path

/-!
# File systems in memory

A file system holds files under absolute names, and paths without a slash in front start in its
working directory.  A path is followed piece by piece, and every piece is looked up in a directory.
A directory is wherever something lies further in, so the working directory is one even if it is
empty.  The root is its own parent.
-/

namespace MiniPascal.CommandLine

def maxNameSize : Nat := 255

def maxPathSize : Nat := 4095

inductive FileError where
  | notFound
  | notADirectory
  | isADirectory
  | nameTooLong
  deriving Repr, DecidableEq, Inhabited

def FileError.message : FileError → String
  | notFound => "No such file or directory (os error 2)"
  | notADirectory => "Not a directory (os error 20)"
  | isADirectory => "Is a directory (os error 21)"
  | nameTooLong => "File name too long (os error 36)"

inductive Device where
  /-- Empty to readers; what is written to it is lost. -/
  | null
  | standardInput
  | standardOutput
  | standardError
  deriving Repr, DecidableEq, Inhabited

inductive Node where
  | text (text : String)
  | device (device : Device)
  deriving Repr, DecidableEq, Inhabited

structure FileSystem where
  workingDirectory : List String
  /-- The files, each under the names that lead to it from the root. -/
  nodes : List (List String × Node)
  deriving Repr, DecidableEq, Inhabited

inductive Place where
  | file (node : Node)
  | directory
  | nothing
  deriving Repr, DecidableEq, Inhabited

namespace FileSystem

def devices : List (List String × Node) :=
  [(["dev", "null"], .device .null), (["dev", "stdin"], .device .standardInput),
    (["dev", "stdout"], .device .standardOutput), (["dev", "stderr"], .device .standardError)]

/-- A working directory with these files, given by name and text, and the devices outside of it. -/
def ofFiles (files : List (String × String)) : FileSystem :=
  let workingDirectory := ["tmp", "session"]
  let named := files.map fun (name, text) => (workingDirectory ++ components name, Node.text text)
  ⟨workingDirectory, named ++ devices⟩

def placeAt (files : FileSystem) (names : List String) : Place :=
  match files.nodes.lookup names with
  | some node => .file node
  | none =>
      if names.isPrefixOf files.workingDirectory || files.nodes.any (names.isPrefixOf ·.1)
      then .directory
      else .nothing

/-- Follows the pieces of a path from a place on.  The last piece need not be there. -/
def follow (files : FileSystem) (names : List String) :
    List String → Except FileError (List String)
  | [] => .ok names
  | piece :: rest =>
      match files.placeAt names with
      | .file _ => .error .notADirectory
      | .nothing => .error .notFound
      | .directory =>
          if stays piece then files.follow names rest
          else if piece = ".." then files.follow names.dropLast rest
          else if maxNameSize < piece.utf8ByteSize then .error .nameTooLong
          else files.follow (names ++ [piece]) rest

def origin (files : FileSystem) (path : String) : Except FileError (List String) :=
  if maxPathSize < path.utf8ByteSize then .error .nameTooLong
  else if path = "" then .error .notFound
  else .ok (if path.toList.head? = some '/' then [] else files.workingDirectory)

def fileAt (files : FileSystem) (path : String) : Except FileError Node := do
  match files.placeAt (← files.follow (← files.origin path) (pieces path)) with
  | .file node => return node
  | .directory => throw .isADirectory
  | .nothing => throw .notFound

/-- The names of the file at a path, to be written.  It need not be there.  A path that ends in a
slash names a directory, there or not, as long as there is a directory to hold it. -/
def targetOf (files : FileSystem) (path : String) : Except FileError (List String) := do
  let origin ← files.origin path
  if path.toList.getLast? = some '/' then
    let outer := (pieces (withoutSlashes path)).dropLast
    let _ ← files.follow origin (outer ++ ["."])
    throw .isADirectory
  let names ← files.follow origin (pieces path)
  if files.placeAt names = .directory then throw .isADirectory
  return names

def put (files : FileSystem) (names : List String) (text : String) : FileSystem :=
  { files with nodes := (names, .text text) :: files.nodes.filter fun node => node.1 != names }

end FileSystem

end MiniPascal.CommandLine
