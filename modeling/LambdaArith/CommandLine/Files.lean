import LambdaArith.Text.Pieces

/-!
# Files

The programs reach files only through `Files`, which says how to read and to write one. The
files of a directory can be given as a value, a `FileTree`; then a program that uses them is
a function from trees to trees.
-/

namespace LambdaArith.CommandLine

/-- Why a file cannot be read or written. -/
inductive FileError where
  | notFound
  | notDirectory
  | isDirectory
  | notText
  | other (reason : String)
deriving DecidableEq, Repr

/-- What is said about a file that cannot be read or written. -/
def FileError.message : FileError → String
  | notFound => "No such file or directory (os error 2)"
  | notDirectory => "Not a directory (os error 20)"
  | isDirectory => "Is a directory (os error 21)"
  | notText => "stream did not contain valid UTF-8"
  | other reason => reason

/-- How to read and to write files. -/
structure Files (m : Type → Type) where
  read : String → m (Except FileError ByteArray)
  write : String → String → m (Except FileError Unit)

/-- The text of a file. -/
def Files.readText {m : Type → Type} [Monad m] (files : Files m) (path : String) :
    m (Except FileError String) := do
  match ← files.read path with
  | .error error => return .error error
  | .ok bytes =>
    match String.fromUTF8? bytes with
    | none => return .error .notText
    | some text => return .ok text

/-- The files below a directory, each with the names that lead to it. The directories are
those that hold files, and the ones above the tree, where `..` leads to. -/
structure FileTree where
  files : List (List String × ByteArray)

namespace FileTree

/-- The contents of the file at a place. -/
def content? (tree : FileTree) (place : List String) : Option ByteArray :=
  (tree.files.find? fun entry => entry.1 = place).map Prod.snd

/-- Whether a place is a directory. -/
def isDirectory (tree : FileTree) (place : List String) : Bool :=
  place.all (fun part => part = "..") ||
    tree.files.any fun entry => place.isPrefixOf entry.1 && place ≠ entry.1

/-- Goes one step down from a directory, or up, or stays. -/
def enter (place : List String) (part : String) : List String :=
  if part = "" || part = "." then place
  else if part = ".." && place.all (fun part => part = "..") then place ++ [part]
  else if part = ".." then place.dropLast
  else place ++ [part]

/-- Follows the parts of a path from a place. All but the last have to be directories. -/
def follow (tree : FileTree) (place : List String) :
    List String → Except FileError (List String)
  | [] => .ok place
  | part :: rest =>
    if tree.isDirectory place then follow tree (enter place part) rest
    else if (tree.content? place).isSome then .error .notDirectory
    else .error .notFound

/-- The parts of a path that starts at the directory of the tree. An empty path leads nowhere,
and of what a path reaches from the root only the root itself is there. -/
def relative (path : String) : Except FileError (List String) :=
  let parts := pieces '/' path
  if path = "" then .error .notFound
  else if path.toList.head? ≠ some '/' then .ok parts
  else if parts.all fun part => enter [] part = [] || part = ".." then .error .isDirectory
  else .error .notFound

/-- The place that a path leads to. -/
def locate (tree : FileTree) (path : String) : Except FileError (List String) := do
  tree.follow [] (← relative path)

/-- The contents of the file that a path leads to. -/
def read (tree : FileTree) (path : String) : Except FileError ByteArray := do
  let place ← tree.locate path
  match tree.content? place with
  | some bytes => return bytes
  | none => if tree.isDirectory place then .error .isDirectory else .error .notFound

/-- The tree with these bytes at a place. -/
def put (tree : FileTree) (place : List String) (bytes : ByteArray) : FileTree :=
  ⟨tree.files.filter (fun entry => entry.1 ≠ place) ++ [(place, bytes)]⟩

/-- The tree after a text has been written to a path. The directory has to be there, and a
path that ends in a slash is that of a directory. -/
def write (tree : FileTree) (path text : String) : Except FileError FileTree := do
  let parts := ((← relative path).reverse.dropWhile fun part => part = "").reverse
  let directory ← tree.follow [] parts.dropLast
  if !tree.isDirectory directory then
    if (tree.content? directory).isSome then .error .notDirectory else .error .notFound
  let place := enter directory (parts.getLastD "")
  if path.toList.getLast? = some '/' || place = directory || tree.isDirectory place then
    .error .isDirectory
  return tree.put place text.toUTF8

/-- The files of a tree that is changed by writing. -/
def access : Files (StateM FileTree) where
  read path := do return (← get).read path
  write path text := do
    match (← get).write path text with
    | .error error => return .error error
    | .ok tree =>
      set tree
      return .ok ()

end FileTree

end LambdaArith.CommandLine
