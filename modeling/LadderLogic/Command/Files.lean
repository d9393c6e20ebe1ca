/-
Files, as far as the command needs them.

`FileAccess` is what the command can do with files.  A `FileTree` is a directory of files
held as a value; access to it is a state, so that a run of the command on a tree is a
function.
-/

import LadderLogic.Failure

namespace LadderLogic.Command

/-- What the command can do with files, by their path. -/
structure FileAccess (m : Type → Type) where
  /-- There is a file or a directory. -/
  isPresent : String → m Bool
  read : String → m (Except FileError ByteArray)
  write : String → ByteArray → m (Except FileError Unit)

/-! ## Trees -/

/-- The names that lead to a file. -/
abbrev Path := List String

/-- A directory of files.  There is a directory for all names but the last of a path. -/
structure FileTree where
  files : List (Path × ByteArray)

/-- Where a path leads. -/
inductive Place where
  | directory
  | file (path : Path) (content : ByteArray)
  /-- Nothing is there, in a directory that is. -/
  | vacant (path : Path)

namespace FileTree

/-- The content of a file. -/
def content? (tree : FileTree) (path : Path) : Option ByteArray := tree.files.lookup path

/-- There is a file below this path, or it is the tree itself. -/
def isDirectory (tree : FileTree) (path : Path) : Bool :=
  path.isEmpty || tree.files.any fun f => path.isPrefixOf f.1 && path != f.1

/-- The most bytes of a name. -/
def longestName : Nat := 255

/-- The most bytes of a path. -/
def longestPath : Nat := 4095

/-- A name that leads nowhere else. -/
def staysPut (name : String) : Bool := name == "" || name == "."

/-- Follows names from a directory above the tree.  What else lies there is not known, and
counts as nothing. -/
def followOutside : List String → Except FileError Place
  | [] => .ok .directory
  | name :: rest =>
    if staysPut name || name == ".." then followOutside rest
    else if longestName < name.utf8ByteSize then .error .nameTooLong
    else .error .notFound

/-- Follows names from a directory of the tree. -/
def follow (tree : FileTree) (directory : Path) : List String → Except FileError Place
  | [] => .ok .directory
  | name :: rest =>
    if staysPut name then tree.follow directory rest
    else if name = ".." then
      if directory.isEmpty then followOutside rest else tree.follow directory.dropLast rest
    else if longestName < name.utf8ByteSize then .error .nameTooLong
    else
      let path := directory ++ [name]
      if tree.isDirectory path then tree.follow path rest
      else
        match tree.content? path with
        | some content => if rest.isEmpty then .ok (.file path content) else .error .notDirectory
        | none => if rest.isEmpty then .ok (.vacant path) else .error .notFound

/-- Why a text cannot be a path at all. -/
def pathFault? (path : String) : Option FileError :=
  if path.toList.contains '\x00' then some .nulInPath
  else if longestPath < path.utf8ByteSize then some .nameTooLong
  else none

/-- The names in the text of a path. -/
def pathNames (path : String) : List String := (path.toList.splitOn '/').map String.ofList

/-- Where the text of a path leads. -/
def locate (tree : FileTree) (path : String) : Except FileError Place :=
  match pathFault? path with
  | some e => .error e
  | none =>
    match pathNames path with
    | [""] => .error .notFound
    | "" :: names => followOutside names
    | names => tree.follow [] names

/-- There is a file or a directory. -/
def isPresent (tree : FileTree) (path : String) : Bool :=
  match tree.locate path with
  | .ok .directory => true
  | .ok (.file _ _) => true
  | _ => false

/-- Reads a file. -/
def read (tree : FileTree) (path : String) : Except FileError ByteArray :=
  match tree.locate path with
  | .error e => .error e
  | .ok .directory => .error .isDirectory
  | .ok (.vacant _) => .error .notFound
  | .ok (.file _ content) => .ok content

/-- Puts a file in place, or changes its content. -/
def put (tree : FileTree) (path : Path) (content : ByteArray) : FileTree where
  files :=
    if (tree.content? path).isSome then
      tree.files.map fun f => if f.1 == path then (path, content) else f
    else tree.files ++ [(path, content)]

/-- The path names a directory by ending in a slash: what stands before the last name. -/
def directoryParent? (path : String) : Option String :=
  match path.toList.reverse with
  | '/' :: before =>
    let name := before.dropWhile (· == '/')
    some (String.ofList ((name.dropWhile (· != '/')).reverse))
  | _ => none

/-- Writes a file.  A path that ends in a slash can only be a directory. -/
def write (tree : FileTree) (path : String) (content : ByteArray) : Except FileError FileTree :=
  match pathFault? path, directoryParent? path with
  | some e, _ => .error e
  | none, some "" => .error .isDirectory
  | none, some parent =>
    match tree.locate parent with
    | .error e => .error e
    | .ok _ => .error .isDirectory
  | none, none =>
    match tree.locate path with
    | .error e => .error e
    | .ok .directory => .error .isDirectory
    | .ok (.vacant place) => .ok (tree.put place content)
    | .ok (.file place _) => .ok (tree.put place content)

/-- Access to a tree that is kept as a state.  What fails changes nothing. -/
def access : FileAccess (StateM FileTree) where
  isPresent path := do
    return (← get).isPresent path
  read path := do
    return (← get).read path
  write path content := do
    match (← get).write path content with
    | .error e => return .error e
    | .ok tree =>
      set tree
      return .ok ()

end FileTree

end LadderLogic.Command
