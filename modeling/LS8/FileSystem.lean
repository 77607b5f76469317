import LS8.Image.Load

/-! # File systems

A file system is a tree of directories with plain files at its leaves, seen from a working
directory. Names and paths are byte strings. `FileSystem.read` follows a path component by
component: every component but the last has to lead to a directory, `.` and the empty component
stay, `..` goes up, and above the root there is only the root.

A path has at most 4095 bytes and a name at most 255. The length of a path is looked at before
anything else, the length of a name only when the name is looked up: behind a plain file or a
missing directory a name may be as long as it likes. -/

namespace LS8

open LS8.Image

/-! ### Trees -/

/-- A file or a directory. -/
inductive FileTree where
  /-- A plain file. -/
  | file (content : ByteString)
  /-- A directory with named entries. -/
  | directory (entries : List (ByteString × FileTree))

namespace FileTree

/-- The byte `.`, alone or doubled a component of its own. -/
def dot : UInt8 := 0x2E

/-- The greatest number of bytes in a name. -/
def maxNameLength : Nat := 255

/-- A directory with nothing in it. -/
def empty : FileTree := directory []

/-- The file or directory at the end of a list of components, from `here` inside the directories
`above`, the nearest first. -/
def walk (above : List FileTree) (here : FileTree) : List ByteString → Except ReadError FileTree
  | [] => .ok here
  | name :: names =>
    match here with
    | file _ => .error .notDirectory
    | directory entries =>
      if name = [] ∨ name = [dot] then walk above here names
      else if name = [dot, dot] then walk above.tail (above.headD here) names
      else if maxNameLength < name.length then .error .nameTooLong
      else
        match entries.lookup name with
        | none => .error .notFound
        | some next => walk (here :: above) next names

/-- What the root directory holds on every system: `/dev` with the file `/dev/null`, which has no
content, and `/tmp`. -/
def standardRoot : FileTree :=
  let name (s : String) : ByteString := Text.Utf8.encode s.toList
  directory [(name "dev", directory [(name "null", file [])]), (name "tmp", empty)]

end FileTree

/-! ### Paths -/

/-- A file system seen from a working directory. -/
structure FileSystem where
  /-- The working directory. -/
  working : FileTree
  /-- The directories above the working directory, the nearest first and the root last: unless
  said otherwise it lies in `/tmp`. -/
  above : List FileTree := [.empty, .standardRoot]

namespace FileSystem

/-- The byte `/` between the components of a path. -/
def separator : UInt8 := 0x2F

/-- The greatest number of bytes in a path. -/
def maxPathLength : Nat := 4095

/-- The root directory. -/
def root (fs : FileSystem) : FileTree := fs.above.getLastD fs.working

/-- The file or directory that a path leads to: from the root if the path begins with a separator,
otherwise from the working directory. -/
def find (fs : FileSystem) (path : ByteString) : Except ReadError FileTree :=
  if 0 ∈ path then .error .zeroByte
  else if maxPathLength < path.length then .error .nameTooLong
  else
    match path with
    | [] => .error .notFound
    | b :: rest =>
      if b = separator then FileTree.walk [] fs.root (rest.splitOn separator)
      else FileTree.walk fs.above fs.working (path.splitOn separator)

/-- The content of the plain file that a path leads to. -/
def read (fs : FileSystem) (path : ByteString) : Except ReadError ByteString := do
  match ← fs.find path with
  | .file content => return content
  | .directory _ => throw .isDirectory

end FileSystem

end LS8
