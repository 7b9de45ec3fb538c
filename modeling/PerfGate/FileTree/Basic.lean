import PerfGate.Error
import PerfGate.FileTree.Path

/-!
# FileTree — files and directories

The files that a run reads and the one that it writes. The text of a path is checked first
(`FileTree.checkPath`); then the path is followed name by name from the working directory or from
the root, and every name but the last has to be a directory. A name that is too long is found out
only where it would be looked up.

There is nothing here but files and directories: no links, no special files (a path such as
`/dev/stdout` is one like any other), no permissions and no limits on space. A file is read and
written as a whole, so no write stops half-way.
-/

namespace PerfGate

/-- What a name stands for. -/
inductive FileNode where
  | file (content : List UInt8)
  | directory
deriving DecidableEq

/-- A tree of files. -/
structure FileTree where
  /-- The names from the root to the working directory. -/
  cwd : List String
  /-- Files and directories by the names from the root; of two with the same names the first counts.
  The root and the directories down to the working directory are always there. -/
  nodes : List (List String × FileNode)

namespace FileTree

/-- What stands at the given names from the root. -/
def node? (t : FileTree) (place : List String) : Option FileNode :=
  if place.isPrefixOf t.cwd then some .directory else t.nodes.lookup place

/-- Where a path leads: to a file, a directory, or a free name in a directory. -/
inductive Target where
  | file (place : List String) (content : List UInt8)
  | directory (place : List String)
  | vacant (place : List String)

/-- Follows names from a directory. -/
def follow (t : FileTree) (place : List String) : List String → Except FileFault Target
  | [] => .ok (.directory place)
  | name :: rest =>
    if name = "." then t.follow place rest
    else if name = ".." then t.follow place.dropLast rest
    else if Path.maxNameSize < name.utf8ByteSize then .error .nameTooLong
    else
      match t.node? (place ++ [name]) with
      | some .directory => t.follow (place ++ [name]) rest
      | some (.file content) =>
        if rest.isEmpty then .ok (.file (place ++ [name]) content) else .error .notDirectory
      | none => if rest.isEmpty then .ok (.vacant (place ++ [name])) else .error .notFound

/-- The directory in which a path starts. -/
def start (t : FileTree) (path : String) : List String :=
  if Path.isAbsolute path then [] else t.cwd

/-- Checks the text of a path, whatever files there are. The empty path leads nowhere. -/
def checkPath (path : String) : Except FileFault Unit :=
  if '\x00' ∈ path.toList then .error .malformedPath
  else if path.isEmpty then .error .notFound
  else if Path.maxSize < path.utf8ByteSize then .error .nameTooLong
  else .ok ()

/-- Where a path leads. -/
def resolve (t : FileTree) (path : String) : Except FileFault Target := do
  checkPath path
  t.follow (t.start path) (Path.names path)

/-- The content of the file at a path. -/
def read (t : FileTree) (path : String) : Except FileFault (List UInt8) :=
  match t.resolve path with
  | .ok (.file _ content) => .ok content
  | .ok (.directory _) => .error .isDirectory
  | .ok (.vacant _) => .error .notFound
  | .error fault => .error fault

/-- The tree with a node at the given names. -/
def put (t : FileTree) (place : List String) (node : FileNode) : FileTree :=
  { t with nodes := (place, node) :: t.nodes.filter (·.1 ≠ place) }

/-- What is put stands in its place, unless the place is that of a directory that is always there. -/
theorem node?_put_self (t : FileTree) {place : List String} (node : FileNode)
    (h : place.isPrefixOf t.cwd = false) : (t.put place node).node? place = some node := by
  simp [node?, put, h]

/-- Putting a node changes no other place. -/
theorem node?_put_of_ne (t : FileTree) {place other : List String} (node : FileNode)
    (h : other ≠ place) : (t.put place node).node? other = t.node? other := by
  have hother : (other == place) = false := by simpa using h
  have hfilter : (t.nodes.filter (·.1 ≠ place)).lookup other = t.nodes.lookup other := by
    induction t.nodes with
    | nil => rfl
    | cons entry rest ih =>
      obtain ⟨p, n⟩ := entry
      by_cases hp : p = place
      · subst hp
        simpa [List.lookup_cons, hother] using ih
      · by_cases ho : other = p
        · subst ho
          simp [hp]
        · have hop : (other == p) = false := by simpa using ho
          simpa [hp, List.lookup_cons, hop] using ih
  simp only [node?, put, List.lookup_cons, hother]
  rw [hfilter]

/-- The tree with a file of the given content at a path, in place of an older one. The directory of
the file has to be there, and a path that ends in a slash names no file. -/
def write (t : FileTree) (path : String) (content : List UInt8) : Except FileFault FileTree := do
  checkPath path
  if Path.endsInSlash path then
    match t.follow (t.start path) (Path.names (Path.withoutEndSlashes path)).dropLast with
    | .ok (.directory _) => .error .isDirectory
    | .ok (.file ..) => .error .notDirectory
    | .ok (.vacant _) => .error .notFound
    | .error fault => .error fault
  else
    match t.resolve path with
    | .ok (.file place _) => .ok (t.put place (.file content))
    | .ok (.vacant place) => .ok (t.put place (.file content))
    | .ok (.directory _) => .error .isDirectory
    | .error fault => .error fault

/-- The place that a name leads to from a directory, whatever stands there. -/
def step (place : List String) (name : String) : List String :=
  if name = "." then place else if name = ".." then place.dropLast else place ++ [name]

/-- The tree with a directory at a place, unless something stands there. -/
def addDirectory (t : FileTree) (place : List String) : FileTree :=
  if (t.node? place).isSome then t else t.put place .directory

/-- The tree with a node where the names lead from `place`, and with all directories on the way. -/
def addFrom (t : FileTree) (place : List String) (node : FileNode) : List String → FileTree
  | [] => t.put place node
  | [name] => t.put (step place name) node
  | name :: rest => (t.addDirectory (step place name)).addFrom (step place name) node rest

/-- The tree with a node at a path, and with all directories on the way to it. -/
def add (t : FileTree) (path : String) (node : FileNode) : FileTree :=
  t.addFrom (t.start path) node (Path.names path)

end FileTree

end PerfGate
