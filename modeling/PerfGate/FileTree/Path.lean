/-!
# FileTree — paths

A path is a text of names divided by slashes. It is shown as it was given and is taken apart only
when a file is looked up.
-/

namespace PerfGate.Path

/-- The most bytes that a path may have. -/
def maxSize : Nat := 4095

/-- The most bytes that a name on a path may have. -/
def maxNameSize : Nat := 255

/-- Whether a path starts at the root. -/
def isAbsolute (path : String) : Bool := path.toList.head? == some '/'

/-- Whether a path ends in a slash, so that it can only lead to a directory. -/
def endsInSlash (path : String) : Bool := path.toList.getLast? == some '/'

/-- A path without the slashes at its end. -/
def withoutEndSlashes (path : String) : String :=
  String.ofList (path.toList.reverse.dropWhile (· = '/')).reverse

/-- The path of `child` seen from `base`: an absolute child stands for itself. A slash is put in
between unless the base ends in one or is empty. -/
def join (base child : String) : String :=
  if isAbsolute child || base.isEmpty then child
  else if endsInSlash base then base ++ child
  else base ++ "/" ++ child

/-- The names of a path, without the root. An empty name stands for the directory reached so far,
so it is the same as a dot. -/
def names (path : String) : List String :=
  let parts := path.toList.splitOn '/'
  let parts := if isAbsolute path then parts.drop 1 else parts
  parts.map fun part => if part.isEmpty then "." else String.ofList part

end PerfGate.Path
