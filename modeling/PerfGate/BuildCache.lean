import PerfGate.Text.Blank

/-!
# BuildCache — entries of a CMake cache

The compiler that a build used is looked up in the text of its CMake cache. An entry is found by
its name and a colon anywhere on a line; its value is what follows the last equals sign of that
line, without the white space around it.
-/

namespace PerfGate.BuildCache

/-- What follows the first occurrence of `mark`. -/
def after? (mark : List Char) : List Char → Option (List Char)
  | [] => if mark.isEmpty then some [] else none
  | c :: rest =>
    if mark.isPrefixOf (c :: rest) then some ((c :: rest).drop mark.length) else after? mark rest

/-- What follows the last equals sign. -/
def afterLastEquals? (s : List Char) : Option (List Char) :=
  if '=' ∈ s then some (s.reverse.takeWhile (· ≠ '=')).reverse else none

/-- The value of the entry `name` on one line. -/
def lineValue? (name : String) (line : List Char) : Option (List Char) :=
  (after? (name.toList ++ [':']) line).bind afterLastEquals?

/-- The value of the first line with the entry `name`. -/
def value? (name : String) (text : String) : Option String :=
  ((text.toList.splitOn '\n').findSome? (lineValue? name)).map fun v =>
    String.ofList (Text.trim v)

/-- The path of the compiler. -/
def compiler? (text : String) : Option String := value? "CMAKE_CXX_COMPILER" text

/-- The version of the compiler. -/
def compilerVersion? (text : String) : Option String := value? "CMAKE_CXX_COMPILER_VERSION" text

end PerfGate.BuildCache
