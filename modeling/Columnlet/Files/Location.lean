/-!
Locations of files and directories, and the names that lead to them. A location is a list of steps
from the working directory; a name may say the same in many ways, with empty words, single dots
and double dots between its slashes.
-/

namespace Columnlet

/-- The steps that lead from the working directory to a file or a directory. A first step that is
empty leads to the root, and double dots lead upwards. -/
abbrev Location := List String

namespace Location

/-- Whether a word leads to a directory that is always there. -/
def isDots (word : String) : Bool := word = "." || word = ".."

/-- Where a word leads from a directory. There is nothing above the root. -/
def step (dir : Location) (word : String) : Location :=
  if word = "." then dir
  else if word = ".." then
    match dir.getLast? with
    | none | some ".." => dir ++ [".."]
    | some "" => dir
    | some _ => dir.dropLast
  else dir ++ [word]

/-- Whether a location is the working directory, one above it, or the root. -/
def isGiven (l : Location) : Bool := l.all (· = "..") || l = [""]

/-! ## Names -/

/-- The parts of a text between slashes. -/
def splitSlashes : List Char → List (List Char)
  | [] => [[]]
  | c :: cs =>
    if c = '/' then [] :: splitSlashes cs
    else
      match splitSlashes cs with
      | [] => [[c]]
      | word :: words => (c :: word) :: words

/-- The words of a name: what stands between its slashes, if it is not empty. -/
def words (name : String) : List String :=
  ((splitSlashes name.toList).filter (· ≠ [])).map String.ofList

/-- The directory that a name starts from. -/
def start (name : String) : Location := if name.toList.head? = some '/' then [""] else []

/-- Whether a name ends with a slash, so that it can only be that of a directory. -/
def endsWithSlash (name : String) : Bool := name.toList.getLast? = some '/'

end Location

end Columnlet
