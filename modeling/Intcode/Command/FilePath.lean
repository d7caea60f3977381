/-!
# File paths

A path is a sequence of names with slashes between them. A machine is named after the file that its
program came from.
-/

namespace Intcode.Command.FilePath

/-- The names along a path. Empty names stand for extra slashes. -/
def names (path : String) : List (List Char) := path.toList.splitOn '/'

/-- The name of the file that a path leads to. A path that ends by going up leads to no file. -/
def fileName (path : String) : List Char :=
  match ((names path).filter fun n ↦ n ≠ [] && n ≠ ['.']).getLast? with
  | none | some ['.', '.'] => []
  | some name => name

/-- A file name without its extension. A dot at the start begins no extension. -/
def dropExtension (name : List Char) : List Char :=
  match (name.reverse.dropWhile (· ≠ '.')).drop 1 with
  | [] => name
  | stem => stem.reverse

/-- The name of the file that a path leads to, without its extension. -/
def stem (path : String) : String := String.ofList (dropExtension (fileName path))

example : stem "a.b.txt" = "a.b" ∧ stem "sub/prog.ic" = "prog" := by cbv
example : stem ".hidden" = ".hidden" ∧ stem "x." = "x" ∧ stem "..y" = "." := by cbv

end Intcode.Command.FilePath
