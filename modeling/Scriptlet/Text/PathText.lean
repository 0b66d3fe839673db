/-!
# Path text

`tidy` is how a path is shown: empty and `.` components are dropped, `..` is kept. `absolute`
resolves a path against a directory and folds `..` away.
-/

namespace Scriptlet.PathText

/-- The components of a path between slashes, empty ones included. -/
def components : List Char → List (List Char)
  | [] => [[]]
  | c :: cs =>
    if c == '/' then [] :: components cs
    else
      match components cs with
      | [] => [[c]]
      | part :: parts => (c :: part) :: parts

/-- The slashes that open a rooted path: exactly two are kept, otherwise one stands for all. -/
def rootOf (path : List Char) : List Char :=
  match (path.takeWhile (· == '/')).length with
  | 0 => []
  | 2 => ['/', '/']
  | _ => ['/']

/-- Joins components by slashes. -/
def join (parts : List (List Char)) : List Char := List.intercalate ['/'] parts

/-- A path without empty and `.` components; the empty path is `.`. -/
def tidy (path : String) : String :=
  let cs := path.toList
  let parts := (components cs).filter fun p => p ≠ [] ∧ p ≠ ['.']
  let shown := rootOf cs ++ join parts
  String.ofList (if shown = [] then ['.'] else shown)

/-- One component onto a list of components, innermost first: `..` takes the last one back. -/
def descend (stack : List (List Char)) (part : List Char) : List (List Char) :=
  if part = [] ∨ part = ['.'] then stack
  else if part = ['.', '.'] then stack.tail
  else part :: stack

/-- Does a path start from the root? -/
def isRooted (path : String) : Bool := path.toList.head? == some '/'

/-- The absolute form of a path, taken from the directory `base` if it does not start from the
root. -/
def absolute (base path : String) : String :=
  let directory := if base.toList.getLast? = some '/' then base.toList else base.toList ++ ['/']
  let rooted := if isRooted path then path.toList else directory ++ path.toList
  let parts := ((components rooted).foldl descend []).reverse
  String.ofList (rootOf rooted ++ join parts)

end Scriptlet.PathText
