/-!
Paths of files, resolved by their text.

An absolute path is the list of its names, without empty names and dots; two dots leave a
directory.
-/

namespace ScriptLang.Profile.Path

/-- The directory that is measured, in which relative paths start. -/
def home : List String := ["repo"]

/-- Follows one name of a path from a directory, whose names are last first. -/
def follow (dir : List String) (name : String) : List String :=
  if name == "" || name == "." then dir
  else if name == ".." then dir.tail
  else name :: dir

/-- The names of the absolute path that a path stands for. -/
def resolve (path : String) : List String :=
  ((path.splitOn "/").foldl follow (if path.startsWith "/" then [] else home.reverse)).reverse

/-- An absolute path as it is written. -/
def text (names : List String) : String :=
  "/" ++ "/".intercalate names

/-- How many names two paths share from the start on. -/
def shared : List String → List String → Nat
  | a :: as, b :: bs => if a == b then shared as bs + 1 else 0
  | _, _ => 0

/-- The way from the measured directory to a path. -/
def fromHome (path : String) : String :=
  let names := resolve path
  let n := shared home names
  let way := List.replicate (home.length - n) ".." ++ names.drop n
  if way.isEmpty then "." else "/".intercalate way

end ScriptLang.Profile.Path
