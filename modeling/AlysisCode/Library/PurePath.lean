/-
Paths as Python's `posixpath` cuts and joins them.

Nothing here looks at a file system: a relative path stays relative.
-/
import AlysisCode.Library.Text

namespace Posix

def isabs (path : List Char) : Bool := path.head? == some '/'

/-- `"/".join(parts)`. -/
def join (parts : List (List Char)) : List Char := ['/'].intercalate parts

/-- How many of the slashes in front a normal path keeps: two are not one, three are. -/
def initialSlashes (path : List Char) : Nat :=
  if !isabs path then 0
  else if "//".toList.isPrefixOf path && !"///".toList.isPrefixOf path then 2
  else 1

/-- One component more; `..` takes the last one back, where there is one. -/
def pushComponent (absolute : Bool) (done : List (List Char)) (comp : List Char) :
    List (List Char) :=
  if comp = [] ∨ comp = ['.'] then done
  else if comp ≠ ['.', '.'] ∨ (!absolute ∧ done = []) ∨ done.getLast? = some ['.', '.'] then
    done ++ [comp]
  else done.dropLast

def normpath (path : List Char) : List Char :=
  let comps := (path.splitOn '/').foldl (pushComponent (isabs path)) []
  let normal := List.replicate (initialSlashes path) '/' ++ join comps
  if normal.isEmpty then ['.'] else normal

def commonPrefix {α : Type} [DecidableEq α] : List α → List α → List α
  | a :: as, b :: bs => if a = b then a :: commonPrefix as bs else []
  | _, _ => []

/-- `posixpath.commonpath` of two absolute paths. -/
def commonpath (path path' : List Char) : List Char :=
  let comps := fun (p : List Char) => (p.splitOn '/').filter fun c => c ≠ [] ∧ c ≠ ['.']
  '/' :: join (commonPrefix (comps path) (comps path'))

/-- `posixpath.relpath(path, start)` of two absolute paths in normal form. -/
def relpath (path start : List Char) : List Char :=
  let comps := fun (p : List Char) => (p.splitOn '/').filter fun c => c ≠ []
  let shared := (commonPrefix (comps start) (comps path)).length
  let up := List.replicate ((comps start).length - shared) ['.', '.']
  let rel := up ++ (comps path).drop shared
  if rel.isEmpty then ['.'] else join rel

example : normpath "//a/./b/../../c".toList = "//c".toList := by decide

example : relpath "/src/app/x".toList "/src/lib".toList = "../app/x".toList := by decide

end Posix

/-! ### `PurePosixPath`

Paths as `PurePosixPath` reads them.

A path is its root and the names below it; empty names and names that are a single dot are
dropped, and nothing else is resolved.
-/

/-- A `PurePosixPath`. -/
structure PurePath where
  /-- Nothing, one slash, or two. -/
  root : List Char
  tail : List (List Char)
  deriving DecidableEq

namespace PurePath

open Text

/-- `PurePosixPath(text)` -/
def ofText (text : List Char) : PurePath where
  root := List.replicate (Posix.initialSlashes text) '/'
  tail := (fields (· == '/') text).filter (· ≠ ['.'])

variable (p : PurePath)

/-- `str(path)` and `path.as_posix()` -/
def text : List Char :=
  if p.root.isEmpty && p.tail.isEmpty then ['.'] else p.root ++ Posix.join p.tail

def parts : List (List Char) := field p.root ++ p.tail

def name : List Char := p.tail.getLast?.getD []

def parent : PurePath := { p with tail := p.tail.dropLast }

def above : List (List Char) → List (List Char)
  | _ :: name :: rest => Posix.join (name :: rest).reverse :: above (name :: rest)
  | _ => []

/-- Of a relative path: its parent, the parent of that and so on, as far as they have a name. -/
def parentTexts : List (List Char) := above p.tail.reverse

end PurePath
