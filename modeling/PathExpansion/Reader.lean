import PathExpansion.Listing

/-!
# What a scan asks of a filesystem

A scan touches the filesystem through five questions only.  A reader answers them as the filesystem
stands at one moment; paths use slashes, may end with one if they name a directory, and are empty
for the current directory where a directory is asked about.

* `Identity` — what two paths to one directory have in common.
* `Reader` — the five answers, and a bound on how much there is to find.
* `Reader.within` — the answers for relative paths that are taken from some directory.
-/

namespace PathExpansion

/-- The identity of a directory: its place, the names that lead to it from the innermost to the
root, or the path itself if it leads nowhere. -/
inductive Identity where
  | place (names : List String)
  | unresolved (path : String)
deriving DecidableEq, Repr

/-- The answers of a filesystem. -/
structure Reader where
  /-- Opens a directory, or tells why not. -/
  openDirectory : String → Except Fault Listing
  /-- Whether something exists, links followed. -/
  isPresent : String → Bool
  /-- Whether it is a directory, links followed. -/
  isDirectory : String → Bool
  /-- Whether the path itself is a symbolic link. -/
  isLink : String → Bool
  /-- The identity of a directory. -/
  identity : String → Identity
  /-- No directory holds more names, and no chain of different directories is longer. -/
  extent : Nat

/-- A path as it reads from the root, if relative ones are taken from a directory. -/
def pathFrom (directory path : String) : String :=
  if path.toList.head? = some '/' then path else directory ++ "/" ++ path

/-- The answers of a filesystem for relative paths that are taken from a directory.  Faults are
about the path that was asked for. -/
def Reader.within (directory : String) (r : Reader) : Reader where
  openDirectory path := (r.openDirectory (pathFrom directory path)).mapError (·.about path)
  isPresent path := path ≠ "" && r.isPresent (pathFrom directory path)
  isDirectory path := r.isDirectory (pathFrom directory path)
  isLink path := r.isLink (pathFrom directory path)
  identity path := r.identity (pathFrom directory path)
  extent := r.extent

end PathExpansion
