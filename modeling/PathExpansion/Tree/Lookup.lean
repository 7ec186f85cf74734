import PathExpansion.Tree.Basic

/-!
# Looking up paths

A path is followed piece by piece from the root.  An empty piece and a single dot stay, two dots go
up, and any other name goes down; each is possible only in a directory.  A link is replaced by its
target where it stands, up to forty times in one lookup, so that links that lead to each other come
to an end.

* `Tree.resolve` — the place that a path leads to, or why it leads nowhere.
* `Tree.isLinkPath` — whether a path names a link, its last piece not followed.
* `Tree.canonical` — the place of a path as far as it can be followed.
-/

namespace PathExpansion

/-- Why a path leads nowhere. -/
inductive LookupProblem where
  | notFound
  | notADirectory
  | tooManyLinks
deriving DecidableEq, Repr

/-- The number of the problem in the numbering of operating systems. -/
def LookupProblem.number : LookupProblem → Int
  | .notFound => 2
  | .notADirectory => 20
  | .tooManyLinks => 40

/-- The wording of the problem. -/
def LookupProblem.text : LookupProblem → String
  | .notFound => "No such file or directory"
  | .notADirectory => "Not a directory"
  | .tooManyLinks => "Too many levels of symbolic links"

namespace Tree

/-- The pieces of a path between its slashes. -/
def piecesOf (path : String) : List String := (PathSpec.stretches path.toList).map String.ofList

/-- A target that starts with a slash is followed from the root, any other from where its link
stands. -/
def targetStart (directory : Place) (target : String) : Place :=
  if target.toList.head? = some '/' then [] else directory

/-- Follows pieces from a place, with the number of links that may still be met. -/
def walk (t : Tree) (links : Nat) (here : Place) (pieces : List String) :
    Except LookupProblem Place :=
  match pieces with
  | [] => .ok here
  | piece :: rest =>
    if !t.isDirectoryAt here then .error .notADirectory
    else if piece = "" || piece = "." then walk t links here rest
    else if piece = ".." then walk t links here.tail rest
    else
      match t.node? (piece :: here) with
      | none => .error .notFound
      | some (.link target) =>
        match links with
        | 0 => .error .tooManyLinks
        | n + 1 => walk t n (targetStart here target) (piecesOf target ++ rest)
      | some _ => walk t links (piece :: here) rest
termination_by (links, pieces.length)

/-- The place that a path leads to. -/
def resolve (t : Tree) (path : String) : Except LookupProblem Place :=
  t.walk 40 [] (piecesOf path)

/-- A path without the slashes at its end, unless it has nothing else. -/
def stripSlashes (path : String) : String :=
  let bare := (path.toList.reverse.dropWhile (· == '/')).reverse
  if bare = [] then path else String.ofList bare

/-- The path names a symbolic link; its directory is followed, its last piece is not. -/
def isLinkPath (t : Tree) (path : String) : Bool :=
  let pieces := piecesOf (stripSlashes path)
  match t.walk 40 [] pieces.dropLast, pieces.getLast? with
  | .ok here, some last =>
    last ≠ "" && last ≠ "." && last ≠ ".." &&
      match t.node? (last :: here) with
      | some (.link _) => true
      | _ => false
  | _, _ => false

/-! ## Paths that lead nowhere

Two paths that cannot be followed to the end are compared by where they stop making sense. -/

/-- Follows pieces by name alone. -/
def lexical (here : Place) : List String → Place
  | [] => here
  | piece :: rest =>
    if piece = "" || piece = "." then lexical here rest
    else if piece = ".." then lexical here.tail rest
    else lexical (piece :: here) rest

/-- Follows pieces as far as they lead, taking a name that does not exist for a place of its own
and a link that is met while it is being followed, `active`, for itself.  Answers also whether
every link could be followed; `depth` bounds how many may be followed within each other. -/
def approach (t : Tree) (depth : Nat) (active : List Place) (here : Place) (pieces : List String) :
    Place × Bool :=
  match pieces with
  | [] => (here, true)
  | piece :: rest =>
    if piece = "" || piece = "." then approach t depth active here rest
    else if piece = ".." then approach t depth active here.tail rest
    else
      match t.node? (piece :: here) with
      | some (.link target) =>
        match depth with
        | 0 => (lexical (piece :: here) rest, false)
        | n + 1 =>
          if active.contains (piece :: here) then (lexical (piece :: here) rest, false)
          else
            let (found, clear) :=
              approach t n ((piece :: here) :: active) (targetStart here target) (piecesOf target)
            if clear then approach t (n + 1) active found rest else (lexical found rest, false)
      | _ => approach t depth active (piece :: here) rest
termination_by (depth, pieces.length)

/-- The place of a path as far as it can be followed. -/
def canonical (t : Tree) (path : String) : Place :=
  (t.approach (t.nodes.length + 1) [] [] (piecesOf path)).1

end Tree

end PathExpansion
