import PathExpansion.PathSpec.Split

/-!
# Trees of files

A tree lists everything below its root, in the order of creation, each with its place.  A place is
the list of names that lead there, innermost first, so that going down adds a name in front and
going up drops one.

* `Node`, `Place`, `Tree` — what there is, where, and all of it.
* `Tree.node?`, `Tree.names` — what is at a place, and the names in a directory.
* `Tree.put`, `Tree.remove` — changes.
* `Tree.ofEntries` — a tree from a list of entries.
-/

namespace PathExpansion

/-- What can be at a place. -/
inductive Node where
  | file
  | directory
  | link (target : String)
deriving DecidableEq, Repr

/-- The names that lead to a place, innermost first; the root is the empty list. -/
abbrev Place := List String

/-- Everything below the root, in the order of creation. -/
structure Tree where
  nodes : List (Place × Node)
deriving DecidableEq, Repr

namespace Tree

/-- The tree that has only a root. -/
def empty : Tree := ⟨[]⟩

/-- What is at a place. -/
def node? (t : Tree) : Place → Option Node
  | [] => some .directory
  | place => t.nodes.lookup place

/-- There is a directory at the place. -/
def isDirectoryAt (t : Tree) (place : Place) : Bool := t.node? place == some .directory

/-- The name by which an entry belongs to a directory. -/
def nameIn (directory : Place) : Place → Option String
  | [] => none
  | name :: parent => if parent = directory then some name else none

/-- The names in a directory, in the order of creation. -/
def names (t : Tree) (directory : Place) : List String :=
  t.nodes.filterMap fun n => nameIn directory n.1

/-- Removes a place and everything below it. -/
def remove (t : Tree) (place : Place) : Tree :=
  ⟨t.nodes.filter fun n => !place.isSuffixOf n.1⟩

/-- Puts something at a place whose directory exists.  What is new comes last; what is replaced
keeps its rank, and loses what was below it unless it stays a directory. -/
def set (t : Tree) (place : Place) (node : Node) : Tree :=
  match t.node? place with
  | none => ⟨t.nodes ++ [(place, node)]⟩
  | some old =>
    if old = node then t
    else
      let kept := t.nodes.filter fun n => n.1 = place || !place.isSuffixOf n.1
      ⟨kept.map fun n => if n.1 = place then (place, node) else n⟩

/-- Makes the directories that lead to a place, where they are missing. -/
def ensureDirectory (t : Tree) : Place → Tree
  | [] => t
  | name :: parent =>
    let t := ensureDirectory t parent
    if (t.node? (name :: parent)).isSome then t else t.set (name :: parent) .directory

/-- Puts something at a place, with the directories that lead there. -/
def put (t : Tree) (place : Place) (node : Node) : Tree :=
  match place with
  | [] => t
  | name :: parent => (t.ensureDirectory parent).set (name :: parent) node

/-- The place that a path names, read without regard to links: its names, innermost first. -/
def placeOf (path : String) : Place :=
  (((PathSpec.stretches path.toList).filter (· ≠ [])).map String.ofList).reverse

/-- An entry to be made: a path that ends with a slash for a directory, any other for a file, or a
link with its target. -/
inductive Entry where
  | path (text : String)
  | link (text target : String)
deriving DecidableEq, Repr

/-- Makes an entry. -/
def add (t : Tree) : Entry → Tree
  | .path text =>
    t.put (placeOf text) (if text.toList.getLast? = some '/' then .directory else .file)
  | .link text target => t.put (placeOf text) (.link target)

/-- A tree from entries, made in order. -/
def ofEntries (entries : List Entry) : Tree := entries.foldl add empty

end Tree

end PathExpansion
