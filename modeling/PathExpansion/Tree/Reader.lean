import PathExpansion.Reader
import PathExpansion.Tree.Lookup

/-!
# Reading a tree

A tree answers the questions of a scan.  For trying out how scans deal with failure, directories
can be made to fail when they are opened, or after some of their names have been read.

* `Disturbance` — what fails, and whether listings show the two names that every directory has.
* `Tree.reader` — the answers of a tree.
* `Tree.identityOf` — the identity of a path, also of one that leads nowhere.
-/

namespace PathExpansion

/-- What goes wrong while a tree is read: the directories that cannot be opened, with the kind of
fault, and those that fail after some names.  `dots` shows the names of a directory itself and of
its parent in front of every listing. -/
structure Disturbance where
  openFaults : List (String × FaultKind)
  readFaults : List (String × Nat)
  dots : Bool

/-- Nothing goes wrong. -/
def Disturbance.none : Disturbance := ⟨[], [], false⟩

/-- A path without any slash at its end. -/
def trimSlashes (path : String) : String :=
  String.ofList (path.toList.reverse.dropWhile (· == '/')).reverse

/-- What is said about a path, slashes at its end aside. -/
def findByPath {α : Type} (path : String) (table : List (String × α)) : Option α :=
  (table.find? fun row => trimSlashes row.1 == trimSlashes path).map (·.2)

/-- The path is among those that were opened, slashes at its end aside. -/
def wasOpened (opened : List String) (path : String) : Bool :=
  opened.any fun p => trimSlashes p == trimSlashes path

/-- A listing that fails after `count` names, if it has that many. -/
def cutListing (path : String) (names : List String) : Option Nat → Listing
  | none => ⟨names, none⟩
  | some count =>
    if count ≤ names.length then
      ⟨names.take count, some (.ofSystem 5 "Simulated read failure" path)⟩
    else ⟨names, none⟩

namespace Tree

/-- The path leads to a directory. -/
def isDirectoryPath (t : Tree) (path : String) : Bool :=
  match t.resolve path with
  | .ok place => t.isDirectoryAt place
  | .error _ => false

/-- Opens a directory of a tree. -/
def openPath (t : Tree) (d : Disturbance) (path : String) : Except Fault Listing :=
  match findByPath path d.openFaults with
  | some kind =>
    .error (Fault.refined ⟨kind, [.integer 13, .text "Simulated failure", .text path]⟩)
  | none =>
    match t.resolve path with
    | .error problem => .error (.ofSystem problem.number problem.text path)
    | .ok place =>
      if t.isDirectoryAt place then
        let names := if d.dots then "." :: ".." :: t.names place else t.names place
        .ok (cutListing path names (findByPath path d.readFaults))
      else
        .error (.ofSystem LookupProblem.notADirectory.number LookupProblem.notADirectory.text path)

/-- The answers of a tree. -/
def reader (t : Tree) (d : Disturbance) : Reader where
  openDirectory := t.openPath d
  isPresent path := path ≠ "" && (t.resolve path).isOk
  isDirectory := t.isDirectoryPath
  isLink := t.isLinkPath
  identity path :=
    match t.resolve path with
    | .ok place => .place place
    | .error _ => .unresolved path
  extent := t.nodes.length + 2

/-- The identity of a path; one that leads nowhere is identified by how far it can be followed. -/
def identityOf (t : Tree) (path : String) : Identity :=
  match t.resolve path with
  | .ok place => .place place
  | .error _ => .unresolved ("/".intercalate (t.canonical path).reverse)

end Tree

end PathExpansion
