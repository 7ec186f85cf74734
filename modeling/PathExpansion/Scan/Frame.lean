import PathExpansion.Listing
import PathExpansion.PathSpec.Compile
import PathExpansion.Reader

/-!
# Frames

A scan enumerates paths by descending, and can stop after each one.  What it still has to do is kept
as a stack of frames; a frame is the point where one descent goes on: what is left of the path
specification, the path so far, and the directory that is being listed.

* `Phase` — what a frame does when its turn comes.
* `Root` — the specification that a frame belongs to.
* `Frame` — one such point.
* `Frame.describe` — its line in a trace.
-/

namespace PathExpansion

/-- What a frame does when its turn comes. -/
inductive Phase where
  /-- It takes up its specification. -/
  | initial
  /-- It takes the next component. -/
  | component
  /-- It reads names from a directory. -/
  | listing
  /-- It takes an ellipsis one level further. -/
  | ellipsis
  /-- It does nothing any more. -/
  | finished
deriving DecidableEq, Repr

/-- The name of a phase in a trace. -/
def Phase.name : Phase → String
  | .initial => "initial"
  | .component => "nextdir"
  | .listing => "wildcard"
  | .ellipsis => "ellipsis"
  | .finished => "finished"

/-- The specification that a frame belongs to: the one the scan was started with, whose pattern may
be replaced while frames of it wait, or one that was queued. -/
inductive Root where
  | construction
  | queued (spec : PathSpec)
deriving DecidableEq, Repr

/-- The directories entered along a descent. -/
abbrev Visited := List Identity

/-- The directories entered along a descent, and one more. -/
def Visited.insert (v : Visited) (i : Identity) : Visited := if v.contains i then v else i :: v

/-- The point where one descent goes on.

* `remaining` holds the components that are still to be taken,
* `path` the path so far, which ends with a slash if it is a directory that may be entered,
* `cursor` the directory that is being listed,
* `wildcard` the glob that its names are matched against,
* `visited` the directories entered on the way, and
* `pending` the directories that wait to be listed, if the walk goes level by level. -/
structure Frame where
  phase : Phase
  root : Root
  remaining : List Component
  path : String
  cursor : Option Cursor
  wildcard : Option Wildcard
  visited : Visited
  pending : Option (List (String × Visited))

namespace Frame

/-- A frame that has yet to take up its specification. -/
def initial (root : Root) : Frame := ⟨.initial, root, [], "", none, none, [], none⟩

/-- The frame of a scan that is over. -/
def finished : Frame := ⟨.finished, .construction, [], "", none, none, [], none⟩

/-- A copy that goes on without the directories that the frame has open or waiting. -/
def successor (f : Frame) : Frame := { f with cursor := none, pending := none }

/-- A frame that has let go of its open directory and of those that wait. -/
def close (f : Frame) : Frame := { f with cursor := none, pending := f.pending.map fun _ => [] }

/-- The handle that the frame's cursor holds. -/
def handle? (f : Frame) : Option Nat := f.cursor.bind (·.handle)

/-- The cursor has some names left and no others. -/
def withUnread (f : Frame) (names : List String) : Frame :=
  { f with cursor := f.cursor.map fun c => { c with unread := names } }

/-- The frame's line in a trace: the path so far, the glob, and what remains. -/
def describe (f : Frame) : String :=
  "resulting_path: " ++ f.path ++ " Wildcard: " ++ (f.wildcard.map (·.glob)).getD ""
    ++ " path_remaining: " ++ "/".intercalate (f.remaining.map Component.text)

end Frame

/-- Every directory lists itself and its parent; a scan passes over both. -/
def isDotName (name : String) : Bool := name == "." || name == ".."

/-- A name is wanted if the glob of the frame matches it. -/
def Frame.wants (f : Frame) (name : String) : Bool :=
  !isDotName name && f.wildcard.any (·.accepts name)

/-- A path may be entered if it is empty, which is the current directory, or ends with a slash. -/
def isEnterable (path : String) : Bool := path == "" || path.toList.getLast? == some '/'

/-- A path as a directory to be opened: the current one has a name then. -/
def orDot (path : String) : String := if path = "" then "." else path

end PathExpansion
