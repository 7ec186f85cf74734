/-!
# Orders of walking a tree

An ellipsis meets a directory and everything below it.  It can give the directory first, its
contents first, or go level by level.

* `WalkOrder` — the three orders.
* `WalkOrder.parse?` — the order of a name.
-/

namespace PathExpansion

/-- The order in which an ellipsis walks a tree. -/
inductive WalkOrder where
  /-- A directory comes before its contents. -/
  | normal
  /-- One level comes before the next; the directory that is walked is left out. -/
  | breadthFirst
  /-- A directory comes after its contents. -/
  | insideOut
deriving DecidableEq, Repr

namespace WalkOrder

/-- The name of an order. -/
def name : WalkOrder → String
  | normal => "normal"
  | breadthFirst => "breadth-first"
  | insideOut => "inside-out"

/-- The name of an order as a constant. -/
def constant : WalkOrder → String
  | normal => "NORMAL"
  | breadthFirst => "BREADTH_FIRST"
  | insideOut => "INSIDE_OUT"

/-- The names that orders go by. -/
def names : List (String × WalkOrder) :=
  [("normal", normal), ("pre", normal), ("breadth-first", breadthFirst),
    ("breadth_first", breadthFirst), ("bfs", breadthFirst), ("inside-out", insideOut),
    ("inside_out", insideOut), ("post", insideOut)]

/-- The order that a name stands for; case does not matter.  No character beyond ASCII has a lower
case that occurs in the names, so lower case within ASCII decides. -/
def parse? (text : String) : Option WalkOrder :=
  names.lookup (String.ofList (text.toList.map Char.toLower))

end WalkOrder

end PathExpansion
