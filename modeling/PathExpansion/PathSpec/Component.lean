import PathExpansion.Glob

/-!
# The components of a path

Each part of a path is one of three things: a name, a glob, or the ellipsis that stands for any
number of directories.  A component knows which pattern its share of a result path follows.

* `Component` — the three kinds.
* `Component.fragment` — the pattern of a component's share.
* `wholePathSource` — the pattern of all results, from the patterns of the components.
-/

namespace PathExpansion

/-- A glob with the pattern that decides which names it matches.  `descent` marks the glob that
matches anything, by which an ellipsis goes down one level. -/
structure Wildcard where
  glob : String
  source : String
  pattern : Pattern
  descent : Bool
deriving DecidableEq, Repr

/-- The glob matches a name as a whole. -/
def Wildcard.accepts (w : Wildcard) (name : String) : Bool := w.pattern.matchesWhole name

/-- A component of a path.  `descent` marks a name that was reached by going down an ellipsis. -/
inductive Component where
  | literal (name : String) (descent : Bool)
  | wildcard (w : Wildcard)
  | ellipsis
deriving DecidableEq, Repr

namespace Component

/-- The pattern of a component's share of a path.  For an ellipsis that is a chain of directories,
each with the slash behind it. -/
def fragment : Component → String
  | literal name _ => escape name
  | wildcard w => w.source
  | ellipsis => "((?:.*/)?)"

/-- How a component is written in a path. -/
def text : Component → String
  | literal name _ => name
  | wildcard w => w.glob
  | ellipsis => ""

/-- Whether the component is the ellipsis. -/
def isEllipsis : Component → Bool
  | ellipsis => true
  | _ => false

/-- Only the ellipsis is one. -/
theorem eq_ellipsis {c : Component} (h : c.isEllipsis = true) : c = ellipsis := by
  cases c with
  | ellipsis => rfl
  | _ => cases h

/-- How a truth value is shown. -/
def truthText (b : Bool) : String := if b then "True" else "False"

/-- The structure of a component. -/
def inspect : Component → String
  | literal name descent =>
    "LiteralComponent(text=" ++ Text.quote name ++ ", descent=" ++ truthText descent ++ ")"
  | wildcard w =>
    "WildcardComponent(pattern=" ++ Text.quote w.glob ++ ", source=" ++ Text.quote w.source
      ++ ", descent=" ++ truthText w.descent ++ ")"
  | ellipsis => "EllipsisComponent()"

end Component

/-- Something of the components has to be found inside a directory: an ellipsis may stand for no
level at all, anything else may not. -/
def needsDirectory (components : List Component) : Bool := components.any (!·.isEllipsis)

/-- The patterns of components in a row.  A slash follows every component but the last and the
ellipsis, whose pattern brings its own; an ellipsis at the end also takes a name. -/
def joinedFragments : List Component → String
  | [] => ""
  | [.ellipsis] => "(.*)"
  | [c] => c.fragment
  | .ellipsis :: cs => Component.ellipsis.fragment ++ joinedFragments cs
  | c :: cs => c.fragment ++ "/" ++ joinedFragments cs

/-- The pattern of the result paths of some components.  Directories end with a slash, which is
why one may stand at the end. -/
def wholePathSource (components : List Component) (absolute : Bool) : String :=
  "^" ++ (if absolute then "/" else "") ++ joinedFragments components ++ "/?\\Z"

end PathExpansion
