import PathExpansion.PathSpec.Component
import PathExpansion.PathSpec.Split

/-!
# Compiled path specifications

A path is compiled once: its parts become components, and a pattern for whole result paths is made
from them unless one is given.

* `PathSpec` — components, pattern, and how to walk.
* `PathSpec.compile` — compiles a path.
* `PathSpec.text` — a specification as a path again.
-/

namespace PathExpansion

/-- A path specification, ready to be walked. -/
structure PathSpec where
  components : List Component
  matcher : Pattern
  absolute : Bool
  follow : Bool
deriving DecidableEq, Repr

/-- Why a path cannot be compiled. -/
inductive CompileProblem where
  | path (problem : PathSpec.SplitProblem)
  | pattern (source : String) (problem : Regex.Problem)
  | notAPattern (typeName : String)

/-- The wording of a problem.  That of a pattern shows the pattern, unless a limit is in the
way. -/
def CompileProblem.message : CompileProblem → String
  | .path problem => problem.message
  | .pattern _ (.beyond limit) => limit.text
  | .pattern source problem =>
    "Invalid pattern " ++ Text.quote source ++ ": " ++ problem.message source
  | .notAPattern typeName => "match must be a string or compiled pattern, got " ++ typeName

/-- A pattern as it is given: a text to be compiled, or one that is compiled already. -/
inductive PatternInput where
  | text (source : String)
  | compiled (p : Pattern)
  | other (typeName : String)

/-- The pattern that a text spells. -/
def compilePattern (ignoreCase : Bool) (source : String) : Except CompileProblem Pattern :=
  (Pattern.compile ignoreCase source).mapError (.pattern source)

/-- The pattern that is given; one that is compiled already is taken as it is. -/
def PatternInput.compile (ignoreCase : Bool) : PatternInput → Except CompileProblem Pattern
  | .text source => compilePattern ignoreCase source
  | .compiled p => .ok p
  | .other typeName => .error (.notAPattern typeName)

/-- A glob with its pattern. -/
def Wildcard.compile (ignoreCase : Bool) (glob : String) (descent : Bool) :
    Except CompileProblem Wildcard := do
  let source := Glob.pattern glob
  let p ← compilePattern ignoreCase source
  return ⟨glob, source, p, descent⟩

/-- The component that a part of a path stands for. -/
def Component.compile (ignoreCase : Bool) (part : String) : Except CompileProblem Component :=
  if part = "" then .ok .ellipsis
  else if Glob.hasMagic part then (Wildcard.compile ignoreCase part false).map .wildcard
  else .ok (.literal part false)

namespace PathSpec

/-- Compiles a path.  `absolute` says whether a path that is no text starts at the root, `matching`
is the pattern of the results if it is not to be made from the components, and `follow` lets an
ellipsis go through symbolic links. -/
def compile (ignoreCase : Bool) (path : PathInput) (absolute : Option Bool)
    (matching : Option PatternInput) (follow : Bool) : Except CompileProblem PathSpec := do
  let (parts, absolute) ← (path.split absolute).mapError .path
  let components ← parts.mapM (Component.compile ignoreCase)
  let matcher ← match matching with
    | none => compilePattern ignoreCase (wholePathSource components absolute)
    | some given => given.compile ignoreCase
  return ⟨components, matcher, absolute, follow⟩

/-- Where the walk begins: the root, or the empty path for the current directory. -/
def rootPath (spec : PathSpec) : String := if spec.absolute then "/" else ""

/-- Every pair of slashes becomes three, from left to right. -/
def widen : List Char → List Char
  | '/' :: '/' :: rest => '/' :: '/' :: '/' :: widen rest
  | c :: rest => c :: widen rest
  | [] => []

/-- A specification as a path: the components between slashes, an ellipsis as three of them. -/
def text (spec : PathSpec) : String :=
  let body := "/".intercalate (spec.components.map Component.text)
  spec.rootPath ++ String.ofList (widen body.toList)

end PathSpec

end PathExpansion
