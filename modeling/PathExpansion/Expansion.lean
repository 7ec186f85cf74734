import PathExpansion.Options
import PathExpansion.Scan.Run

/-!
# Expansions

An expansion turns a wildcard path into the paths that it stands for, one at a time.  It is set up
once from options, can be given more paths while it runs, and can be started over.

* `SetupError` — why an expansion cannot be set up.
* `Expansion` — one that is set up.
* `Expansion.create` — sets one up.
* `Expansion.next`, `Expansion.all` — the next result, and all that are left.
* `Expansion.append`, `Expansion.prepend`, `Expansion.reset`, `Expansion.close`,
  `Expansion.setMatch` — what can be done in between.

The filesystem is not part of an expansion: it may change between two results, and is given anew
with each question.
-/

namespace PathExpansion

/-- Why an expansion cannot be set up. -/
inductive SetupError where
  | option (error : OptionError)
  | type (problem : Options.TypeProblem)
  | invalid (problems : List Options.Problem)
  | compile (problem : CompileProblem)
  | template (limit : Regex.Limit)

/-- The wording of the error. -/
def SetupError.message : SetupError → String
  | .option error => "Invalid option: " ++ error.message
  | .type problem => problem.message
  | .invalid problems =>
    "Invalid configuration: " ++ "; ".intercalate (problems.map Options.Problem.message)
  | .compile problem => problem.message
  | .template limit => limit.text

/-- An expansion: its options, what stays the same while it runs, and the scan. -/
structure Expansion where
  options : Options
  plan : Plan
  scan : Scan

namespace Options

/-- The order of names. -/
def sorting (o : Options) : Sorting :=
  match o.sort with
  | .comparison compare => .byComparison compare
  | s => if s.truthy then .byName else .asListed

/-- The pattern of paths to leave out. -/
def excludePattern (o : Options) (ignoreCase : Bool) : Except CompileProblem (Option Pattern) :=
  if o.exclude.isNothing then .ok none
  else (o.exclude.toPatternInput.compile ignoreCase).map some

/-- The templates of derived paths. -/
def templates (o : Options) : Except Regex.Limit (Option (List Template)) :=
  if o.derive.isNothing then .ok none
  else
    (((o.derive.elements?.getD []).filterMap Datum.text?).mapM Template.parse).map some

/-- The error policy. -/
def errorPolicy (o : Options) : Policy :=
  match o.policy with
  | .policy p => p
  | _ => .standard

/-- The pattern of results, if it is given. -/
def matchInput (o : Options) : Option PatternInput :=
  if o.matching.isNothing then none else some o.matching.toPatternInput

/-- What stays the same during a scan. -/
def plan (o : Options) (ignoreCase : Bool) : Except SetupError Plan := do
  let exclude ← (o.excludePattern ignoreCase).mapError .compile
  let order ← o.walkOrder.mapError fun p => .invalid [p]
  let templates ← o.templates.mapError .template
  return ⟨order, o.sorting, exclude, templates, ignoreCase⟩

/-- The path specification. -/
def pathSpec (o : Options) (ignoreCase : Bool) : Except CompileProblem PathSpec :=
  PathSpec.compile ignoreCase o.path.toPathInput o.absolute.truth? o.matchInput o.follow.truthy

end Options

namespace Expansion

/-- Sets up an expansion from options, after looking at all of them. -/
def ofOptions (o : Options) : Except SetupError Expansion := do
  let problems ← o.problems.mapError .type
  if problems ≠ [] then .error (.invalid problems)
  else
    let ignoreCase ← o.ignoreCase.mapError .type
    let spec ← (o.pathSpec ignoreCase).mapError .compile
    let plan ← o.plan ignoreCase
    return ⟨o, plan, (Scan.idle o.errorPolicy).start spec⟩

/-- Sets up an expansion from options given by name.  The expansion itself cannot be among them. -/
def create (named : List (String × Setting)) : Except SetupError Expansion :=
  if named.any (·.1 == "self") then .error (.type .selfGiven)
  else do
    let o ← (Options.build [] named).mapError .option
    ofOptions o

/-! ## Results -/

/-- The next result, or none when there are no more. -/
def next (r : Reader) (e : Expansion) : Expansion × Outcome (Option Answer) :=
  let (scan, outcome) := e.scan.advance r e.plan
  ({ e with scan := scan }, outcome)

/-- All results that are left. -/
def all (r : Reader) (e : Expansion) : Expansion × Outcome (List Answer) :=
  let (scan, outcome) := e.scan.drain r e.plan
  ({ e with scan := scan }, outcome)

/-- There is nothing left to do. -/
def isExhausted (e : Expansion) : Bool := e.scan.isFinished

/-! ## Paths -/

/-- A further path, compiled.  Whether links are followed is taken from the options where it is not
said. -/
def compileRoot (e : Expansion) (path absolute follow : Setting) :
    Except CompileProblem PathSpec :=
  let follow := follow.truth?.getD e.options.follow.truthy
  PathSpec.compile e.plan.ignoreCase path.toPathInput absolute.truth? none follow

/-- Queues a path behind everything else. -/
def append (e : Expansion) (path absolute follow : Setting) : Except CompileProblem Expansion :=
  (e.compileRoot path absolute follow).map fun spec => { e with scan := e.scan.append spec }

/-- Serves a path first and resumes what is interrupted afterwards. -/
def prepend (e : Expansion) (path absolute follow : Setting) : Except CompileProblem Expansion :=
  (e.compileRoot path absolute follow).map fun spec => { e with scan := e.scan.prepend spec }

/-- Starts over with the path that was given at the start, and with an empty record of errors. -/
def reset (e : Expansion) : Expansion :=
  let scan := { e.scan with policy := e.scan.policy.reset }
  { e with scan := match scan.base with
      | none => scan
      | some spec => scan.start spec }

/-- Lets go of all directories; nothing is left until the expansion is reset. -/
def close (e : Expansion) : Expansion := { e with scan := e.scan.close }

/-! ## What it is made of -/

/-- The pattern that results of the first path have to match. -/
def matcher (e : Expansion) : Pattern := (e.scan.specOf .construction).matcher

/-- Replaces the pattern that results of the first path have to match. -/
def setMatch (e : Expansion) (pattern : Setting) : Except CompileProblem Expansion :=
  (pattern.toPatternInput.compile e.plan.ignoreCase).map fun p =>
    { e with scan := e.scan.setMatcher p }

/-- The components of the first path. -/
def components (e : Expansion) : List Component := (e.scan.specOf .construction).components

/-- The first path starts at the root. -/
def isAbsolute (e : Expansion) : Bool := (e.scan.specOf .construction).absolute

/-- The faults that the policy has recorded. -/
def incidents (e : Expansion) : List Incident := e.scan.policy.record

/-- The structure of an expansion: its path and its pattern. -/
def inspect (e : Expansion) : String :=
  "Wildcard(path=" ++ e.options.path.inspect ++ ", match=" ++ Text.quote e.matcher.source ++ ")"

end Expansion

end PathExpansion
