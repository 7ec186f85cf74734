import PathExpansion.Policy
import PathExpansion.Scan.Frame
import PathExpansion.Template
import PathExpansion.WalkOrder

/-!
# The state of a scan

A scan is a current frame and a stack of frames that wait.  It also carries the error policy, an
account of the directory handles that it has been given and not given back, and a log of what it
has done.

* `Plan` — what stays the same during a scan.
* `Answer` — a result.
* `Event` — an entry of the log.
* `Scan` — the state.
* `Scan.save`, `Scan.push`, `Scan.pop` — how frames come and go.
* `Scan.start`, `Scan.append`, `Scan.prepend`, `Scan.close` — how roots come and go.
-/

namespace PathExpansion

/-- What stays the same during a scan: the order of walking, the order of names, the pattern of
paths to leave out with everything below, the templates of derived paths, and the case setting. -/
structure Plan where
  order : WalkOrder
  sorting : Sorting
  exclude : Option Pattern
  templates : Option (List Template)
  ignoreCase : Bool

/-- The glob that matches any name, by which an ellipsis goes down one level. -/
def Wildcard.anyEntry (ignoreCase : Bool) : Wildcard :=
  let flags : Regex.Flags := if ignoreCase then [.ignoreCase] else []
  let rest : Regex :=
    .capture 1 (.repeated .greedy 0 none (.one (.otherThan flags.comparison '/')))
  ⟨"*", "([^/]*)", ⟨"([^/]*)", rest, 1, flags⟩, true⟩

/-- The pattern of the star. -/
theorem Glob.pattern_star : Glob.pattern "*" = "([^/]*)" := by decide +kernel

/-- That pattern, compiled, is the one by which an ellipsis goes down. -/
theorem Pattern.compile_anyEntry (ignoreCase : Bool) :
    Pattern.compile ignoreCase "([^/]*)" = .ok (Wildcard.anyEntry ignoreCase).pattern := by
  have h : (Pattern.compile ignoreCase "([^/]*)").toOption
      = some (Wildcard.anyEntry ignoreCase).pattern := by
    cases ignoreCase <;> decide +kernel
  cases hc : Pattern.compile ignoreCase "([^/]*)" with
  | error e => simp [hc, Except.toOption] at h
  | ok p => simpa [hc, Except.toOption] using h

/-- The glob that matches any name is the star. -/
theorem Wildcard.compile_star (ignoreCase : Bool) :
    Wildcard.compile ignoreCase "*" true = .ok (.anyEntry ignoreCase) := by
  simp only [Wildcard.compile, Glob.pattern_star, compilePattern, Pattern.compile_anyEntry]
  rfl

/-- A result: a path, or a path with those derived from it. -/
inductive Answer where
  | path (p : String)
  | derived (ps : List String)
deriving DecidableEq, Repr

/-- A result in a trace. -/
def Answer.text : Option Answer → String
  | none => "None"
  | some (.path p) => p
  | some (.derived ps) => (Datum.list (ps.map .text)).inspect

/-- An entry of the log. -/
inductive Event where
  /-- A directory was asked for. -/
  | opened (path : String)
  /-- The policy printed a warning. -/
  | warned (text : String)
  /-- The current frame had its turn. -/
  | entered (phase : Phase)
  /-- A frame was put on the stack. -/
  | saved (frame : Frame)
  /-- A frame became current again. -/
  | resumed (frame : Frame)
  /-- A path was left out. -/
  | excluded (path : String)
  /-- A directory was met again below itself. -/
  | cycle (path : String)
  /-- A result was handed out. -/
  | returned (answer : Option Answer)

/-- The line of an event in a trace, if it has one. -/
def Event.traceLine? : Event → Option String
  | .opened _ | .warned _ => none
  | .entered phase => some ("In state " ++ phase.name)
  | .saved frame => some ("Push state: " ++ frame.describe)
  | .resumed frame => some ("Pop state to " ++ frame.phase.name ++ " " ++ frame.describe)
  | .excluded path => some ("Excluded " ++ path)
  | .cycle path => some ("Cycle at " ++ path)
  | .returned answer => some ("Returned " ++ Answer.text answer)

/-- The directory that was asked for. -/
def Event.openedPath? : Event → Option String
  | .opened path => some path
  | _ => none

/-- The warning that was printed. -/
def Event.warning? : Event → Option String
  | .warned text => some text
  | _ => none

/-- The state of a scan.  `base` is the specification it was started with; `fitting` is the pattern
that the templates of derived paths were last looked at with; `handles` are the directory handles it
holds, of the `issued` it has been given; `events` is the log, latest first.

No result is part of the state.  A step that comes to a result ends the call it was taken in, and
the call hands the result out, so there is none to be kept between two calls: a place for one would
always be empty then, as `Staging.delivers_iff` says. -/
structure Scan where
  frame : Frame
  stack : List Frame
  base : Option PathSpec
  policy : Policy
  fitting : Option Fitting
  handles : List Nat
  issued : Nat
  events : List Event

namespace Scan

/-- A scan that has not been started. -/
def idle (policy : Policy) : Scan := ⟨.finished, [], none, policy, none, [], 0, []⟩

/-- Adds to the log. -/
def emit (s : Scan) (e : Event) : Scan := { s with events := e :: s.events }

/-- The specification of a root.  A frame belongs to the construction only once there is one. -/
def specOf (s : Scan) : Root → PathSpec
  | .queued spec => spec
  | .construction => s.base.getD ⟨[], ⟨"", .empty, 0, []⟩, false, false⟩

/-- The specification that the current frame belongs to. -/
def spec (s : Scan) : PathSpec := s.specOf s.frame.root

/-- The scan is over: nothing is current and nothing waits. -/
def isFinished (s : Scan) : Bool := s.frame.phase == .finished && s.stack.isEmpty

/-- The number of frames that wait. -/
def depth (s : Scan) : Nat := s.stack.length

/-! ## Frames -/

/-- Puts a frame on the stack. -/
def save (s : Scan) (f : Frame) : Scan := { s with stack := f :: s.stack }.emit (.saved f)

/-- Saves the current frame and goes on in a copy of it. -/
def push (s : Scan) : Scan := { s.save s.frame with frame := s.frame.successor }

/-- Resumes the frame saved last, or ends. -/
def pop (s : Scan) : Scan :=
  match s.stack with
  | [] => { s with frame := .finished }.emit (.resumed .finished)
  | f :: fs => { s with frame := f, stack := fs }.emit (.resumed f)

/-- Gives back handles. -/
def release (s : Scan) (given : List Nat) : Scan :=
  { s with handles := s.handles.filter (!given.contains ·) }

/-- Closes the cursor of the current frame. -/
def closeCursor (s : Scan) : Scan :=
  { s.release s.frame.handle?.toList with frame := { s.frame with cursor := none } }

/-! ## Roots -/

/-- Closes every cursor and drops every frame. -/
def close (s : Scan) : Scan :=
  { s.release ((s.frame :: s.stack).filterMap Frame.handle?) with frame := .finished, stack := [] }

/-- Drops everything and begins with a specification. -/
def start (s : Scan) (spec : PathSpec) : Scan :=
  { s.close with base := some spec, frame := .initial .construction }

/-- Queues a specification behind everything else.  A scan that was over goes on with it. -/
def append (s : Scan) (spec : PathSpec) : Scan :=
  let queued := { s with stack := s.stack ++ [.initial (.queued spec)] }
  if s.frame.phase = .finished then queued.pop else queued

/-- Goes on with a specification now; what is interrupted waits. -/
def prepend (s : Scan) (spec : PathSpec) : Scan :=
  let waiting := if s.frame.phase = .finished then s else s.save s.frame
  { waiting with frame := .initial (.queued spec) }

/-- Replaces the pattern of the specification that the scan was started with. -/
def setMatcher (s : Scan) (matcher : Pattern) : Scan :=
  { s with base := s.base.map fun spec => { spec with matcher := matcher } }

/-- The log since it was last taken, oldest first, and the scan without it. -/
def takeEvents (s : Scan) : List Event × Scan := (s.events.reverse, { s with events := [] })

end Scan

end PathExpansion
