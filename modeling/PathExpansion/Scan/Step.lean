import PathExpansion.Scan.Basic

/-!
# One step of a scan

When the current frame has its turn it does one small thing: it takes up its specification, takes
the next component, reads names until one matches, or takes an ellipsis a level further.  Each of
these leaves a frame that is current, and perhaps one more on the stack, so that whatever interrupts
the scan finds it in a state from which it can go on.

* `Signal`, `Turn` — what a step comes to.
* `Scan.extend` — appends a name to the path of the current frame.
* `Scan.component`, `Scan.listing`, `Scan.ellipsis` — what the phases do.
* `Scan.turn` — one step.

A fault of the operating system goes to the error policy wherever it arises; any other error ends
the step where it stands.
-/

namespace PathExpansion

/-- What stops a step with an error. -/
inductive ScanError where
  | fault (f : Fault)
  | policy (stop : PolicyStop)
  | missingGroup (e : MissingGroup)

/-- The wording of the error. -/
def ScanError.message : ScanError → String
  | .fault f => f.message
  | .policy stop => stop.message
  | .missingGroup e => e.message

/-- What a step comes to: it goes on, hands out a result or the end, or stops with an error. -/
inductive Signal where
  | running
  | answered (answer : Option Answer)
  | raised (error : ScanError)

/-- The scan after a step, and what the step came to. -/
abbrev Turn := Scan × Signal

/-- The step goes on with `next`, unless it has come to something. -/
def Turn.andThen (t : Turn) (next : Scan → Turn) : Turn :=
  match t.2 with
  | .running => next t.1
  | _ => t

namespace Scan

variable (r : Reader) (plan : Plan)

/-! ## Faults and directories -/

/-- Hands a fault of the operating system to the policy. -/
def report (s : Scan) (fault : Fault) (operation path : String) : Turn :=
  let handled := s.policy.handle ⟨orDot path, operation, fault⟩
  let s := { s with
    policy := handled.policy
    events := (handled.warning.map Event.warned).toList ++ s.events }
  match handled.stop with
  | none => (s, .running)
  | some stop => (s, .raised (.policy stop))

/-- Hands a fault of opening a directory to the policy, if it is one for it. -/
def reportOpen (s : Scan) (fault : Fault) (path : String) : Turn :=
  if fault.isSystem then s.report fault "open_directory" path else (s, .raised (.fault fault))

/-- Takes a handle for a listing, with the cursor that reads it. -/
def takeHandle (s : Scan) (listing : Listing) : Scan × Cursor :=
  ({ s with handles := s.issued :: s.handles, issued := s.issued + 1 },
    ⟨some s.issued, listing.names, listing.fault⟩)

/-- Reads a cursor to its end and puts the names in order.  The handle is given back as soon as the
reading has come to something, be it a fault, and before any two names are compared. -/
def sortCursor (s : Scan) (directory : String) (cursor : Cursor) : Scan × Except Fault Cursor :=
  let drained := cursor.drain
  let closed := s.release cursor.handle.toList
  match drained with
  | .error fault => (closed, .error fault)
  | .ok names =>
    match plan.sorting.arrange plan.ignoreCase directory names with
    | .error fault => (closed, .error fault)
    | .ok arranged => (closed, .ok (.ofNames arranged))

/-- Whatever the reading and the comparisons come to, the handle has been given back, and no
other. -/
theorem sortCursor_eq (s : Scan) (directory : String) (cursor : Cursor) :
    s.sortCursor plan directory cursor
      = (s.release cursor.handle.toList, cursor.drain >>= fun names =>
          (plan.sorting.arrange plan.ignoreCase directory names).map Cursor.ofNames) := by
  unfold sortCursor
  cases cursor.drain with
  | error fault => rfl
  | ok names =>
    simp only [bind, Except.bind]
    cases plan.sorting.arrange plan.ignoreCase directory names <;> rfl

/-- Opens a directory for the current frame.  If names are wanted in order, all of them are read
before the first is used. -/
def openCursor (s : Scan) (directory : String) : Scan × Except Fault Cursor :=
  let asked := s.emit (.opened (orDot directory))
  match r.openDirectory (orDot directory) with
  | .error fault => (asked, .error fault)
  | .ok listing =>
    let (given, cursor) := asked.takeHandle listing
    if plan.sorting.isEager then given.sortCursor plan directory cursor
    else (given, .ok cursor)

/-- Ends a listing that has no names left: it is closed, and if it failed the policy hears of
it. -/
def endListing (s : Scan) : Turn :=
  match s.frame.cursor.bind (·.fault) with
  | some fault => s.closeCursor.report fault "read_directory" s.frame.path
  | none => (s.closeCursor, .running)

/-! ## Going down -/

/-- Appends a name to the path of the current frame: the new path and the directories entered on
the way to it, or nothing if the path is to be left out.  The new path ends with a slash only if it
may be entered.  Below an ellipsis that holds for a directory which is no link, or, if links are
followed, for one that has not been entered yet. -/
def extend (s : Scan) (name : String) (descent : Bool) : Scan × Option (String × Visited) :=
  let path := s.frame.path ++ name
  let visited := s.frame.visited
  if plan.exclude.any (·.finds path) then (s.emit (.excluded path), none)
  else if !r.isDirectory path then (s, some (path, visited))
  else if !descent then (s, some (path ++ "/", visited))
  else if s.spec.follow then
    let identity := r.identity path
    if visited.contains identity then (s.emit (.cycle path), some (path, visited))
    else (s, some (path ++ "/", visited.insert identity))
  else if r.isLink path then (s, some (path, visited))
  else (s, some (path ++ "/", visited))

/-- Goes down by a name.  What cannot be entered ends here if something is still to be found
inside. -/
def literal (s : Scan) (name : String) (descent : Bool) : Turn :=
  match s.extend r plan name descent with
  | (s, none) => (s.pop, .running)
  | (s, some (path, visited)) =>
    let s := { s with frame := { s.frame with path := path, visited := visited } }
    if !isEnterable path && needsDirectory s.frame.remaining then (s.pop, .running)
    else (s, .running)

/-- Opens the directory whose names a glob is matched against. -/
def openWildcard (s : Scan) (w : Wildcard) : Turn :=
  match s.openCursor r plan s.frame.path with
  | (s', .ok cursor) =>
    ({ s' with frame :=
        { s'.frame with cursor := some cursor, wildcard := some w, phase := .listing } }, .running)
  | (s', .error fault) =>
    if fault.isSystem then s'.pop.report fault "open_directory" s.frame.path
    else (s', .raised (.fault fault))

/-- Takes an ellipsis one level down: any entry, and the ellipsis again. -/
def expand (s : Scan) : Turn :=
  if isEnterable s.frame.path then
    ({ s with frame := { s.frame with
        remaining :=
          .wildcard (.anyEntry plan.ignoreCase) :: .ellipsis :: s.frame.remaining
        phase := .component } }, .running)
  else (s.pop, .running)

/-- Notes that the directory of the current frame has been entered, if links are followed. -/
def noteEntered (s : Scan) : Scan :=
  if s.spec.follow && isEnterable s.frame.path then
    { s with frame := { s.frame with
        visited := s.frame.visited.insert (r.identity (orDot s.frame.path)) } }
  else s

/-- The frame that walks level by level from the current one. -/
def levelFrame (f : Frame) : Frame :=
  { f with
    phase := .ellipsis
    pending := some (if isEnterable f.path then [(f.path, f.visited)] else []) }

/-- Takes an ellipsis: its results without a level and those with levels, in the order of the
walk.  Level by level, the directory itself is no result if nothing else remains. -/
def enterEllipsis (s : Scan) : Turn :=
  let s := s.noteEntered r
  match plan.order with
  | .normal =>
    let s := { s with frame := { s.frame with phase := .ellipsis } }.push
    ({ s with frame := { s.frame with phase := .component } }, .running)
  | .insideOut => s.push.expand plan
  | .breadthFirst =>
    let s := s.save (levelFrame s.frame)
    if s.frame.remaining.isEmpty then (s.pop, .running) else (s, .running)

/-! ## Results -/

/-- The result for a path.  Derived paths refer to the pattern the scan was started with, whatever
root the path is from. -/
def answerFor (s : Scan) (path : String) (spec : PathSpec) : Scan × Except MissingGroup Answer :=
  match plan.templates with
  | none => (s, .ok (.path path))
  | some templates =>
    let derived := derivePathsWith s.fitting templates (s.base.getD spec).matcher path
    ({ s with fitting := derived.1 }, derived.2.map .derived)

/-- Ends a descent that has no component left: the path is a result if the pattern finds something
in it and it exists. -/
def arrive (s : Scan) : Turn :=
  let path := s.frame.path
  let spec := s.spec
  let popped := s.pop
  if spec.matcher.finds path && r.isPresent path then
    match popped.answerFor plan path spec with
    | (s, .ok answer) => (s, .answered (some answer))
    | (s, .error e) => (s, .raised (.missingGroup e))
  else (popped, .running)

/-! ## Phases -/

/-- Takes up the specification. -/
def begin (s : Scan) : Turn :=
  ({ s with frame := { s.frame with
      path := s.spec.rootPath
      remaining := s.spec.components
      visited := []
      phase := .component } }, .running)

/-- Takes the next component. -/
def component (s : Scan) : Turn :=
  match s.frame.remaining with
  | [] => s.arrive r plan
  | c :: rest =>
    let s := { s with frame := { s.frame with remaining := rest } }
    match c with
    | .ellipsis => s.enterEllipsis r plan
    | .literal name descent => s.literal r plan name descent
    | .wildcard w => s.openWildcard r plan w

/-- Reads names until the glob matches one, and goes down by it. -/
def listing (s : Scan) : Turn :=
  match s.frame.cursor with
  | none => (s.pop, .running)
  | some cursor =>
    match cursor.unread.dropWhile (!s.frame.wants ·) with
    | name :: rest =>
      let s := { s with frame := s.frame.withUnread rest }.push
      let descent := s.frame.wildcard.any (·.descent)
      ({ s with frame := { s.frame with
          remaining := .literal name descent :: s.frame.remaining
          phase := .component } }, .running)
    | [] =>
      Turn.andThen ({ s with frame := s.frame.withUnread [] }.endListing) fun s => (s.pop, .running)

/-! ## Level by level -/

/-- Reads the names of the open directory until one leads to a path that is wanted.  A directory is
queued to be listed later; anything else is wanted only if nothing has to be found inside. -/
def nextOfLevel : List String → Scan → Scan × Option (String × Visited)
  | [], s => ({ s with frame := s.frame.withUnread [] }, none)
  | name :: rest, s =>
    let s := { s with frame := s.frame.withUnread rest }
    if isDotName name then nextOfLevel rest s
    else
      match s.extend r plan name true with
      | (s, none) => nextOfLevel rest s
      | (s, some (path, visited)) =>
        if isEnterable path then
          let pending := s.frame.pending.map (· ++ [(path, visited)])
          ({ s with frame := { s.frame with pending := pending } }, some (path, visited))
        else if needsDirectory s.frame.remaining then nextOfLevel rest s
        else (s, some (path, visited))

/-- Goes on at a path that was found on the level, while the level waits. -/
def leaveLevel (s : Scan) (path : String) (visited : Visited) : Scan :=
  let s := s.push
  { s with frame := { s.frame with path := path, visited := visited, phase := .component } }

/-- Reads on in the open directory; `next` goes on when it has nothing more to give. -/
def searchListing (s : Scan) (unread : List String) (next : Scan → Turn) : Turn :=
  match s.nextOfLevel r plan unread with
  | (s, some (path, visited)) => (s.leaveLevel path visited, .running)
  | (s, none) => Turn.andThen s.endListing next

/-- Lists the queued directories in turn until one gives a path that is wanted. -/
def searchQueue : List (String × Visited) → Scan → Turn
  | [], s => (s.pop, .running)
  | (path, visited) :: rest, s =>
    let s := { s with frame :=
      { s.frame with path := path, visited := visited, pending := some rest } }
    match s.openCursor r plan path with
    | (s, .error fault) => Turn.andThen (s.reportOpen fault path) fun s => searchQueue rest s
    | (s, .ok cursor) =>
      let s := { s with frame := { s.frame with cursor := some cursor } }
      s.searchListing r plan cursor.unread fun s => searchQueue rest s

/-- Goes on level by level. -/
def level (s : Scan) (pending : List (String × Visited)) : Turn :=
  match s.frame.cursor with
  | none => s.searchQueue r plan pending
  | some cursor => s.searchListing r plan cursor.unread fun s => s.searchQueue r plan pending

/-- Takes an ellipsis a level further. -/
def ellipsis (s : Scan) : Turn :=
  match s.frame.pending with
  | some pending => s.level r plan pending
  | none => s.expand plan

/-! ## One step -/

/-- The current frame has its turn. -/
def dispatch (s : Scan) : Turn :=
  match s.frame.phase with
  | .initial => s.begin
  | .component => s.component r plan
  | .listing => s.listing
  | .ellipsis => s.ellipsis r plan
  | .finished => (s, .answered none)

/-- One step, with its entries in the log. -/
def turn (s : Scan) : Turn :=
  match (s.emit (.entered s.frame.phase)).dispatch r plan with
  | (s, .answered answer) => (s.emit (.returned answer), .answered answer)
  | t => t

end Scan

end PathExpansion
