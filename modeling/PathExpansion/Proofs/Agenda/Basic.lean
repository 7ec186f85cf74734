import PathExpansion.Scan.Run

/-!
# What a scan is still to do

A scan is a current frame and a stack of suspended ones.  Each of them is a descent that was
interrupted somewhere, with a directory half read or a queue half drained.  This file says, without
any stack, what such a descent is still going to do: a list of *deeds*, in order.

* `Deed` — one thing that a scan does: it moves on, opens a directory, hands over a fault, or
  arrives at a path with all components taken.
* `Reader.listed` — what a directory gives when it is opened.
* `Trip` — what stays the same while one root is walked.
* **`Trip.walk`** — the deeds of a descent, by recursion on the components that are left.  The
  ellipsis is the only component that needs a second recursion, on the levels below a path.
* `Frame.agenda`, **`Scan.agenda`** — the deeds of a frame, and of a scan: those of the current
  frame, then those of the stack from the top.

The recursion for an ellipsis is cut off at `Reader.extent` levels.  For a reader that is finite the
cut is never reached; `Proofs/Agenda/Finite.lean` proves the equations without it.
-/

namespace PathExpansion

/-- One thing that a scan does on its way. -/
inductive Deed where
  /-- It goes a step further, and nothing is seen of it. -/
  | moved
  /-- It asks for a directory. -/
  | opened (path : String)
  /-- It hands a fault to the error policy. -/
  | failed (incident : Incident)
  /-- It has taken all components of a root; whether the path is a result is not decided yet. -/
  | arrived (root : Root) (path : String)

namespace Deed

/-- The directory that was asked for. -/
def openedPath? : Deed → Option String
  | opened path => some path
  | _ => none

/-- The fault of opening a directory. -/
def openFault (path : String) (fault : Fault) : Deed :=
  failed ⟨orDot path, "open_directory", fault⟩

/-- The fault that ended the reading of a directory, if one did. -/
def readFault (path : String) (fault : Option Fault) : List Deed :=
  fault.toList.map fun fault => failed ⟨orDot path, "read_directory", fault⟩

end Deed

/-- **What a directory gives when it is opened**: its names in the order that is wanted, and the
fault that comes after them.  If an order is wanted, all names are read first, so that a listing
which fails on the way gives nothing but its fault. -/
def Reader.listed (r : Reader) (plan : Plan) (directory : String) : Except Fault Listing :=
  match r.openDirectory (orDot directory) with
  | .error fault => .error fault
  | .ok listing =>
    if plan.sorting.isEager then
      match listing.fault with
      | some fault => .error fault
      | none =>
        (plan.sorting.arrange plan.ignoreCase directory listing.names).map fun names =>
          ⟨names, none⟩
    else .ok listing

/-- A name is wanted by a glob if the glob matches it and it is not one of the two that every
directory has. -/
def Wildcard.wants (w : Wildcard) (name : String) : Bool := !isDotName name && w.accepts name

/-- What a descent does from a path on, given the directories entered on the way there. -/
abbrev Descent := String → Visited → List Deed

/-- What stays the same while one root is walked. -/
structure Trip where
  reader : Reader
  plan : Plan
  follow : Bool
  root : Root

namespace Trip

variable (t : Trip)

/-! ## One name, one directory -/

/-- The path after going down by a name, with the directories entered on the way; nothing if the
path is left out.  It ends with a slash only if it may be entered. -/
def extend (path : String) (visited : Visited) (name : String) (descent : Bool) :
    Option (String × Visited) :=
  let path := path ++ name
  if t.plan.exclude.any (·.finds path) then none
  else if !t.reader.isDirectory path then some (path, visited)
  else if !descent then some (path ++ "/", visited)
  else if t.follow then
    let identity := t.reader.identity path
    if visited.contains identity then some (path, visited)
    else some (path ++ "/", visited.insert identity)
  else if t.reader.isLink path then some (path, visited)
  else some (path ++ "/", visited)

/-- The directories entered, with that of the path itself if links are followed. -/
def entered (path : String) (visited : Visited) : Visited :=
  if t.follow && isEnterable path then visited.insert (t.reader.identity (orDot path))
  else visited

/-- All components are taken. -/
def arrive : Descent := fun path _ => [.arrived t.root path]

/-- Goes down by a name, and on with `next`.  If something has to be found inside, a path that
cannot be entered ends the descent. -/
def literal (name : String) (descent deep : Bool) (next : Descent) : Descent := fun path visited =>
  .moved :: match t.extend path visited name descent with
    | none => []
    | some (path, visited) => if !isEnterable path && deep then [] else next path visited

/-- Goes on with each of the names that are wanted. -/
def names (wanted : String → Bool) (next : String → Descent) (names : List String) : Descent :=
  fun path visited => (names.filter wanted).flatMap fun name => .moved :: next name path visited

/-- Opens the directory and goes on with each of its names that are wanted. -/
def listing (wanted : String → Bool) (next : String → Descent) : Descent := fun path visited =>
  .opened (orDot path) :: match t.reader.listed t.plan path with
    | .error fault => [.openFault path fault]
    | .ok listing =>
      names wanted next listing.names path visited ++ Deed.readFault path listing.fault ++ [.moved]

/-! ## Level by level -/

/-- The paths that the given names lead to, one level below a path. -/
def reached (names : List String) (path : String) (visited : Visited) : List (String × Visited) :=
  (names.filter (!isDotName ·)).filterMap fun name => t.extend path visited name true

/-- Goes on with each path that the given names lead to; if something has to be found inside, only
with those that can be entered. -/
def found (deep : Bool) (next : Descent) (names : List String) : Descent := fun path visited =>
  ((t.reached names path visited).filter fun p => isEnterable p.1 || !deep).flatMap fun p =>
    .moved :: next p.1 p.2

/-- The paths among them that will be listed in their turn. -/
def directories (names : List String) (path : String) (visited : Visited) :
    List (String × Visited) :=
  (t.reached names path visited).filter fun p => isEnterable p.1

/-- Lists one directory of a level. -/
def visit (deep : Bool) (next : Descent) (d : String × Visited) : List Deed :=
  .opened (orDot d.1) :: match t.reader.listed t.plan d.1 with
    | .error fault => [.openFault d.1 fault]
    | .ok listing =>
      t.found deep next listing.names d.1 d.2 ++ Deed.readFault d.1 listing.fault

/-- The directories right below one directory of a level. -/
def subdirectories (d : String × Visited) : List (String × Visited) :=
  match t.reader.listed t.plan d.1 with
  | .error _ => []
  | .ok listing => t.directories listing.names d.1 d.2

/-- Lists the directories of a level, then those of the next, `n` levels in all. -/
def levels (deep : Bool) (next : Descent) : (n : Nat) → List (String × Visited) → List Deed
  | 0, _ => []
  | n + 1, dirs =>
    dirs.flatMap (t.visit deep next) ++ levels deep next n (dirs.flatMap t.subdirectories)

/-! ## Ellipses -/

/-- An ellipsis without a level, `next`, and with one more, `under`, in the order of the walk. -/
def combine (next under : Descent) : Descent := fun path visited =>
  let visited := t.entered path visited
  let deeper := if isEnterable path then under path visited else []
  match t.plan.order with
  | .insideOut => .moved :: deeper ++ next path visited
  | _ => .moved :: next path visited ++ .moved :: deeper

/-- An ellipsis that gives a directory next to its contents, for `n` levels. -/
def nested (deep : Bool) (next : Descent) : (n : Nat) → Descent
  | 0 => t.combine next fun _ _ => []
  | n + 1 =>
    t.combine next <| t.listing (Wildcard.anyEntry t.plan.ignoreCase).wants fun name =>
      t.literal name true deep (nested deep next n)

/-- An ellipsis that goes level by level, for `n` levels.  The directory itself is no result if
nothing else remains. -/
def byLevel (deep bare : Bool) (next : Descent) (n : Nat) : Descent := fun path visited =>
  let visited := t.entered path visited
  .moved :: (if bare then [] else next path visited)
    ++ t.levels deep next n (if isEnterable path then [(path, visited)] else []) ++ [.moved]

/-- An ellipsis in front of `rest`, for `n` levels. -/
def ellipsis (rest : List Component) (next : Descent) (n : Nat) : Descent :=
  match t.plan.order with
  | .breadthFirst => t.byLevel (needsDirectory rest) rest.isEmpty next n
  | _ => t.nested (needsDirectory rest) next n

/-! ## Descents -/

/-- **The deeds of a descent** that has the given components left. -/
def walk : List Component → Descent
  | [] => t.arrive
  | .literal name descent :: rest => t.literal name descent (needsDirectory rest) (walk rest)
  | .wildcard w :: rest =>
    t.listing w.wants fun name => t.literal name w.descent (needsDirectory rest) (walk rest)
  | .ellipsis :: rest => t.ellipsis rest (walk rest) (t.reader.extent + 1)

/-- What a frame that reads names for a glob does with one of them. -/
def underGlob (f : Frame) (name : String) : Descent :=
  t.literal name (f.wildcard.any (·.descent)) (needsDirectory f.remaining) (t.walk f.remaining)

/-- What is left of a walk by level: of the directory that is open, the names not yet read, and the
directories that wait, with those that the names lead to behind them. -/
def restOfLevels (f : Frame) (pending : List (String × Visited)) : List Deed :=
  let deep := needsDirectory f.remaining
  let next := t.walk f.remaining
  let n := t.reader.extent + 1
  match f.cursor with
  | none => t.levels deep next n pending ++ [.moved]
  | some c =>
    t.found deep next c.unread f.path f.visited ++ Deed.readFault f.path c.fault
      ++ t.levels deep next n (pending ++ t.directories c.unread f.path f.visited) ++ [.moved]

end Trip

/-! ## Frames and scans -/

section

variable (r : Reader) (plan : Plan)

/-- **The deeds of a frame** whose root has the specification `spec`. -/
def Frame.agenda (spec : PathSpec) (f : Frame) : List Deed :=
  let t : Trip := ⟨r, plan, spec.follow, f.root⟩
  match f.phase with
  | .initial => .moved :: t.walk spec.components spec.rootPath []
  | .component => t.walk f.remaining f.path f.visited
  | .listing =>
    match f.cursor with
    | none => [.moved]
    | some c =>
      Trip.names f.wants (t.underGlob f) c.unread f.path f.visited
        ++ Deed.readFault f.path c.fault ++ [.moved]
  | .ellipsis =>
    match f.pending with
    | none =>
      .moved :: if isEnterable f.path then
        t.walk (.wildcard (.anyEntry plan.ignoreCase) :: .ellipsis :: f.remaining) f.path f.visited
      else []
    | some pending => t.restOfLevels f pending
  | .finished => []

/-- The deeds of frames that wait, the first of them first. -/
def Scan.agendaOf (s : Scan) (fs : List Frame) : List Deed :=
  fs.flatMap fun f => f.agenda r plan (s.specOf f.root)

/-- **The deeds of a scan**: those of the current frame, and then those of the frames that wait. -/
def Scan.agenda (s : Scan) : List Deed := s.agendaOf r plan (s.frame :: s.stack)

end

end PathExpansion
