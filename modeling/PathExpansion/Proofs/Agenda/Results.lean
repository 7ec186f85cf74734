import PathExpansion.Proofs.Agenda.Run

/-!
# What deeds show

Of what a scan does, two things can be seen from outside: the directories it asks for and the paths
it hands out.  Both come to one list of *sights*, in the order in which they happen.

* `Sight`, `sightsIn` — what deeds show.
* `Plan.Fits`, `Plan.answer` — templates that a pattern has all groups for, and the result they make
  of a path.
* `Scan.Shows` — calling a scan until there is no result left shows a list of sights.
* **`Scan.start_shows`** — a scan that is started shows what the walk of its specification does.
-/

namespace PathExpansion

/-- What can be seen of a scan. -/
inductive Sight where
  /-- It asks for a directory, to list it. -/
  | listed (directory : String)
  /-- It finds a path that the pattern of its root accepts and that exists. -/
  | found (path : String)
deriving DecidableEq, Repr

namespace Sight

/-- The path that was found. -/
def path? : Sight → Option String
  | found path => some path
  | _ => none

/-- The directory that was asked for. -/
def directory? : Sight → Option String
  | listed directory => some directory
  | _ => none

end Sight

/-- What a deed shows, for the roots of a scan. -/
def Deed.sight? (r : Reader) (base : Option PathSpec) : Deed → Option Sight
  | .opened path => some (.listed path)
  | .arrived root path =>
    if (root.spec base).matcher.finds path && r.isPresent path then some (.found path) else none
  | _ => none

/-- What deeds show. -/
def sightsIn (r : Reader) (base : Option PathSpec) (ds : List Deed) : List Sight :=
  ds.filterMap (·.sight? r base)

/-- The templates refer to no group that a pattern does not have. -/
def Plan.Fits (plan : Plan) (matcher : Pattern) : Prop :=
  ∀ templates, plan.templates = some templates → missingGroup? templates matcher = none

/-- The result for a path: the path, or the path and those derived from it. -/
def Plan.answer (plan : Plan) (matcher : Pattern) (path : String) : Answer :=
  match plan.templates with
  | none => .path path
  | some templates => .derived (path :: templates.map (Template.fill (matcher.search? path)))

section

variable {r : Reader} {plan : Plan} {base : Option PathSpec}

lemma Plan.Fits.renders {spec : PathSpec} (h : plan.Fits spec.matcher) :
    plan.Renders (some spec) := fun templates htemplates _ => h templates htemplates

lemma Plan.Fits.answerAt_eq {spec : PathSpec} (h : plan.Fits spec.matcher) (root : Root)
    (path : String) :
    answerAt plan (some spec) root path = .ok (plan.answer spec.matcher path) := by
  rw [answerAt, Plan.answer]
  cases htemplates : plan.templates with
  | none => rfl
  | some templates =>
    simp only [Option.getD_some, derivePaths, h templates htemplates]
    rfl

/-- Results are the paths found, with what the templates make of them. -/
lemma answersIn_eq {spec : PathSpec} (h : plan.Fits spec.matcher) (ds : List Deed) :
    answersIn r plan (some spec) ds
      = ((sightsIn r (some spec) ds).filterMap Sight.path?).map (plan.answer spec.matcher) := by
  rw [answersIn, sightsIn, List.filterMap_filterMap, List.map_filterMap]
  refine List.filterMap_congr fun d _ => ?_
  cases d with
  | arrived root path =>
    rw [Deed.answer?, Deed.sight?, arrival, h.answerAt_eq]
    cases (root.spec (some spec)).matcher.finds path && r.isPresent path <;> rfl
  | _ => rfl

/-- Directories asked for are those seen to be listed. -/
lemma openedIn_eq (ds : List Deed) :
    ds.filterMap Deed.openedPath? = (sightsIn r base ds).filterMap Sight.directory? := by
  rw [sightsIn, List.filterMap_filterMap]
  refine List.filterMap_congr fun d _ => ?_
  cases d with
  | arrived root path =>
    simp only [Deed.openedPath?, Deed.sight?]
    split_ifs <;> rfl
  | _ => rfl

@[simp] lemma sightsIn_nil : sightsIn r base [] = [] := rfl

@[simp] lemma sightsIn_moved (ds : List Deed) :
    sightsIn r base (.moved :: ds) = sightsIn r base ds := rfl

@[simp] lemma sightsIn_opened (path : String) (ds : List Deed) :
    sightsIn r base (.opened path :: ds) = .listed path :: sightsIn r base ds := rfl

@[simp] lemma sightsIn_append (ds ds' : List Deed) :
    sightsIn r base (ds ++ ds') = sightsIn r base ds ++ sightsIn r base ds' :=
  List.filterMap_append

@[simp] lemma sightsIn_readFault (path : String) (fault : Option Fault) :
    sightsIn r base (Deed.readFault path fault) = [] := by
  cases fault <;> rfl

lemma sightsIn_flatMap {α : Type} (f : α → List Deed) (as : List α) :
    sightsIn r base (as.flatMap f) = as.flatMap fun a => sightsIn r base (f a) := by
  induction as with
  | nil => rfl
  | cons a as ih => rw [List.flatMap_cons, sightsIn_append, ih, List.flatMap_cons]

end

/-! ## A scan from its start -/

/-- **Calling a scan for its next result until there is none shows these sights**: the results are
those of the paths found, and the directories listed are what the scan has asked for since. -/
def Scan.Shows (r : Reader) (plan : Plan) (matcher : Pattern) (s : Scan) (sights : List Sight) :
    Prop :=
  ∃ s', s.Gives r plan ((sights.filterMap Sight.path?).map (plan.answer matcher)) s' ∧
    s'.isFinished ∧
    s'.events.filterMap Event.openedPath?
      = (sights.filterMap Sight.directory?).reverse ++ s.events.filterMap Event.openedPath?

/-- The trip that a scan takes when it is started with a specification. -/
def PathSpec.trip (spec : PathSpec) (r : Reader) (plan : Plan) : Trip :=
  ⟨r, plan, spec.follow, .construction⟩

/-- A scan that is started has the walk of its specification to do, and nothing else. -/
lemma Scan.agenda_start (s : Scan) (spec : PathSpec) (r : Reader) (plan : Plan) :
    (s.start spec).agenda r plan
      = .moved :: (spec.trip r plan).walk spec.components spec.rootPath [] := by
  rw [agenda_eq]
  exact List.append_nil _

/-- **A scan that is started shows what the walk of its specification does.** -/
theorem Scan.start_shows {r : Reader} {plan : Plan} (hr : r.IsFinite)
    (hsys : r.FailsBySystem plan) (spec : PathSpec) (hfits : plan.Fits spec.matcher) (s : Scan)
    (hbears : s.policy.Bears ((spec.trip r plan).walk spec.components spec.rootPath [])) :
    (s.start spec).Shows r plan spec.matcher (sightsIn r (some spec)
      ((spec.trip r plan).walk spec.components spec.rootPath [])) := by
  have hagenda := s.agenda_start spec r plan
  obtain ⟨s', hgives, hnil, hs', hbase, hopened, _⟩ :=
    gives_answersIn hr hsys (coherent_start s spec) (hagenda ▸ hbears) hfits.renders
  rw [hagenda] at hgives hopened
  refine ⟨s', ?_, isFinished_of_agenda hr hsys hs' hnil, ?_⟩
  · have h := answersIn_eq (r := r) hfits
      (.moved :: (spec.trip r plan).walk spec.components spec.rootPath [])
    rw [sightsIn_moved] at h
    rw [← h]
    exact hgives
  · rw [← openedIn_eq]
    exact hopened

end PathExpansion
