import Mathlib.Data.List.Basic
import PathExpansion.Proofs.Agenda.Basic

/-!
# What carrying out an agenda means

What a scan shows of itself besides its results is kept in a *ledger*: the state of its error policy
and the directories it has asked for.  Each deed has an effect on the ledger and may come to
something, a result or an error; `perform` takes deeds from a list until one does.

* `Ledger`, `Deed.effect`, `perform` — the abstract machine, without frames, stack or cursors.
* `Turn.CarriesOut` — a turn does the first deeds of a list, at least one, and leaves the others as
  the agenda of the scan behind it.
* `Scan.extend_eq`, `Scan.openCursor_eq`, `Scan.nextOfLevel_spec` — what the operations of a scan
  come to, in terms of its trip.

Nothing here asks the error policy to go on: where it stops the scan in the middle of a step, the
deeds that are left are still those of the scan.
-/

namespace PathExpansion

/-! ## The abstract machine -/

/-- What a scan shows of itself besides its results: its policy, and the directories it has asked
for, latest first. -/
structure Ledger where
  policy : Policy
  opened : List String

/-- The specification of a root, given that of the construction. -/
def Root.spec (base : Option PathSpec) : Root → PathSpec
  | .queued spec => spec
  | .construction => base.getD ⟨[], ⟨"", .empty, 0, []⟩, false, false⟩

section

variable (r : Reader) (plan : Plan) (base : Option PathSpec)

/-- The result for a path of a root: the path, or the path with those derived from it by the
pattern of the construction. -/
def answerAt (root : Root) (path : String) : Except MissingGroup Answer :=
  match plan.templates with
  | none => .ok (.path path)
  | some templates => (derivePaths templates (base.getD (root.spec base)).matcher path).map .derived

/-- What arriving at a path comes to. -/
def arrival (root : Root) (path : String) : Signal :=
  if (root.spec base).matcher.finds path && r.isPresent path then
    match answerAt plan base root path with
    | .ok answer => .answered (some answer)
    | .error e => .raised (.missingGroup e)
  else .running

/-- What a deed does to the ledger, and what it comes to. -/
def Deed.effect (l : Ledger) : Deed → Ledger × Signal
  | .moved => (l, .running)
  | .opened path => ({ l with opened := path :: l.opened }, .running)
  | .failed incident =>
    let handled := l.policy.handle incident
    ({ l with policy := handled.policy },
      match handled.stop with
      | none => .running
      | some stop => .raised (.policy stop))
  | .arrived root path => (l, arrival r plan base root path)

/-- Does deeds until one comes to something.  Answers the ledger, what it came to, and the deeds
that are left. -/
def perform : List Deed → Ledger → Ledger × Signal × List Deed
  | [], l => (l, .running, [])
  | d :: ds, l =>
    match d.effect r plan base l with
    | (l, .running) => perform ds l
    | (l, signal) => (l, signal, ds)

end

namespace Scan

/-- What a scan shows of itself besides its results. -/
def ledger (s : Scan) : Ledger := ⟨s.policy, s.events.filterMap Event.openedPath?⟩

/-- The trip that the current frame is on. -/
def trip (s : Scan) (r : Reader) (plan : Plan) : Trip := ⟨r, plan, s.spec.follow, s.frame.root⟩

end Scan

section

variable (r : Reader) (plan : Plan)

/-- **A turn carries out deeds**: it does the first ones of a list, one at least, and the others are
the agenda of the scan that it leaves. -/
structure Turn.CarriesOut (base : Option PathSpec) (ds : List Deed) (l : Ledger) (t : Turn) :
    Prop where
  perform_eq : perform r plan base ds l = match t.2 with
    | .running => perform r plan base (t.1.agenda r plan) t.1.ledger
    | signal => (t.1.ledger, signal, t.1.agenda r plan)
  shorter : (t.1.agenda r plan).length < ds.length
  base_eq : t.1.base = base

end

/-! ## Agendas of changed scans -/

namespace Scan

variable {r : Reader} {plan : Plan} {s : Scan}

lemma agenda_eq (s : Scan) :
    s.agenda r plan = s.frame.agenda r plan s.spec ++ s.agendaOf r plan s.stack := rfl

lemma agendaOf_cons (s : Scan) (f : Frame) (fs : List Frame) :
    s.agendaOf r plan (f :: fs) = f.agenda r plan (s.specOf f.root) ++ s.agendaOf r plan fs := rfl

/-- What is left behind a frame is what the stack holds. -/
@[simp] lemma agenda_pop (s : Scan) : s.pop.agenda r plan = s.agendaOf r plan s.stack := by
  unfold pop
  cases hs : s.stack with
  | nil => rfl
  | cons f fs => rfl

@[simp] lemma ledger_pop (s : Scan) : s.pop.ledger = s.ledger := by
  unfold pop
  cases s.stack <;> rfl

@[simp] lemma base_pop (s : Scan) : s.pop.base = s.base := by
  unfold pop
  cases s.stack <;> rfl

lemma report_fst (s : Scan) (fault : Fault) (operation path : String) :
    ∃ warning, (s.report fault operation path).1 = { s with
      policy := (s.policy.handle ⟨orDot path, operation, fault⟩).policy
      events := (Option.map Event.warned warning).toList ++ s.events } := by
  refine ⟨(s.policy.handle ⟨orDot path, operation, fault⟩).warning, ?_⟩
  simp only [report]
  cases (s.policy.handle ⟨orDot path, operation, fault⟩).stop <;> rfl

lemma report_snd (s : Scan) (fault : Fault) (operation path : String) :
    (s.report fault operation path).2
      = match (s.policy.handle ⟨orDot path, operation, fault⟩).stop with
        | none => .running
        | some stop => .raised (.policy stop) := by
  simp only [report]
  cases (s.policy.handle ⟨orDot path, operation, fault⟩).stop <;> rfl

@[simp] lemma agenda_report (s : Scan) (fault : Fault) (operation path : String) :
    (s.report fault operation path).1.agenda r plan = s.agenda r plan := by
  obtain ⟨warning, h⟩ := s.report_fst fault operation path
  rw [h]
  rfl

@[simp] lemma ledger_report (s : Scan) (fault : Fault) (operation path : String) :
    (s.report fault operation path).1.ledger
      = { s.ledger with policy := (s.policy.handle ⟨orDot path, operation, fault⟩).policy } := by
  obtain ⟨warning, h⟩ := s.report_fst fault operation path
  rw [h]
  cases warning <;> rfl

@[simp] lemma base_report (s : Scan) (fault : Fault) (operation path : String) :
    (s.report fault operation path).1.base = s.base := by
  obtain ⟨warning, h⟩ := s.report_fst fault operation path
  rw [h]

end Scan

/-! ## Carrying out -/

namespace Turn.CarriesOut

variable {r : Reader} {plan : Plan} {base : Option PathSpec} {ds : List Deed} {l m : Ledger}
  {t : Turn} {s : Scan}

/-- A deed that comes to nothing may be put in front. -/
lemma cons {d : Deed} (hd : d.effect r plan base l = (m, .running))
    (h : CarriesOut r plan base ds m t) : CarriesOut r plan base (d :: ds) l t where
  perform_eq := by rw [perform, hd]; exact h.perform_eq
  shorter := Nat.lt_trans h.shorter (Nat.lt_succ_self _)
  base_eq := h.base_eq

/-- One deed that comes to nothing. -/
lemma one {d : Deed} (heffect : d.effect r plan base l = (s.ledger, .running))
    (hagenda : ds = s.agenda r plan) (hbase : s.base = base) :
    CarriesOut r plan base (d :: ds) l (s, .running) where
  perform_eq := by rw [perform, heffect, hagenda]
  shorter := by simp [hagenda]
  base_eq := hbase

/-- Going a step further. -/
lemma moved (hagenda : ds = s.agenda r plan) (hledger : s.ledger = l) (hbase : s.base = base) :
    CarriesOut r plan base (.moved :: ds) l (s, .running) :=
  one (by rw [hledger]; rfl) hagenda hbase

/-- Going a step further by dropping the current frame. -/
lemma moved_pop (hagenda : ds = s.agendaOf r plan s.stack) (hledger : s.ledger = l)
    (hbase : s.base = base) : CarriesOut r plan base (.moved :: ds) l (s.pop, .running) :=
  moved (by rw [Scan.agenda_pop, hagenda]) (by rw [Scan.ledger_pop, hledger])
    (by rw [Scan.base_pop, hbase])

/-- Handing over a fault, where nothing else is done. -/
lemma report (r : Reader) (plan : Plan) (s : Scan) (fault : Fault) (operation path : String) :
    CarriesOut r plan s.base (.failed ⟨orDot path, operation, fault⟩ :: s.agenda r plan) s.ledger
      (s.report fault operation path) where
  perform_eq := by
    rw [Scan.report_snd, Scan.agenda_report, Scan.ledger_report, perform, Deed.effect]
    simp only [Scan.ledger]
    cases (s.policy.handle ⟨orDot path, operation, fault⟩).stop <;> rfl
  shorter := by simp
  base_eq := Scan.base_report s fault operation path

end Turn.CarriesOut

/-! ## Operations of a scan -/

namespace Scan

variable {r : Reader} {plan : Plan}

/-- Nothing is opened in these entries of the log. -/
def Quiet (es : List Event) : Prop := es.filterMap Event.openedPath? = []

@[simp] lemma ledger_emit (s : Scan) (es : List Event) (h : Quiet es) :
    ({ s with events := es ++ s.events } : Scan).ledger = s.ledger := by
  simp [ledger, List.filterMap_append, show es.filterMap Event.openedPath? = [] from h]

/-- Extending a path is what the trip says, but for the log. -/
lemma extend_eq (s : Scan) (r : Reader) (plan : Plan) (name : String) (descent : Bool) :
    ∃ es, Quiet es ∧ s.extend r plan name descent
      = ({ s with events := es ++ s.events },
          (s.trip r plan).extend s.frame.path s.frame.visited name descent) := by
  by_cases hexcluded : plan.exclude.any (·.finds (s.frame.path ++ name)) = true
  · exact ⟨[.excluded (s.frame.path ++ name)], rfl, by simp [extend, Trip.extend, trip, emit,
      hexcluded]⟩
  by_cases hdir : r.isDirectory (s.frame.path ++ name) = true
  · cases descent with
    | false => exact ⟨[], rfl, by simp [extend, Trip.extend, trip, hexcluded, hdir]⟩
    | true =>
      by_cases hfollow : s.spec.follow = true
      · by_cases hmet : r.identity (s.frame.path ++ name) ∈ s.frame.visited
        · exact ⟨[.cycle (s.frame.path ++ name)], rfl, by simp [extend, Trip.extend, trip, emit,
            hexcluded, hdir, hfollow, hmet]⟩
        · exact ⟨[], rfl, by simp [extend, Trip.extend, trip, hexcluded, hdir, hfollow, hmet]⟩
      · by_cases hlink : r.isLink (s.frame.path ++ name) = true <;>
          exact ⟨[], rfl, by simp [extend, Trip.extend, trip, hexcluded, hdir, hfollow, hlink]⟩
  · exact ⟨[], rfl, by simp [extend, Trip.extend, trip, hexcluded, hdir]⟩

/-- Noting that a directory was entered is what the trip says. -/
lemma noteEntered_eq (s : Scan) (r : Reader) (plan : Plan) :
    s.noteEntered r = { s with
      frame := { s.frame with
        visited := (s.trip r plan).entered s.frame.path s.frame.visited } } := by
  unfold noteEntered Trip.entered trip
  cases s.spec.follow && isEnterable s.frame.path <;> rfl

/-- The result for a path is what the root says, whatever the templates were last looked at with. -/
lemma answerFor_eq {base : Option PathSpec} (s : Scan) (plan : Plan) (root : Root) (path : String)
    (hbase : s.base = base) :
    ∃ fitting, s.answerFor plan path (root.spec base)
      = ({ s with fitting := fitting }, answerAt plan base root path) := by
  subst hbase
  unfold answerFor answerAt
  cases plan.templates with
  | none => exact ⟨s.fitting, rfl⟩
  | some templates =>
    simp only [derivePathsWith_snd]
    exact ⟨_, rfl⟩

/-- Arriving at a path drops the frame. -/
lemma arrive_eq (s : Scan) (r : Reader) (plan : Plan) :
    ∃ fitting, s.arrive r plan
      = ({ s.pop with fitting := fitting },
          arrival r plan s.base s.frame.root s.frame.path) := by
  have hspec : s.spec = s.frame.root.spec s.base := rfl
  obtain ⟨fitting, hanswer⟩ := s.pop.answerFor_eq plan s.frame.root s.frame.path (base_pop s)
  unfold arrive arrival
  simp only [hspec, hanswer]
  split
  · refine ⟨fitting, ?_⟩
    cases answerAt plan s.base s.frame.root s.frame.path <;> rfl
  · exact ⟨s.pop.fitting, rfl⟩

/-- **Opening a directory** gives a cursor over what the directory gives, or its fault; nothing of
the scan changes but the log and the account of handles. -/
lemma openCursor_eq (s : Scan) (r : Reader) (plan : Plan) (directory : String) :
    ∃ handle handles issued, s.openCursor r plan directory
      = ({ s with
            handles := handles
            issued := issued
            events := .opened (orDot directory) :: s.events },
          (r.listed plan directory).map fun l => ⟨handle, l.names, l.fault⟩) := by
  unfold Reader.listed openCursor
  cases r.openDirectory (orDot directory) with
  | error fault => exact ⟨none, s.handles, s.issued, rfl⟩
  | ok l =>
    cases plan.sorting.isEager with
    | false => exact ⟨some s.issued, s.issued :: s.handles, s.issued + 1, rfl⟩
    | true =>
      simp only [if_true, sortCursor_eq, Cursor.drain_eq, takeHandle]
      refine ⟨none, _, s.issued + 1, congrArg (Prod.mk _) ?_⟩
      cases l.fault with
      | some fault => rfl
      | none =>
        simp only [Option.elim, bind, Except.bind]
        cases plan.sorting.arrange plan.ignoreCase directory l.names <;> rfl

/-- A directory that gives nothing leaves a trace in the log. -/
lemma openCursor_error {directory : String} {fault : Fault}
    (h : r.listed plan directory = .error fault) (s : Scan) :
    ∃ handles issued, s.openCursor r plan directory
      = ({ s with
            handles := handles
            issued := issued
            events := .opened (orDot directory) :: s.events },
          .error fault) := by
  obtain ⟨_, handles, issued, hopen⟩ := s.openCursor_eq r plan directory
  rw [h] at hopen
  exact ⟨handles, issued, hopen⟩

/-- A directory that gives names gives a cursor over them. -/
lemma openCursor_ok {directory : String} {l : Listing} (h : r.listed plan directory = .ok l)
    (s : Scan) :
    ∃ handle handles issued, s.openCursor r plan directory
      = ({ s with
            handles := handles
            issued := issued
            events := .opened (orDot directory) :: s.events },
          .ok ⟨handle, l.names, l.fault⟩) := by
  obtain ⟨handle, handles, issued, hopen⟩ := s.openCursor_eq r plan directory
  rw [h] at hopen
  exact ⟨handle, handles, issued, hopen⟩

/-- The scan in the middle of a listing: so much is unread, so much waits, and so much was logged
since. -/
def midway (s : Scan) (unread : List String) (pending : Option (List (String × Visited)))
    (es : List Event) : Scan :=
  { s with
    frame := { s.frame.withUnread unread with pending := pending }
    events := es ++ s.events }

lemma ledger_midway (s : Scan) (unread : List String) (pending : Option (List (String × Visited)))
    {es : List Event} (h : Quiet es) : (s.midway unread pending es).ledger = s.ledger :=
  ledger_emit s es h

lemma ledger_leaveLevel (s : Scan) (path : String) (visited : Visited) :
    (s.leaveLevel path visited).ledger = s.ledger := rfl

end Scan

namespace Trip

lemma reached_cons (t : Trip) (name : String) (names : List String) (path : String)
    (visited : Visited) :
    t.reached (name :: names) path visited
      = (if isDotName name then [] else (t.extend path visited name true).toList)
          ++ t.reached names path visited := by
  cases hdot : isDotName name with
  | true => simp [reached, hdot]
  | false => cases hext : t.extend path visited name true <;> simp [reached, hdot, hext]

end Trip

namespace Scan

variable {r : Reader} {plan : Plan}

/-- **What searching a listing for the next path of a level comes to.**  Either no name leads to
one, or the first that does splits what can be found there in two, and the names too. -/
def LevelSpec (r : Reader) (plan : Plan) (next : Descent) (s : Scan) (names : List String)
    (result : Scan × Option (String × Visited)) : Prop :=
  let found := (s.trip r plan).found (needsDirectory s.frame.remaining) next
  let directories := (s.trip r plan).directories
  let path := s.frame.path
  let visited := s.frame.visited
  ∃ es, Quiet es ∧
    ((result = (s.midway [] s.frame.pending es, none) ∧
      found names path visited = [] ∧ directories names path visited = []) ∨
    ∃ p rest, result
        = (s.midway rest (s.frame.pending.map (· ++ if isEnterable p.1 then [p] else [])) es,
            some p) ∧
      found names path visited = .moved :: next p.1 p.2 ++ found rest path visited ∧
      directories names path visited
        = (if isEnterable p.1 then [p] else []) ++ directories rest path visited ∧
      (isEnterable p.1 || !needsDirectory s.frame.remaining) ∧
      ∃ name, name :: rest <:+ names ∧ (s.trip r plan).extend path visited name true = some p)

/-- A name that leads nowhere leaves the search to the other names. -/
lemma LevelSpec.skip {next : Descent} {s : Scan} {name : String} {names : List String}
    {es : List Event} {result : Scan × Option (String × Visited)} (hes : Quiet es)
    (hfound : (s.trip r plan).found (needsDirectory s.frame.remaining) next (name :: names)
        s.frame.path s.frame.visited
      = (s.trip r plan).found (needsDirectory s.frame.remaining) next names
        s.frame.path s.frame.visited)
    (hdirs : (s.trip r plan).directories (name :: names) s.frame.path s.frame.visited
      = (s.trip r plan).directories names s.frame.path s.frame.visited)
    (h : LevelSpec r plan next
      { s with frame := s.frame.withUnread names, events := es ++ s.events } names result) :
    LevelSpec r plan next s (name :: names) result := by
  obtain ⟨es', hes', h⟩ := h
  have hmid : ∀ rest pending,
      ({ s with frame := s.frame.withUnread names, events := es ++ s.events } : Scan).midway
          rest pending es' = s.midway rest pending (es' ++ es) := by
    intro rest pending
    simp [midway, Frame.withUnread, Option.map_map, Function.comp_def]
  refine ⟨es' ++ es, ?_, ?_⟩
  · unfold Quiet at *
    rw [List.filterMap_append, hes', hes, List.append_nil]
  · simp only [hmid] at h
    rw [hfound, hdirs]
    rcases h with h | ⟨p, rest, hresult, hfound', hdirs', hwanted, name', hsuffix, hext⟩
    · exact Or.inl h
    · exact Or.inr ⟨p, rest, hresult, hfound', hdirs', hwanted, name',
        hsuffix.trans (List.suffix_cons _ _), hext⟩

lemma nextOfLevel_spec (r : Reader) (plan : Plan) (next : Descent) :
    ∀ (names : List String) (s : Scan),
      LevelSpec r plan next s names (s.nextOfLevel r plan names)
  | [], s => ⟨[], rfl, Or.inl ⟨rfl, rfl, rfl⟩⟩
  | name :: names, s => by
      have hreached := (s.trip r plan).reached_cons name names s.frame.path s.frame.visited
      unfold nextOfLevel
      cases hdot : isDotName name with
      | true =>
        simp only [hdot, if_true, List.nil_append] at hreached ⊢
        refine LevelSpec.skip (show Quiet [] from rfl) ?_ ?_ (nextOfLevel_spec r plan next names _)
        · rw [Trip.found, hreached]; rfl
        · rw [Trip.directories, hreached]; rfl
      | false =>
        simp only [hdot, Bool.false_eq_true, if_false] at hreached ⊢
        obtain ⟨es, hes, hext⟩ := ({ s with frame := s.frame.withUnread names } : Scan).extend_eq r
          plan name true
        rw [hext]
        have htrip : ({ s with frame := s.frame.withUnread names } : Scan).trip r plan
            = s.trip r plan := rfl
        simp only [htrip]
        have hpath : (s.frame.withUnread names).path = s.frame.path := rfl
        have hvisited : (s.frame.withUnread names).visited = s.frame.visited := rfl
        simp only [hpath, hvisited]
        cases hp : (s.trip r plan).extend s.frame.path s.frame.visited name true with
        | none =>
          simp only [hp, Option.toList_none, List.nil_append] at hreached ⊢
          refine LevelSpec.skip hes ?_ ?_ (nextOfLevel_spec r plan next names _)
          · rw [Trip.found, hreached]; rfl
          · rw [Trip.directories, hreached]; rfl
        | some p =>
          simp only [hp, Option.toList_some, List.singleton_append] at hreached ⊢
          cases henter : isEnterable p.1 with
          | true =>
            simp only [if_true]
            refine ⟨es, hes, Or.inr ⟨p, names, ?_, ?_, ?_, by rw [henter]; rfl, name,
              List.suffix_rfl, hp⟩⟩
            · simp [midway, henter, Frame.withUnread]
            · simp [Trip.found, hreached, henter]
            · simp [Trip.directories, hreached, henter]
          | false =>
            simp only [Bool.false_eq_true, if_false]
            have hdeep : (s.frame.withUnread names).remaining = s.frame.remaining := rfl
            simp only [hdeep]
            cases hneeds : needsDirectory s.frame.remaining with
            | true =>
              simp only [if_true]
              refine LevelSpec.skip hes ?_ ?_ (nextOfLevel_spec r plan next names _)
              · simp [Trip.found, hreached, henter, hneeds]
              · simp [Trip.directories, hreached, henter]
            | false =>
              simp only [Bool.false_eq_true, if_false]
              refine ⟨es, hes, Or.inr ⟨p, names, ?_, ?_, ?_,
                by rw [hneeds, Bool.not_false, Bool.or_true], name, List.suffix_rfl, hp⟩⟩
              · simp [midway, henter, Frame.withUnread]
              · simp [Trip.found, hreached, hneeds]
              · simp [Trip.directories, hreached, henter]

end Scan

/-! ## The end of a listing -/

namespace Turn.CarriesOut

open Scan

variable {r : Reader} {plan : Plan} {s : Scan}

/-- Handing over a fault, and going on if the policy lets it. -/
lemma report_andThen (r : Reader) (plan : Plan) (s : Scan) (fault : Fault)
    (operation path : String) {next : Scan → Turn}
    (hnext : ∀ s' : Scan, s'.frame = s.frame → s'.stack = s.stack → s'.base = s.base →
      CarriesOut r plan s.base (s.agenda r plan) s'.ledger (next s')) :
    CarriesOut r plan s.base (.failed ⟨orDot path, operation, fault⟩ :: s.agenda r plan) s.ledger
      (Turn.andThen (s.report fault operation path) next) := by
  unfold Turn.andThen
  cases hstop : (s.policy.handle ⟨orDot path, operation, fault⟩).stop with
  | none =>
    have hrunning : (s.report fault operation path).2 = .running := by rw [report_snd, hstop]
    rw [hrunning]
    refine cons (m := (s.report fault operation path).1.ledger) ?_ (hnext _ ?_ ?_ ?_)
    · rw [ledger_report, Deed.effect]
      simp only [ledger, hstop]
    all_goals
      obtain ⟨warning, h⟩ := s.report_fst fault operation path
      rw [h]
  | some stop =>
    have hraised : (s.report fault operation path).2 = .raised (.policy stop) := by
      rw [report_snd, hstop]
    rw [hraised]
    exact report r plan s fault operation path

/-- Ending a listing, and going on if the policy lets it. -/
lemma endListing_andThen (r : Reader) (plan : Plan) {c : Cursor} (hc : s.frame.cursor = some c)
    {next : Scan → Turn}
    (hnext : ∀ s' : Scan, s'.frame = { s.frame with cursor := none } → s'.stack = s.stack →
      s'.base = s.base →
      CarriesOut r plan s.base (s.closeCursor.agenda r plan) s'.ledger (next s')) :
    CarriesOut r plan s.base (Deed.readFault s.frame.path c.fault ++ s.closeCursor.agenda r plan)
      s.ledger (Turn.andThen s.endListing next) := by
  unfold endListing
  simp only [hc, Option.bind_some]
  cases hfault : c.fault with
  | none => exact hnext s.closeCursor rfl rfl rfl
  | some fault =>
    exact report_andThen r plan s.closeCursor fault _ _ fun s' hframe hstack hbase =>
      hnext s' hframe hstack hbase

end Turn.CarriesOut

end PathExpansion
