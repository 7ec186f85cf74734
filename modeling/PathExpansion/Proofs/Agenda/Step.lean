import PathExpansion.Proofs.Agenda.Coherence
import PathExpansion.Proofs.Agenda.Finite
import PathExpansion.Proofs.Agenda.Machine

/-!
# A step carries out what comes first on the agenda

Each phase of a frame is taken on its own: the operation that the frame performs in its turn does
the first deeds of its agenda and leaves the others.

* `Reader.FailsBySystem` — what cannot be listed fails by a fault for the error policy.
* `Scan.component_carriesOut`, `Scan.listing_carriesOut`, `Scan.ellipsis_carriesOut` — the phases.
* **`Scan.turn_carriesOut`** — one step of a scan carries out its agenda.
-/

namespace PathExpansion

/-! ## Each phase -/

/-- Directories fail by faults of the operating system only, which are those that a scan hands to
its policy.  This is about the reader, and about the comparison that puts names in order. -/
def Reader.FailsBySystem (r : Reader) (plan : Plan) : Prop :=
  ∀ ⦃path fault⦄, r.listed plan path = .error fault → fault.isSystem

namespace Scan

open Turn.CarriesOut

variable {r : Reader} {plan : Plan} {s : Scan}

/-- Taking up a specification. -/
lemma begin_carriesOut (hphase : s.frame.phase = .initial) :
    s.begin.CarriesOut r plan s.base (s.agenda r plan) s.ledger := by
  have hagenda : s.agenda r plan = .moved :: s.begin.1.agenda r plan := by
    rw [agenda_eq, agenda_eq, Frame.agenda, hphase]
    rfl
  rw [hagenda]
  exact moved rfl rfl rfl

/-- Arriving at a path. -/
lemma arrive_carriesOut (hphase : s.frame.phase = .component) (hrest : s.frame.remaining = []) :
    (s.arrive r plan).CarriesOut r plan s.base (s.agenda r plan) s.ledger := by
  have hagenda : s.agenda r plan = .arrived s.frame.root s.frame.path :: s.pop.agenda r plan := by
    rw [agenda_eq, agenda_pop, Frame.agenda, hphase]
    simp only [hrest]
    rfl
  obtain ⟨fitting, harrive⟩ := s.arrive_eq r plan
  obtain ⟨s', hs'⟩ : ∃ s' : Scan, s' = { s.pop with fitting := fitting } := ⟨_, rfl⟩
  have hleft : s'.agenda r plan = s.pop.agenda r plan := by rw [hs']; rfl
  have hledger : s'.ledger = s.ledger := by rw [hs']; exact ledger_pop s
  have hbase : s'.base = s.base := by rw [hs']; exact base_pop s
  rw [hagenda, harrive, ← hs']
  refine ⟨?_, by simp [hleft], hbase⟩
  rw [perform, Deed.effect]
  cases arrival r plan s.base s.frame.root s.frame.path <;> simp [hleft, hledger]

/-- Going down by a name. -/
lemma literal_carriesOut (hphase : s.frame.phase = .component) (name : String) (descent : Bool) :
    (s.literal r plan name descent).CarriesOut r plan s.base
      ((s.trip r plan).walk (.literal name descent :: s.frame.remaining) s.frame.path
        s.frame.visited ++ s.agendaOf r plan s.stack) s.ledger := by
  obtain ⟨es, hes, hext⟩ := s.extend_eq r plan name descent
  rw [Trip.walk, Trip.literal, Scan.literal, hext]
  cases hp : (s.trip r plan).extend s.frame.path s.frame.visited name descent with
  | none => exact moved_pop rfl (ledger_emit _ _ hes) rfl
  | some p =>
    obtain ⟨path, visited⟩ := p
    simp only
    cases hdead : !isEnterable path && needsDirectory s.frame.remaining with
    | true =>
      simp only [if_true]
      exact moved_pop rfl (ledger_emit _ _ hes) rfl
    | false =>
      simp only [Bool.false_eq_true, if_false]
      refine moved ?_ (ledger_emit _ _ hes) rfl
      rw [agenda_eq, Frame.agenda]
      simp only [hphase]
      rfl

/-- Opening the directory for a glob. -/
lemma openWildcard_carriesOut (hsys : r.FailsBySystem plan) (w : Wildcard) :
    (s.openWildcard r plan w).CarriesOut r plan s.base
      ((s.trip r plan).walk (.wildcard w :: s.frame.remaining) s.frame.path s.frame.visited
        ++ s.agendaOf r plan s.stack) s.ledger := by
  have hreader : (s.trip r plan).reader.listed (s.trip r plan).plan s.frame.path
      = r.listed plan s.frame.path := rfl
  rw [Trip.walk, Trip.listing, hreader, Scan.openWildcard]
  cases hl : r.listed plan s.frame.path with
  | error fault =>
    obtain ⟨handles, issued, hopen⟩ := openCursor_error hl s
    simp only [hopen, hsys hl, if_true]
    refine cons (m := { s.ledger with opened := orDot s.frame.path :: s.ledger.opened }) rfl ?_
    have h := Turn.CarriesOut.report r plan ({ s with
      handles := handles
      issued := issued
      events := .opened (orDot s.frame.path) :: s.events } : Scan).pop fault "open_directory"
      s.frame.path
    rw [base_pop, agenda_pop, ledger_pop] at h
    exact h
  | ok l =>
    obtain ⟨handle, handles, issued, hopen⟩ := openCursor_ok hl s
    simp only [hopen]
    exact one rfl rfl rfl

/-- What is left after an ellipsis has gone a level further. -/
lemma expand_eq (s : Scan) (r : Reader) (plan : Plan) :
    ∃ s', s.expand plan = (s', .running) ∧ s'.ledger = s.ledger ∧ s'.base = s.base ∧
      s'.agenda r plan
        = (if isEnterable s.frame.path then
            (s.trip r plan).walk
              (.wildcard (.anyEntry plan.ignoreCase) :: .ellipsis :: s.frame.remaining)
              s.frame.path s.frame.visited
          else []) ++ s.agendaOf r plan s.stack := by
  unfold expand
  cases henter : isEnterable s.frame.path with
  | false => exact ⟨s.pop, rfl, ledger_pop s, base_pop s, by simp⟩
  | true => exact ⟨_, rfl, rfl, rfl, rfl⟩

/-- A frame that goes an ellipsis a level further. -/
lemma expand_carriesOut (hphase : s.frame.phase = .ellipsis) (hpending : s.frame.pending = none) :
    (s.expand plan).CarriesOut r plan s.base (s.agenda r plan) s.ledger := by
  obtain ⟨s', hexpand, hledger, hbase, hagenda⟩ := s.expand_eq r plan
  rw [hexpand, agenda_eq, Frame.agenda, hphase]
  simp only [hpending]
  exact moved hagenda.symm hledger hbase

/-- Taking an ellipsis up. -/
lemma enterEllipsis_carriesOut (hr : r.IsFinite) (hphase : s.frame.phase = .component)
    (hcursor : s.frame.cursor = none) (hpending : s.frame.pending = none) :
    (s.enterEllipsis r plan).CarriesOut r plan s.base
      ((s.trip r plan).walk (.ellipsis :: s.frame.remaining) s.frame.path s.frame.visited
        ++ s.agendaOf r plan s.stack) s.ledger := by
  set visited := (s.trip r plan).entered s.frame.path s.frame.visited with hvisited
  rw [enterEllipsis, noteEntered_eq s r plan, ← hvisited]
  have hplan : (s.trip r plan).plan = plan := rfl
  cases horder : plan.order with
  | normal =>
    rw [Trip.walk_ellipsis (t := s.trip r plan) hr (by simp [hplan, horder]), Trip.combine,
      ← hvisited]
    simp only [hplan, horder, List.cons_append, List.append_assoc]
    refine moved ?_ rfl rfl
    simp only [agenda_eq, push, save, emit, agendaOf_cons, Frame.agenda, Frame.successor, hpending,
      List.cons_append]
    rfl
  | insideOut =>
    rw [Trip.walk_ellipsis (t := s.trip r plan) hr (by simp [hplan, horder]), Trip.combine,
      ← hvisited]
    simp only [hplan, horder, List.cons_append, List.append_assoc]
    obtain ⟨s', hexpand, hledger, hbase, hagenda⟩ := Scan.expand_eq
      ({ s with frame := { s.frame with visited := visited } } : Scan).push r plan
    rw [hexpand]
    refine moved ?_ hledger hbase
    rw [hagenda]
    simp only [push, save, emit, agendaOf_cons, Frame.agenda, hphase]
    rfl
  | breadthFirst =>
    rw [Trip.walk, Trip.ellipsis, hplan, horder]
    simp only
    rw [Trip.byLevel]
    simp only [← hvisited]
    have hlevels : (levelFrame { s.frame with visited := visited }).agenda r plan s.spec
        = (s.trip r plan).levels (needsDirectory s.frame.remaining)
            ((s.trip r plan).walk s.frame.remaining) (r.extent + 1)
            (if isEnterable s.frame.path then [(s.frame.path, visited)] else []) ++ [.moved] := by
      simp only [levelFrame, Frame.agenda, Trip.restOfLevels, hcursor]
      rfl
    cases hrest : s.frame.remaining.isEmpty with
    | true =>
      simp only [save, emit, hrest, if_true, List.cons_append, List.nil_append]
      exact moved_pop (congrArg (· ++ s.agendaOf r plan s.stack) hlevels.symm) rfl rfl
    | false =>
      simp only [save, emit, hrest, Bool.false_eq_true, if_false, List.cons_append,
        List.append_assoc]
      refine moved ?_ rfl rfl
      simp only [agenda_eq, Frame.agenda, hphase]
      refine congrArg _ ((List.append_cons _ _ _).trans ?_)
      exact congrArg (· ++ s.agendaOf r plan s.stack) hlevels.symm

/-- The names that are wanted, from the first on. -/
lemma filter_eq_of_dropWhile {α : Type} (p : α → Bool) :
    ∀ as : List α, as.filter p = match as.dropWhile (!p ·) with
      | [] => []
      | a :: rest => a :: rest.filter p
  | [] => rfl
  | a :: as => by
      cases ha : p a with
      | true => simp [ha]
      | false => simpa [ha] using filter_eq_of_dropWhile p as

/-- Reading names for a glob. -/
lemma listing_carriesOut (hphase : s.frame.phase = .listing) :
    s.listing.CarriesOut r plan s.base (s.agenda r plan) s.ledger := by
  rw [agenda_eq, Frame.agenda, hphase]
  unfold listing
  cases hc : s.frame.cursor with
  | none => exact moved_pop rfl rfl rfl
  | some c =>
    have hwanted := filter_eq_of_dropWhile s.frame.wants c.unread
    simp only
    rw [Trip.names]
    cases hnames : c.unread.dropWhile (!s.frame.wants ·) with
    | nil =>
      simp only [hnames] at hwanted
      simp only [hwanted, List.flatMap_nil, List.nil_append, List.append_assoc]
      have hclosed : ({ s with frame := s.frame.withUnread [] } : Scan).frame.cursor
          = some { c with unread := [] } := by simp [Frame.withUnread, hc]
      have hrest : ({ s with frame := s.frame.withUnread [] } : Scan).closeCursor.agenda r plan
          = .moved :: s.agendaOf r plan s.stack := by
        simp only [closeCursor, release, agenda_eq, Frame.agenda, Frame.withUnread, hphase]
        rfl
      have hnext : ∀ s' : Scan, s'.stack = s.stack → s'.base = s.base →
          Turn.CarriesOut r plan s.base
            (({ s with frame := s.frame.withUnread [] } : Scan).closeCursor.agenda r plan) s'.ledger
            (s'.pop, .running) := by
        intro s' hstack hbase
        rw [hrest]
        exact moved_pop (by rw [hstack]; unfold agendaOf specOf; rw [hbase]) rfl hbase
      have h := endListing_andThen r plan hclosed fun s' _ hstack hbase => hnext s' hstack hbase
      rw [hrest] at h
      exact h
    | cons name names =>
      simp only [hnames] at hwanted
      simp only [hwanted, List.flatMap_cons, List.cons_append, List.append_assoc]
      refine moved ?_ rfl rfl
      simp only [agenda_eq, push, save, emit, agendaOf_cons, Frame.agenda, Frame.successor,
        Frame.withUnread, hc, hphase, Option.map_some, Trip.names, List.append_assoc]
      rfl

/-! ### Level by level -/

/-- Searching an open directory of a level. -/
lemma searchListing_carriesOut {c : Cursor} {pending : List (String × Visited)}
    (hphase : s.frame.phase = .ellipsis) (hcursor : s.frame.cursor = some c)
    (hpending : s.frame.pending = some pending) {next : Scan → Turn}
    (hnext : ∀ s' : Scan, s'.frame = { s.frame with cursor := none } → s'.stack = s.stack →
      s'.base = s.base →
      (next s').CarriesOut r plan s.base
        ((s.trip r plan).levels (needsDirectory s.frame.remaining)
            ((s.trip r plan).walk s.frame.remaining) (r.extent + 1) pending
          ++ .moved :: s.agendaOf r plan s.stack) s'.ledger) :
    (s.searchListing r plan c.unread next).CarriesOut r plan s.base (s.agenda r plan) s.ledger := by
  have hagenda : s.agenda r plan
      = (s.trip r plan).restOfLevels s.frame pending ++ s.agendaOf r plan s.stack := by
    rw [agenda_eq, Frame.agenda, hphase]
    simp only [hpending]
    rfl
  have hextent : (s.trip r plan).reader.extent = r.extent := rfl
  rw [hagenda, Trip.restOfLevels, searchListing]
  simp only [hcursor]
  obtain ⟨es, hes, ⟨hsearch, hfound, hdirs⟩ | ⟨p, rest, hsearch, hfound, hdirs, _⟩⟩ :=
    nextOfLevel_spec r plan ((s.trip r plan).walk s.frame.remaining) c.unread s
  · -- nothing is left in this directory: it is closed, and the queue goes on
    have hclosed : (s.midway [] s.frame.pending es).frame.cursor
        = some { c with unread := [] } := by
      simp [midway, Frame.withUnread, hcursor]
    have hrest : (s.midway [] s.frame.pending es).closeCursor.agenda r plan
        = (s.trip r plan).levels (needsDirectory s.frame.remaining)
            ((s.trip r plan).walk s.frame.remaining) (r.extent + 1) pending
          ++ .moved :: s.agendaOf r plan s.stack := by
      rw [agenda_eq, Frame.agenda]
      simp only [closeCursor, release, midway, Frame.withUnread, hphase, hpending,
        Trip.restOfLevels]
      exact (List.append_cons _ _ _).symm
    have h := endListing_andThen r plan hclosed fun s' hframe hstack hbase => by
      rw [hrest]
      exact hnext s' hframe hstack hbase
    rw [hrest, ledger_midway _ _ _ hes] at h
    simp only [hsearch, hfound, hdirs, hextent, List.nil_append, List.append_nil, List.append_assoc]
    exact h
  · -- a path was found: it is followed at once, and the rest of the level waits
    obtain ⟨path, visited⟩ := p
    simp only [hsearch, hfound, hdirs, hextent, List.cons_append, List.append_assoc]
    refine moved ?_ ((ledger_leaveLevel _ _ _).trans (ledger_midway _ _ _ hes)) rfl
    simp only [agenda_eq, leaveLevel, push, save, emit, agendaOf_cons, Frame.agenda,
      Frame.successor, midway, Frame.withUnread, hcursor, hphase, hpending, Option.map_some,
      Trip.restOfLevels, List.append_assoc]
    rfl

/-- What is left when the directories of a queue are still to be listed, for the root and the
components of a scan. -/
def queueAgenda (r : Reader) (plan : Plan) (s : Scan) (queue : List (String × Visited)) :
    List Deed :=
  (s.trip r plan).levels (needsDirectory s.frame.remaining)
      ((s.trip r plan).walk s.frame.remaining) (r.extent + 1) queue
    ++ .moved :: s.agendaOf r plan s.stack

/-- A scan in the middle of the same level as another, between two directories. -/
structure SameLevel (s s' : Scan) : Prop where
  phase : s'.frame.phase = .ellipsis
  cursor : s'.frame.cursor = none
  remaining : s'.frame.remaining = s.frame.remaining
  root : s'.frame.root = s.frame.root
  stack : s'.stack = s.stack
  base : s'.base = s.base

lemma SameLevel.agendaOf_eq {s' : Scan} (h : SameLevel s s') :
    s'.agendaOf r plan s'.stack = s.agendaOf r plan s.stack := by
  unfold agendaOf specOf
  rw [h.stack, h.base]

lemma SameLevel.trip_eq {s' : Scan} (h : SameLevel s s') : s'.trip r plan = s.trip r plan := by
  unfold trip spec specOf
  rw [h.root, h.base]

lemma SameLevel.queueAgenda_eq {s' : Scan} (h : SameLevel s s') (queue : List (String × Visited)) :
    queueAgenda r plan s' queue = queueAgenda r plan s queue := by
  unfold queueAgenda
  rw [h.trip_eq, h.remaining, h.agendaOf_eq]

/-- The agenda of a frame that has a queue and no open directory. -/
lemma agenda_of_queue {queue : List (String × Visited)} (hphase : s.frame.phase = .ellipsis)
    (hcursor : s.frame.cursor = none) (hpending : s.frame.pending = some queue) :
    s.agenda r plan = queueAgenda r plan s queue := by
  rw [agenda_eq, Frame.agenda, hphase]
  simp only [hpending, Trip.restOfLevels, hcursor]
  exact (List.append_cons _ _ _).symm

/-- Listing the directories that wait, one after the other. -/
lemma searchQueue_carriesOut (hr : r.IsFinite) (hsys : r.FailsBySystem plan) :
    ∀ (queue : List (String × Visited)) (s : Scan), s.frame.phase = .ellipsis →
      s.frame.cursor = none → (∀ d ∈ queue, isEnterable d.1) →
      (s.searchQueue r plan queue).CarriesOut r plan s.base (queueAgenda r plan s queue) s.ledger
  | [], s, _, _, _ => by
      rw [queueAgenda, Trip.levels_nil, List.nil_append]
      exact moved_pop rfl rfl rfl
  | (path, visited) :: queue, s, hphase, hcursor, henter => by
      obtain ⟨room, hroom⟩ := Reader.IsFinite.exists_room (t := s.trip r plan) hr
      have hcons := Trip.levels_cons (needsDirectory s.frame.remaining)
        ((s.trip r plan).walk s.frame.remaining) hroom henter
      have hextent : (s.trip r plan).reader.extent = r.extent := rfl
      have hreader : (s.trip r plan).reader.listed (s.trip r plan).plan path
          = r.listed plan path := rfl
      -- the rest of the queue, from any scan that is in the middle of this level
      have hnext : ∀ s' : Scan, SameLevel s s' →
          (s'.searchQueue r plan queue).CarriesOut r plan s.base (queueAgenda r plan s queue)
            s'.ledger := by
        intro s' hsame
        have h := searchQueue_carriesOut hr hsys queue s' hsame.phase hsame.cursor
          fun d hd => henter d (List.mem_cons_of_mem _ hd)
        rw [hsame.queueAgenda_eq, hsame.base] at h
        exact h
      set s₁ : Scan := { s with
        frame := { s.frame with path := path, visited := visited, pending := some queue } } with hs₁
      rw [queueAgenda, ← hextent, hcons, Trip.visit, Trip.subdirectories, hreader, searchQueue]
      cases hl : r.listed plan path with
      | error fault =>
        obtain ⟨handles, issued, hopen⟩ := openCursor_error hl s₁
        simp only [← hs₁, hopen, reportOpen, hsys hl, if_true, List.append_nil, List.cons_append,
          List.nil_append]
        refine cons (m := { s.ledger with opened := orDot path :: s.ledger.opened }) rfl ?_
        set s₂ : Scan := { s₁ with
          handles := handles
          issued := issued
          events := .opened (orDot path) :: s₁.events } with hs₂
        have hqueue : s₂.agenda r plan = queueAgenda r plan s queue :=
          (agenda_of_queue (s := s₂) hphase hcursor rfl).trans
            (SameLevel.queueAgenda_eq ⟨hphase, hcursor, rfl, rfl, rfl, rfl⟩ queue)
        have h := report_andThen r plan s₂ fault "open_directory" path
          fun s' hframe hstack hbase => by
            rw [hqueue]
            exact hnext s' ⟨by rw [hframe]; exact hphase, by rw [hframe]; exact hcursor,
              by rw [hframe], by rw [hframe], hstack, hbase⟩
        rw [hqueue] at h
        exact h
      | ok l =>
        obtain ⟨handle, handles, issued, hopen⟩ := openCursor_ok hl s₁
        simp only [← hs₁, hopen, List.cons_append, List.append_assoc]
        refine cons (m := { s.ledger with opened := orDot path :: s.ledger.opened }) rfl ?_
        set s₂ : Scan := { s₁ with
          frame := { s₁.frame with cursor := some ⟨handle, l.names, l.fault⟩ }
          handles := handles
          issued := issued
          events := .opened (orDot path) :: s₁.events } with hs₂
        have h := searchListing_carriesOut (r := r) (s := s₂) (c := ⟨handle, l.names, l.fault⟩)
          hphase rfl rfl fun s' hframe hstack hbase =>
            hnext s' ⟨by rw [hframe]; exact hphase, by rw [hframe], by rw [hframe], by rw [hframe],
              hstack, hbase⟩
        rw [agenda_eq, Frame.agenda, show s₂.frame.phase = .ellipsis from hphase] at h
        simp only [hs₂, hs₁, Trip.restOfLevels, List.append_assoc] at h
        exact h

/-- Going on level by level. -/
lemma level_carriesOut (hr : r.IsFinite) (hsys : r.FailsBySystem plan)
    {pending : List (String × Visited)} (hphase : s.frame.phase = .ellipsis)
    (hpending : s.frame.pending = some pending) (henter : ∀ d ∈ pending, isEnterable d.1) :
    (s.level r plan pending).CarriesOut r plan s.base (s.agenda r plan) s.ledger := by
  unfold level
  cases hcursor : s.frame.cursor with
  | none =>
    rw [agenda_of_queue hphase hcursor hpending]
    exact searchQueue_carriesOut hr hsys pending s hphase hcursor henter
  | some c =>
    refine searchListing_carriesOut hphase hcursor hpending fun s' hframe hstack hbase => ?_
    have hsame : SameLevel s s' := ⟨by rw [hframe]; exact hphase, by rw [hframe], by rw [hframe],
      by rw [hframe], hstack, hbase⟩
    have h := searchQueue_carriesOut hr hsys pending s' hsame.phase hsame.cursor henter
    rw [hsame.queueAgenda_eq, hsame.base] at h
    exact h

/-! ### One step -/

/-- Taking the next component. -/
lemma component_carriesOut (hr : r.IsFinite) (hsys : r.FailsBySystem plan)
    (hphase : s.frame.phase = .component) (hbare : s.frame.Bare) :
    (s.component r plan).CarriesOut r plan s.base (s.agenda r plan) s.ledger := by
  unfold component
  cases hrest : s.frame.remaining with
  | nil => exact arrive_carriesOut hphase hrest
  | cons c rest =>
    have hagenda : s.agenda r plan
        = (s.trip r plan).walk (c :: rest) s.frame.path s.frame.visited
          ++ s.agendaOf r plan s.stack := by
      rw [agenda_eq, Frame.agenda, hphase]
      simp only [hrest]
      rfl
    rw [hagenda]
    set s₁ : Scan := { s with frame := { s.frame with remaining := rest } } with hs₁
    cases c with
    | literal name descent => exact literal_carriesOut (s := s₁) hphase name descent
    | wildcard w => exact openWildcard_carriesOut (s := s₁) hsys w
    | ellipsis => exact enterEllipsis_carriesOut (s := s₁) hr hphase hbare.1 hbare.2

/-- Taking an ellipsis a level further. -/
lemma ellipsis_carriesOut (hr : r.IsFinite) (hsys : r.FailsBySystem plan)
    (hcoherent : s.frame.Coherent plan) (hphase : s.frame.phase = .ellipsis) :
    (s.ellipsis r plan).CarriesOut r plan s.base (s.agenda r plan) s.ledger := by
  unfold ellipsis
  cases hpending : s.frame.pending with
  | none => exact expand_carriesOut hphase hpending
  | some queue =>
    exact level_carriesOut hr hsys hphase hpending
      (hcoherent.queue_of_ellipsis hphase hpending).2

lemma dispatch_carriesOut (hr : r.IsFinite) (hsys : r.FailsBySystem plan)
    (hcoherent : s.frame.Coherent plan) (hphase : s.frame.phase ≠ .finished) :
    (s.dispatch r plan).CarriesOut r plan s.base (s.agenda r plan) s.ledger := by
  unfold dispatch
  cases h : s.frame.phase with
  | initial => exact begin_carriesOut h
  | component => exact component_carriesOut hr hsys h (hcoherent.bare_of_component h)
  | listing => exact listing_carriesOut h
  | ellipsis => exact ellipsis_carriesOut hr hsys hcoherent h
  | finished => exact absurd h hphase

/-- **One step carries out the agenda.**  What a scan logs about its frames is no part of it. -/
theorem turn_carriesOut (hr : r.IsFinite) (hsys : r.FailsBySystem plan) (hs : s.Coherent plan)
    (hphase : s.frame.phase ≠ .finished) :
    (s.turn r plan).CarriesOut r plan s.base (s.agenda r plan) s.ledger := by
  have h := dispatch_carriesOut (s := s.emit (.entered s.frame.phase)) hr hsys hs.frame hphase
  unfold turn
  split
  · next s' answer heq =>
    rw [heq] at h
    exact ⟨h.perform_eq, h.shorter, h.base_eq⟩
  · exact h

/-- A scan that is over answers so, and stays as it is. -/
lemma turn_finished (r : Reader) (plan : Plan) (hphase : s.frame.phase = .finished) :
    ∃ s', s.turn r plan = (s', .answered none) ∧ s'.frame = s.frame ∧ s'.stack = s.stack ∧
      s'.base = s.base ∧ s'.ledger = s.ledger := by
  unfold turn
  have h : (s.emit (.entered s.frame.phase)).dispatch r plan
      = (s.emit (.entered s.frame.phase), .answered none) := by
    unfold dispatch
    rw [show (s.emit (.entered s.frame.phase)).frame.phase = .finished from hphase]
  rw [h]
  exact ⟨_, rfl, rfl, rfl, rfl, rfl⟩

end Scan

end PathExpansion
