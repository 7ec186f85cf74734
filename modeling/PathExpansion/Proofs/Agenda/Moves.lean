import Mathlib.Logic.Relation
import PathExpansion.Proofs.Agenda.Coherence

/-!
# What a step is made of

In one step a scan may do several things: it looks at a directory that cannot be opened, hears from
the policy that it may go on, turns to the next directory, reads a name there and goes down by it.
Each of these is a *move*.  The moves say all that a step can do to frames, to handles and to the
policy, so an invariant of scans is one case for each of them.

* `Frame.Waits` — which frame waits while an ellipsis is taken.
* `Scan.Move`, `Scan.Moves` — the moves, and moves in a row.
* `Scan.moves_component`, `Scan.moves_listing`, `Scan.moves_ellipsis` — what the phases are made of.
* **`Scan.Coherent.moves_turn`** — a step of a coherent scan is made of moves, whatever the
  filesystem answers and wherever the error policy stops.
* `Scan.Move.coherent` — a move preserves coherence.
* **`Scan.Coherent.turn_preserves`** — what each move preserves, a step preserves.
-/

namespace PathExpansion

/-- If something has to be found inside on the rest of the way, it has to be on all of it. -/
lemma needsDirectory_cons {c : Component} {rest : List Component} (h : needsDirectory rest) :
    needsDirectory (c :: rest) := by
  rw [needsDirectory, List.any_cons, Bool.or_eq_true]
  exact Or.inr h

/-- No fault changes the manner of a policy. -/
lemma Policy.handle_manner (p : Policy) (i : Incident) : (p.handle i).policy.manner = p.manner := by
  unfold handle
  simp only
  split
  case h_4 => split <;> rfl
  all_goals rfl

/-- **The frame that waits** where an ellipsis is taken: it takes the ellipsis further, goes on
after it, or walks level by level. -/
inductive Frame.Waits (plan : Plan) (f : Frame) : Frame → Prop
  | further : Waits plan f { f with phase := .ellipsis }
  | after : Waits plan f f
  | levels (horder : plan.order = .breadthFirst) : Waits plan f (Scan.levelFrame f)

namespace Frame

variable {plan : Plan} {f g : Frame}

/-- The frame that waits stands where the other does, and has the same before it. -/
lemma Waits.kept (h : Waits plan f g) :
    g.root = f.root ∧ g.remaining = f.remaining ∧ g.path = f.path ∧ g.cursor = f.cursor := by
  cases h <;> exact ⟨rfl, rfl, rfl, rfl⟩

/-- A path waits with a level only if it can be entered. -/
lemma eq_of_mem_waiting {p d : String × Visited} (hd : d ∈ if isEnterable p.1 then [p] else []) :
    d = p ∧ isEnterable d.1 := by
  split at hd
  · next henter =>
    rw [List.mem_singleton.mp hd]
    exact ⟨rfl, henter⟩
  · cases hd

lemma Waits.coherent (h : Waits plan f g) (hphase : f.phase = .component) (hbare : f.Bare) :
    g.Coherent plan ∧ g.phase ≠ .finished := by
  cases h with
  | further =>
    refine ⟨?_, fun h => by cases h⟩
    simp only [Coherent, hbare.2, hbare.1]
  | after => exact ⟨coherent_of_component hphase hbare, by simp [hphase]⟩
  | levels horder =>
    have henter : ∀ d ∈ if isEnterable f.path then [(f.path, f.visited)] else [], isEnterable d.1 :=
      fun d hd => (eq_of_mem_waiting (p := (f.path, f.visited)) hd).2
    exact ⟨coherent_of_queue rfl rfl horder henter, fun h => by cases h⟩

/-- Closing what is open leaves a frame with what its phase has a use for. -/
lemma Coherent.closeCursor (h : f.Coherent plan) :
    ({ f with cursor := none } : Frame).Coherent plan := by
  unfold Coherent at h ⊢
  cases hphase : f.phase with
  | initial | component | finished =>
    rw [hphase] at h
    exact ⟨rfl, h.2⟩
  | listing =>
    rw [hphase] at h
    exact h
  | ellipsis =>
    rw [hphase] at h
    simp only at h ⊢
    cases hpending : f.pending with
    | none => trivial
    | some queue =>
      rw [hpending] at h
      exact h

/-- A frame that has nothing open and nothing waiting goes on as it is. -/
lemma successor_of_bare (h : f.Bare) : f.successor = f := by
  rw [successor, ← h.1, ← h.2]

end Frame

namespace Scan

section

variable (r : Reader) (plan : Plan)

/-- **A move**, what a step can do to a scan. -/
inductive Move : Scan → Scan → Prop
  /-- Something is noted in the log, by the policy, or about the templates. -/
  | noted {s : Scan} (policy : Policy) (fitting : Option Fitting) (events : List Event)
      (hmanner : policy.manner = s.policy.manner) :
      Move s { s with policy := policy, fitting := fitting, events := events }
  /-- A directory is asked for that cannot be opened, or whose names cannot be read or put in
  order. -/
  | refused {s s' : Scan} {directory : String} {fault : Fault}
      (hopen : s.openCursor r plan directory = (s', .error fault)) : Move s s'
  /-- Directories are counted as entered. -/
  | marked {s : Scan} (visited : Visited) :
      Move s { s with frame := { s.frame with visited := visited } }
  /-- A frame that has nothing open is dropped. -/
  | dropped {s : Scan} (hcursor : s.frame.cursor = none) : Move s s.pop
  /-- The specification is taken up. -/
  | begun {s : Scan} (hphase : s.frame.phase = .initial) (hbare : s.frame.Bare) : Move s s.begin.1
  /-- The next component is a name that leads on, into a directory if something has to be found
  inside. -/
  | descended {s : Scan} {name : String} {descent : Bool} {rest : List Component}
      {p : String × Visited} (hphase : s.frame.phase = .component) (hbare : s.frame.Bare)
      (hremaining : s.frame.remaining = .literal name descent :: rest)
      (hextend : (s.trip r plan).extend s.frame.path s.frame.visited name descent = some p)
      (hdeep : needsDirectory rest → isEnterable p.1) :
      Move s { s with frame := { s.frame with path := p.1, visited := p.2, remaining := rest } }
  /-- The next component is a glob, and the directory for it is opened. -/
  | globbed {s s' : Scan} {w : Wildcard} {rest : List Component} {c : Cursor}
      (hphase : s.frame.phase = .component) (hbare : s.frame.Bare)
      (hremaining : s.frame.remaining = .wildcard w :: rest)
      (hopen : ({ s with frame := { s.frame with remaining := rest } } : Scan).openCursor r
        plan s.frame.path = (s', .ok c)) :
      Move s { s' with frame :=
        { s'.frame with cursor := some c, wildcard := some w, phase := .listing } }
  /-- The next component, which is no name, is passed over. -/
  | passed {s : Scan} {c : Component} {rest : List Component} (hphase : s.frame.phase = .component)
      (hbare : s.frame.Bare) (hremaining : s.frame.remaining = c :: rest)
      (hname : ∀ name descent, c ≠ .literal name descent) :
      Move s { s with frame := { s.frame with remaining := rest } }
  /-- The next component is an ellipsis, and a frame is saved that waits meanwhile. -/
  | forked {s : Scan} {rest : List Component} {f : Frame} (hphase : s.frame.phase = .component)
      (hbare : s.frame.Bare) (hremaining : s.frame.remaining = .ellipsis :: rest)
      (hwaits : Frame.Waits plan { s.frame with remaining := rest } f) : Move s (s.save f)
  /-- An ellipsis is taken one level down. -/
  | expanded {s : Scan} {rest : List Component} (hbare : s.frame.Bare)
      (hphase : s.frame.phase = .ellipsis ∧ s.frame.remaining = rest ∨
        s.frame.phase = .component ∧ s.frame.remaining = .ellipsis :: rest)
      (henter : isEnterable s.frame.path) :
      Move s { s with frame :=
        { s.frame with
          remaining := .wildcard (.anyEntry plan.ignoreCase) :: .ellipsis :: rest
          phase := .component } }
  /-- A name is read that the glob matches; it is taken next, while the listing waits. -/
  | read {s : Scan} {c : Cursor} {name : String} {rest : List String} (descent : Bool)
      (hphase : s.frame.phase = .listing) (hcursor : s.frame.cursor = some c)
      (hunread : name :: rest <:+ c.unread) :
      Move s { s.save (s.frame.withUnread rest) with frame :=
        { s.frame.successor with
          remaining := .literal name descent :: s.frame.remaining
          phase := .component } }
  /-- A listing is closed. -/
  | closed {s : Scan} : Move s s.closeCursor
  /-- The directory that has waited longest on a level has its turn. -/
  | turnedTo {s : Scan} {path : String} {visited : Visited} {queue : List (String × Visited)}
      (hphase : s.frame.phase = .ellipsis) (hcursor : s.frame.cursor = none)
      (hpending : s.frame.pending = some ((path, visited) :: queue)) :
      Move s { s with frame :=
        { s.frame with path := path, visited := visited, pending := some queue } }
  /-- It is opened. -/
  | listed {s s' : Scan} {queue : List (String × Visited)} {c : Cursor}
      (hphase : s.frame.phase = .ellipsis) (hcursor : s.frame.cursor = none)
      (hpending : s.frame.pending = some queue) (henter : isEnterable s.frame.path)
      (hopen : s.openCursor r plan s.frame.path = (s', .ok c)) :
      Move s { s' with frame := { s'.frame with cursor := some c } }
  /-- A name is read that leads on, into a directory if something has to be found inside; the path
  is taken further, while the level waits, and the path with it if it is that of a directory. -/
  | found {s : Scan} {c : Cursor} {queue : List (String × Visited)} {name : String}
      {rest : List String}
      {p : String × Visited} (es : List Event) (hphase : s.frame.phase = .ellipsis)
      (hcursor : s.frame.cursor = some c) (hpending : s.frame.pending = some queue)
      (hunread : name :: rest <:+ c.unread)
      (hextend : (s.trip r plan).extend s.frame.path s.frame.visited name true = some p)
      (hdeep : needsDirectory s.frame.remaining → isEnterable p.1) :
      Move s ((s.midway rest (some (queue ++ if isEnterable p.1 then [p] else [])) es).leaveLevel
        p.1 p.2)

/-- Moves in a row. -/
abbrev Moves : Scan → Scan → Prop := Relation.ReflTransGen (Move r plan)

end

open PathExpansion.Frame Relation.ReflTransGen

variable {r : Reader} {plan : Plan} {s s' : Scan}

/-! ## What can be done at any time -/

/-- Entries of the log. -/
lemma moves_logged (s : Scan) (es : List Event) :
    Moves r plan s { s with events := es ++ s.events } :=
  single (.noted s.policy s.fitting _ rfl)

lemma moves_report (s : Scan) (fault : Fault) (operation path : String) :
    Moves r plan s (s.report fault operation path).1 := by
  obtain ⟨warning, heq⟩ := s.report_fst fault operation path
  rw [heq]
  exact single (.noted _ s.fitting _ (s.policy.handle_manner _))

lemma frame_report (s : Scan) (fault : Fault) (operation path : String) :
    (s.report fault operation path).1.frame = s.frame := by
  obtain ⟨warning, heq⟩ := s.report_fst fault operation path
  rw [heq]

lemma moves_reportOpen (s : Scan) (fault : Fault) (path : String) :
    Moves r plan s (s.reportOpen fault path).1 := by
  unfold reportOpen
  split
  · exact moves_report _ _ _ _
  · exact .refl

lemma frame_reportOpen (s : Scan) (fault : Fault) (path : String) :
    (s.reportOpen fault path).1.frame = s.frame := by
  unfold reportOpen
  split
  · exact frame_report _ _ _ _
  · rfl

/-- A step that goes on unless it has come to something. -/
lemma moves_andThen {t : Turn} {next : Scan → Turn} (ht : Moves r plan s t.1)
    (hnext : Moves r plan t.1 (next t.1).1) : Moves r plan s (t.andThen next).1 := by
  unfold Turn.andThen
  split
  · exact ht.trans hnext
  · exact ht

/-- The frame that is dropped does not matter to what is left. -/
lemma pop_withFrame (s : Scan) (f : Frame) : ({ s with frame := f } : Scan).pop = s.pop := by
  unfold pop
  cases s.stack <;> rfl

/-- Opening a directory changes nothing but the handles and the log. -/
lemma scan_of_openCursor {directory : String} {result : Except Fault Cursor}
    (hopen : s.openCursor r plan directory = (s', result)) :
    ∃ handles issued events,
      s' = { s with handles := handles, issued := issued, events := events } := by
  obtain ⟨handle, handles, issued, hopened⟩ := s.openCursor_eq r plan directory
  rw [hopened] at hopen
  cases hopen
  exact ⟨_, _, _, rfl⟩

/-! ## One component -/

section

variable (hbare : s.frame.Bare)

include hbare

lemma moves_arrive : Moves r plan s (s.arrive r plan).1 := by
  obtain ⟨fitting, harrive⟩ := s.arrive_eq r plan
  rw [harrive]
  exact (single (.dropped hbare.1)).tail (.noted _ fitting _ rfl)

/-- The frame goes an ellipsis one level down, or is dropped; it stands before the ellipsis or waits
to take it further. -/
lemma moves_expand {rest : List Component}
    (hphase : s.frame.phase = .ellipsis ∧ s.frame.remaining = rest ∨
      s.frame.phase = .component ∧ s.frame.remaining = .ellipsis :: rest) :
    Moves r plan s
      (({ s with frame := { s.frame with remaining := rest } } : Scan).expand plan).1 := by
  unfold expand
  split
  · next henter => exact single (.expanded hbare hphase henter)
  · rw [pop_withFrame]
    exact single (.dropped hbare.1)

variable (hphase : s.frame.phase = .component) {rest : List Component}

include hphase

lemma moves_literal {name : String} {descent : Bool}
    (hremaining : s.frame.remaining = .literal name descent :: rest) :
    Moves r plan s
      (({ s with frame := { s.frame with remaining := rest } } : Scan).literal r plan name
        descent).1 := by
  obtain ⟨es, _, hext⟩ :=
    ({ s with frame := { s.frame with remaining := rest } } : Scan).extend_eq r plan name descent
  have hdropped : ∀ f : Frame,
      Moves r plan s ({ s with frame := f, events := es ++ s.events } : Scan).pop := by
    intro f
    rw [← pop_withFrame _ s.frame]
    exact (s.moves_logged es).tail (.dropped hbare.1)
  rw [literal, hext]
  cases hp : (Scan.trip { s with frame := { s.frame with remaining := rest } } r plan).extend
      s.frame.path s.frame.visited name descent with
  | none => exact hdropped _
  | some p =>
    simp only
    split
    · exact hdropped _
    · next hleaf =>
      refine (single (.descended hphase hbare hremaining hp fun hdeep => ?_)).tail
        (.noted _ _ _ rfl)
      simpa [hdeep] using hleaf

lemma moves_openWildcard {w : Wildcard} (hremaining : s.frame.remaining = .wildcard w :: rest) :
    Moves r plan s
      (({ s with frame := { s.frame with remaining := rest } } : Scan).openWildcard r
        plan w).1 := by
  rcases hopen : ({ s with frame := { s.frame with remaining := rest } } : Scan).openCursor r plan
    s.frame.path with ⟨s', result⟩
  rw [openWildcard, hopen]
  cases result with
  | ok cursor => exact single (.globbed hphase hbare hremaining hopen)
  | error fault =>
    have hpassed : Moves r plan s s' :=
      (single (.passed hphase hbare hremaining fun _ _ hc => by cases hc)).tail (.refused hopen)
    obtain ⟨_, _, _, rfl⟩ := scan_of_openCursor hopen
    simp only
    split
    · exact (hpassed.tail (.dropped hbare.1)).trans (moves_report _ _ _ _)
    · exact hpassed

lemma moves_enterEllipsis (hremaining : s.frame.remaining = .ellipsis :: rest) :
    Moves r plan s
      (({ s with frame := { s.frame with remaining := rest } } : Scan).enterEllipsis r plan).1 := by
  rw [enterEllipsis, noteEntered_eq]
  set visited := (Scan.trip { s with frame := { s.frame with remaining := rest } } r plan).entered
    s.frame.path s.frame.visited
  set f : Frame := { s.frame with remaining := rest, visited := visited }
  set m : Scan := { s with frame := { s.frame with visited := visited } }
  have hsuccessor : f.successor = f := successor_of_bare hbare
  have hforked : ∀ {g : Frame}, Waits plan f g → Moves r plan s (m.save g) := fun hwaits =>
    (single (.marked visited)).tail (.forked hphase hbare hremaining hwaits)
  have hpassed : ∀ {g f' : Frame}, Waits plan f g → f' = f →
      Moves r plan s { m.save g with frame := f' } := by
    rintro g _ hwaits rfl
    exact (hforked hwaits).tail (.passed hphase hbare hremaining fun _ _ hc => by cases hc)
  cases horder : plan.order with
  | normal =>
    refine hpassed .further ?_
    rw [← hphase]
    exact hsuccessor
  | insideOut =>
    have hpush : ({ s with frame := f } : Scan).push = { m.save f with frame := f } :=
      congrArg (fun f' : Frame => { m.save f with frame := f' }) hsuccessor
    simp only [hpush]
    exact (hforked .after).trans (moves_expand (s := m.save f) hbare (Or.inr ⟨hphase, hremaining⟩))
  | breadthFirst =>
    simp only
    split
    · exact (hpassed (.levels horder) rfl).tail (.dropped hbare.1)
    · exact hpassed (.levels horder) rfl

lemma moves_component : Moves r plan s (s.component r plan).1 := by
  unfold component
  cases hremaining : s.frame.remaining with
  | nil => exact moves_arrive hbare
  | cons c rest =>
    cases c with
    | literal name descent => exact moves_literal hbare hphase hremaining
    | wildcard w => exact moves_openWildcard hbare hphase hremaining
    | ellipsis => exact moves_enterEllipsis hbare hphase hremaining

end

/-! ## Listings -/

/-- Closing a listing that was read in the meantime. -/
lemma closeCursor_midway (s : Scan) (unread : List String) (es : List Event) :
    (s.midway unread s.frame.pending es).closeCursor
      = { s.closeCursor with events := es ++ s.events } := by
  have hhandle : (s.frame.withUnread unread).handle? = s.frame.handle? := by
    rw [handle?, handle?, withUnread]
    cases s.frame.cursor <;> rfl
  simp only [closeCursor, release, midway]
  rw [show ({ s.frame.withUnread unread with pending := s.frame.pending } : Frame).handle?
    = s.frame.handle? from hhandle]
  rfl

lemma moves_endListing (s : Scan) (unread : List String) (es : List Event) :
    Moves r plan s (s.midway unread s.frame.pending es).endListing.1 := by
  have hclosed : Moves r plan s (s.midway unread s.frame.pending es).closeCursor := by
    rw [closeCursor_midway]
    exact (single .closed).trans (moves_logged _ es)
  unfold endListing
  split
  · exact hclosed.trans (moves_report _ _ _ _)
  · exact hclosed

lemma frame_endListing (s : Scan) : s.endListing.1.frame = { s.frame with cursor := none } := by
  unfold endListing
  split
  · exact frame_report _ _ _ _
  · rfl

lemma moves_listing (hphase : s.frame.phase = .listing) : Moves r plan s s.listing.1 := by
  unfold listing
  cases hcursor : s.frame.cursor with
  | none => exact single (.dropped hcursor)
  | some c =>
    simp only
    split
    · next name rest hnames =>
      exact single (.read _ hphase hcursor (hnames ▸ List.dropWhile_suffix _))
    · refine moves_andThen (moves_endListing s [] []) (single (.dropped ?_))
      rw [frame_endListing]

/-! ## Level by level -/

/-- Reading on in the directory that is open; `next` goes on once it is closed. -/
lemma moves_searchListing {c : Cursor} {queue : List (String × Visited)}
    (hphase : s.frame.phase = .ellipsis) (hcursor : s.frame.cursor = some c)
    (hpending : s.frame.pending = some queue) {next : Scan → Turn}
    (hnext : ∀ s' : Scan, s'.frame = { s.frame with cursor := none } →
      Moves r plan s' (next s').1) :
    Moves r plan s (s.searchListing r plan c.unread next).1 := by
  unfold searchListing
  obtain ⟨es, _, ⟨hsearch, _⟩ | ⟨p, rest, hsearch, _, _, hwanted, name, hunread, hext⟩⟩ :=
    nextOfLevel_spec r plan (fun _ _ => []) c.unread s
  · rw [hsearch]
    refine moves_andThen (moves_endListing s [] es) (hnext _ ?_)
    rw [frame_endListing]
    rfl
  · rw [hsearch, hpending]
    refine single (.found es hphase hcursor hpending hunread hext fun hdeep => ?_)
    simpa [hdeep] using hwanted

lemma moves_searchQueue :
    ∀ (queue : List (String × Visited)) (s : Scan), s.frame.phase = .ellipsis →
    s.frame.cursor = none → s.frame.pending = some queue → (∀ d ∈ queue, isEnterable d.1) →
    Moves r plan s (s.searchQueue r plan queue).1
  | [], s, _, hcursor, _, _ => single (.dropped hcursor)
  | (path, visited) :: queue, s, hphase, hcursor, hpending, henter => by
      obtain ⟨hpath, hqueue⟩ := List.forall_mem_cons.mp henter
      set s₁ : Scan := { s with frame :=
        { s.frame with path := path, visited := visited, pending := some queue } } with hs₁
      have hturned : Moves r plan s s₁ := single (.turnedTo hphase hcursor hpending)
      rcases hopen : s₁.openCursor r plan path with ⟨s', result⟩
      obtain ⟨handles, issued, events, rfl⟩ := scan_of_openCursor hopen
      rw [searchQueue, hopen]
      cases result with
      | error fault =>
        refine (hturned.tail (.refused hopen)).trans (moves_andThen (moves_reportOpen _ _ _) ?_)
        refine moves_searchQueue queue _ ?_ ?_ ?_ hqueue <;> rw [frame_reportOpen]
        · exact hphase
        · exact hcursor
      | ok cursor =>
        set opened : Scan := { s₁ with
          frame := { s₁.frame with cursor := some cursor }
          handles := handles
          issued := issued
          events := events }
        refine (hturned.tail (.listed hphase hcursor rfl hpath hopen)).trans
          (moves_searchListing (s := opened) hphase rfl rfl fun s' hframe => ?_)
        refine moves_searchQueue queue s' ?_ ?_ ?_ hqueue <;> rw [hframe]
        exact hphase

lemma moves_ellipsis (hs : s.frame.Coherent plan) (hphase : s.frame.phase = .ellipsis) :
    Moves r plan s (s.ellipsis r plan).1 := by
  unfold ellipsis
  cases hpending : s.frame.pending with
  | none =>
    exact moves_expand ⟨hs.cursor_of_ellipsis hphase hpending, hpending⟩ (Or.inl ⟨hphase, rfl⟩)
  | some queue =>
    have henter := (hs.queue_of_ellipsis hphase hpending).2
    simp only [level]
    cases hcursor : s.frame.cursor with
    | none => exact moves_searchQueue queue s hphase hcursor hpending henter
    | some c =>
      refine moves_searchListing hphase hcursor hpending fun s' hframe => ?_
      refine moves_searchQueue queue s' ?_ ?_ ?_ henter <;> rw [hframe]
      · exact hphase
      · exact hpending

/-! ## Steps -/

/-- **A step of a coherent scan is made of moves.** -/
theorem Coherent.moves_turn (h : s.Coherent plan) : Moves r plan s (s.turn r plan).1 := by
  have hdispatch : Moves r plan s ((s.emit (.entered s.frame.phase)).dispatch r plan).1 := by
    refine (s.moves_logged [.entered s.frame.phase]).trans ?_
    set s₁ := s.emit (.entered s.frame.phase)
    have hframe : s₁.frame.Coherent plan := h.frame
    unfold dispatch
    cases hphase : s₁.frame.phase with
    | initial => exact single (.begun hphase (hframe.bare_of_initial hphase))
    | component => exact moves_component (hframe.bare_of_component hphase) hphase
    | listing => exact moves_listing hphase
    | ellipsis => exact moves_ellipsis hframe hphase
    | finished => exact .refl
  unfold Scan.turn
  split
  · next answer heq =>
    rw [heq] at hdispatch
    exact hdispatch.trans (moves_logged _ [.returned answer])
  · exact hdispatch

/-! ## Invariants -/

/-- **A move of a coherent scan leaves a coherent scan.** -/
lemma Move.coherent (hmove : Move r plan s s') (h : s.Coherent plan) : s'.Coherent plan := by
  cases hmove with
  | noted => exact h.congr rfl rfl
  | refused hopen =>
    obtain ⟨_, _, _, rfl⟩ := scan_of_openCursor hopen
    exact h.congr rfl rfl
  | marked => exact ⟨h.frame, h.stack, h.finished⟩
  | dropped => exact coherent_pop h.stack
  | begun hphase hbare => exact coherent_of_component rfl hbare h.stack
  | descended hphase hbare | passed hphase hbare => exact coherent_of_component hphase hbare h.stack
  | globbed hphase hbare hremaining hopen =>
    obtain ⟨_, _, _, rfl⟩ := scan_of_openCursor hopen
    exact coherent_of_listing rfl hbare.2 h.stack
  | forked hphase hbare hremaining hwaits =>
    obtain ⟨hcoherent, hgoesOn⟩ := hwaits.coherent hphase hbare
    exact coherent_of_component hphase hbare (h.stack.cons hcoherent hgoesOn)
  | expanded hbare => exact coherent_of_component rfl hbare h.stack
  | read descent hphase =>
    refine coherent_of_component rfl ⟨rfl, rfl⟩ (h.stack.cons ?_ ?_)
    · exact Frame.coherent_of_listing hphase (h.frame.pending_of_listing hphase)
    · simp [withUnread, hphase]
  | closed => exact ⟨h.frame.closeCursor, h.stack, h.finished⟩
  | turnedTo hphase hcursor hpending =>
    obtain ⟨horder, henter⟩ := h.frame.queue_of_ellipsis hphase hpending
    exact coherent_of_queue hphase rfl horder
      (fun d hd => henter d (List.mem_cons_of_mem _ hd)) h.stack
  | listed hphase hcursor hpending henter hopen =>
    obtain ⟨_, _, _, rfl⟩ := scan_of_openCursor hopen
    obtain ⟨horder, hqueue⟩ := h.frame.queue_of_ellipsis hphase hpending
    exact coherent_of_queue hphase hpending horder hqueue h.stack
  | found es hphase hcursor hpending hunread hextend hdeep =>
    obtain ⟨horder, hqueue⟩ := h.frame.queue_of_ellipsis hphase hpending
    refine coherent_of_component rfl ⟨rfl, rfl⟩
      (h.stack.cons (Frame.coherent_of_queue hphase rfl horder fun d hd => ?_) ?_)
    · rcases List.mem_append.mp hd with hd | hd
      · exact hqueue d hd
      · exact (eq_of_mem_waiting hd).2
    · simp [midway, withUnread, hphase]

/-- **What goes for every invariant**: what each move of a coherent scan preserves, a step
preserves. -/
theorem Coherent.turn_preserves {p : Scan → Prop}
    (hmove : ∀ ⦃s s' : Scan⦄, s.Coherent plan → Move r plan s s' → p s → p s') (h : s.Coherent plan)
    (hp : p s) : p (s.turn r plan).1 := by
  have hmoves : ∀ s', Moves r plan s s' → s'.Coherent plan ∧ p s' := by
    intro s' hs'
    induction hs' with
    | refl => exact ⟨h, hp⟩
    | tail _ hmove' ih => exact ⟨hmove'.coherent ih.1, hmove ih.1 hmove' ih.2⟩
  exact (hmoves _ h.moves_turn).2

/-- **A step of a coherent scan leaves a coherent scan.** -/
theorem Coherent.turn (h : s.Coherent plan) : (s.turn r plan).1.Coherent plan :=
  h.turn_preserves (fun _ _ hs hmove _ => hmove.coherent hs) h

end Scan

end PathExpansion
