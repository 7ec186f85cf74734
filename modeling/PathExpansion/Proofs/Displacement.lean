import PathExpansion.Proofs.Agenda.Run

/-!
# Displaced scans

Handles are numbered as they are given, so a scan that is started over has other numbers than one
that has just begun; and it may remember for which pattern its templates were last looked at.
Nothing else is left of what a scan did before, and neither decides anything.

* `Scan.displaced` — a scan with all its handles so many numbers further on.
* **`Scan.displaced_turn`** — a step of it is the step of the scan, displaced.
* `repeatTimes_related` — what two runs have in common after each round, they have in the end;
  `Scan.advance_related`, `Scan.drain_related`: so scans whose steps come to the same come to the
  same.
* `Scan.IsDisplaced`, `Scan.IsDisplaced.advance`, `Scan.IsDisplaced.drain` — so it is with whatever
  a scan is asked.
* `Scan.isDisplaced_start` — a scan that is started again is one that is started, displaced.
-/

namespace PathExpansion

/-- A cursor whose handle is so many numbers further on. -/
def Cursor.displaced (n : ℕ) (c : Cursor) : Cursor := { c with handle := c.handle.map (n + ·) }

/-- A frame whose cursor has such a handle. -/
def Frame.displaced (n : ℕ) (f : Frame) : Frame := { f with cursor := f.cursor.map (·.displaced n) }

/-- An entry of the log with such frames. -/
def Event.displaced (n : ℕ) : Event → Event
  | .saved f => .saved (f.displaced n)
  | .resumed f => .resumed (f.displaced n)
  | e => e

/-- **A scan as it would be if so many handles had been given before it began**, and templates had
been looked at with some pattern. -/
def Scan.displaced (n : ℕ) (fitting : Option Fitting) (s : Scan) : Scan :=
  { s with
    frame := s.frame.displaced n
    stack := s.stack.map (·.displaced n)
    fitting := fitting
    handles := s.handles.map (n + ·)
    issued := n + s.issued
    events := s.events.map (·.displaced n) }

/-- The same beside whatever else something comes to. -/
def Scan.displacedIn {α : Type} (n : ℕ) (fitting : Option Fitting) (x : Scan × α) : Scan × α :=
  (x.1.displaced n fitting, x.2)

namespace Frame

variable {n : ℕ}

lemma displaced_withUnread (f : Frame) (names : List String) :
    (f.displaced n).withUnread names = (f.withUnread names).displaced n := by
  rw [withUnread, withUnread, displaced, displaced]
  cases f.cursor <;> rfl

lemma displaced_handle? (f : Frame) : (f.displaced n).handle? = f.handle?.map (n + ·) := by
  rw [handle?, handle?, displaced]
  cases f.cursor <;> rfl

end Frame

namespace Scan

variable {n : ℕ} {fitting : Option Fitting} {r : Reader} {plan : Plan}

/-! ### What does not change, and what does -/

@[simp] lemma displaced_path (s : Scan) : (s.displaced n fitting).frame.path = s.frame.path := rfl

@[simp] lemma displaced_visited (s : Scan) :
    (s.displaced n fitting).frame.visited = s.frame.visited := rfl

@[simp] lemma displaced_remaining (s : Scan) :
    (s.displaced n fitting).frame.remaining = s.frame.remaining := rfl

@[simp] lemma displaced_phase (s : Scan) :
    (s.displaced n fitting).frame.phase = s.frame.phase := rfl

@[simp] lemma displaced_pending (s : Scan) :
    (s.displaced n fitting).frame.pending = s.frame.pending := rfl

@[simp] lemma displaced_wants (s : Scan) :
    (s.displaced n fitting).frame.wants = s.frame.wants := rfl

@[simp] lemma displaced_spec (s : Scan) : (s.displaced n fitting).spec = s.spec := rfl

lemma displaced_cursor (s : Scan) :
    (s.displaced n fitting).frame.cursor = s.frame.cursor.map (·.displaced n) := rfl

lemma displaced_frames (s : Scan) :
    (s.displaced n fitting).frame :: (s.displaced n fitting).stack
      = (s.frame :: s.stack).map (·.displaced n) := rfl

/-! ### Operations -/

lemma displaced_pop (s : Scan) : (s.displaced n fitting).pop = s.pop.displaced n fitting := by
  rw [pop, pop, displaced, displaced]
  cases s.stack <;> rfl

/-- Going back to the frame that waits. -/
lemma displaced_popped (s : Scan) :
    ((s.displaced n fitting).pop, Signal.running) = displacedIn n fitting (s.pop, Signal.running) :=
  congrArg (·, Signal.running) (displaced_pop s)

lemma displaced_report (s : Scan) (fault : Fault) (operation path : String) :
    (s.displaced n fitting).report fault operation path
      = displacedIn n fitting (s.report fault operation path) := by
  simp only [report, displacedIn, displaced]
  cases (s.policy.handle ⟨orDot path, operation, fault⟩).stop <;>
    cases (s.policy.handle ⟨orDot path, operation, fault⟩).warning <;> rfl

lemma displaced_extend (s : Scan) (name : String) (descent : Bool) :
    (s.displaced n fitting).extend r plan name descent
      = displacedIn n fitting (s.extend r plan name descent) := by
  rw [extend, extend, displaced_path, displaced_visited, displaced_spec]
  simp only
  split_ifs <;> rfl

/-- Handles stay as different as they are. -/
lemma displaced_release (s : Scan) (given : List ℕ) :
    (s.displaced n fitting).release (given.map (n + ·))
      = (s.release given).displaced n fitting := by
  have hhandles : (s.handles.map (n + ·)).filter (fun h => !(given.map (n + ·)).contains h)
      = (s.handles.filter (!given.contains ·)).map (n + ·) := by
    rw [List.filter_map]
    refine congrArg _ (List.filter_congr fun h _ => ?_)
    simp
  rw [release, release, displaced, displaced]
  simp only [hhandles]

/-- Names are put in order whatever the handle, and it is given back. -/
lemma displaced_sortCursor (s : Scan) (directory : String) (c : Cursor) :
    (s.displaced n fitting).sortCursor plan directory (c.displaced n)
      = ((s.sortCursor plan directory c).1.displaced n fitting,
          (s.sortCursor plan directory c).2.map (·.displaced n)) := by
  have hhandle : (c.displaced n).handle.toList = c.handle.toList.map (n + ·) := by
    rw [Cursor.displaced]
    cases c.handle <;> rfl
  rw [sortCursor_eq, sortCursor_eq, hhandle, displaced_release, Cursor.drain_eq, Cursor.drain_eq]
  refine congrArg (Prod.mk _) ?_
  simp only [Cursor.displaced]
  cases c.fault with
  | some fault => rfl
  | none =>
    simp only [Option.elim, bind, Except.bind]
    cases plan.sorting.arrange plan.ignoreCase directory c.unread <;> rfl

lemma displaced_openCursor (s : Scan) (directory : String) :
    (s.displaced n fitting).openCursor r plan directory
      = ((s.openCursor r plan directory).1.displaced n fitting,
          (s.openCursor r plan directory).2.map (·.displaced n)) := by
  rw [openCursor, openCursor]
  cases r.openDirectory (orDot directory) with
  | error fault => rfl
  | ok listing =>
    cases plan.sorting.isEager with
    | false => rfl
    | true =>
      let given := (s.emit (.opened (orDot directory))).takeHandle listing
      exact displaced_sortCursor given.1 directory given.2

lemma displaced_literal (s : Scan) (name : String) (descent : Bool) :
    (s.displaced n fitting).literal r plan name descent
      = displacedIn n fitting (s.literal r plan name descent) := by
  rw [literal, literal, displaced_extend]
  rcases s.extend r plan name descent with ⟨s', _ | ⟨path, visited⟩⟩
  · exact displaced_popped s'
  · simp only [displacedIn]
    rw [displaced_remaining]
    split_ifs
    · exact displaced_popped _
    · rfl

lemma displaced_openWildcard (s : Scan) (w : Wildcard) :
    (s.displaced n fitting).openWildcard r plan w
      = displacedIn n fitting (s.openWildcard r plan w) := by
  rw [openWildcard, openWildcard, displaced_path, displaced_openCursor]
  rcases s.openCursor r plan s.frame.path with ⟨s', fault | cursor⟩
  · simp only [Except.map]
    split_ifs
    · rw [displaced_pop]
      exact displaced_report _ fault _ _
    · rfl
  · rfl

lemma displaced_expand (s : Scan) :
    (s.displaced n fitting).expand plan = displacedIn n fitting (s.expand plan) := by
  rw [expand, expand, displaced_path]
  split_ifs
  · rfl
  · exact displaced_popped s

lemma displaced_enterEllipsis (s : Scan) :
    (s.displaced n fitting).enterEllipsis r plan
      = displacedIn n fitting (s.enterEllipsis r plan) := by
  rw [enterEllipsis, enterEllipsis, noteEntered_eq s r plan, noteEntered_eq _ r plan]
  set s₁ : Scan := { s with frame := { s.frame with
    visited := (s.trip r plan).entered s.frame.path s.frame.visited } } with hs₁
  cases plan.order with
  | normal => rfl
  | insideOut => exact displaced_expand s₁.push
  | breadthFirst =>
    set s₂ := s₁.save (levelFrame s₁.frame) with hs₂
    change (if s₂.frame.remaining.isEmpty then ((s₂.displaced n fitting).pop, Signal.running)
        else (s₂.displaced n fitting, Signal.running))
      = displacedIn n fitting
        (if s₂.frame.remaining.isEmpty then (s₂.pop, Signal.running) else (s₂, Signal.running))
    split_ifs
    · exact displaced_popped s₂
    · rfl

/-- Arriving at a path may leave other templates looked at than before. -/
lemma displaced_arrive (s : Scan) :
    ∃ fitting', (s.displaced n fitting).arrive r plan
      = displacedIn n fitting' (s.arrive r plan) := by
  obtain ⟨fitting', hdisplaced⟩ := (s.displaced n fitting).arrive_eq r plan
  obtain ⟨fitting'', harrive⟩ := s.arrive_eq r plan
  refine ⟨fitting', ?_⟩
  rw [hdisplaced, harrive, displaced_pop]
  rfl

lemma displaced_component (s : Scan) :
    ∃ fitting', (s.displaced n fitting).component r plan
      = displacedIn n fitting' (s.component r plan) := by
  rw [component, component, displaced_remaining]
  cases s.frame.remaining with
  | nil => exact displaced_arrive s
  | cons c rest =>
    set s₁ : Scan := { s with frame := { s.frame with remaining := rest } } with hs₁
    refine ⟨fitting, ?_⟩
    cases c with
    | literal name descent => exact displaced_literal s₁ name descent
    | wildcard w => exact displaced_openWildcard s₁ w
    | ellipsis => exact displaced_enterEllipsis s₁

lemma displaced_closeCursor (s : Scan) :
    (s.displaced n fitting).closeCursor = s.closeCursor.displaced n fitting := by
  have hhandle : (s.displaced n fitting).frame.handle?.toList
      = s.frame.handle?.toList.map (n + ·) := by
    rw [← Option.toList_map]
    exact congrArg _ s.frame.displaced_handle?
  rw [closeCursor, closeCursor, hhandle, displaced_release]
  rfl

/-- Ending a listing and going on. -/
lemma displaced_endListing_andThen {next next' : Scan → Turn}
    (hnext : ∀ s, next' (s.displaced n fitting) = displacedIn n fitting (next s)) (s : Scan) :
    Turn.andThen (s.displaced n fitting).endListing next'
      = displacedIn n fitting (Turn.andThen s.endListing next) := by
  have hfault : (s.displaced n fitting).frame.cursor.bind (·.fault)
      = s.frame.cursor.bind (·.fault) := by
    rw [displaced_cursor]
    cases s.frame.cursor <;> rfl
  rw [Turn.andThen, Turn.andThen, endListing, endListing, hfault, displaced_path,
    displaced_closeCursor]
  cases s.frame.cursor.bind (·.fault) with
  | none => exact hnext _
  | some fault =>
    simp only [displaced_report]
    rcases s.closeCursor.report fault "read_directory" s.frame.path with ⟨s', signal⟩
    cases signal with
    | running => exact hnext s'
    | _ => rfl

lemma displaced_unread (s : Scan) (names : List String) :
    ({ s.displaced n fitting with
        frame := (s.displaced n fitting).frame.withUnread names } : Scan)
      = ({ s with frame := s.frame.withUnread names } : Scan).displaced n fitting :=
  congrArg (fun f => ({ s.displaced n fitting with frame := f } : Scan))
    (s.frame.displaced_withUnread names)

lemma displaced_listing (s : Scan) :
    (s.displaced n fitting).listing = displacedIn n fitting s.listing := by
  rw [listing, listing, displaced_cursor, displaced_wants]
  cases s.frame.cursor with
  | none => exact displaced_popped s
  | some cursor =>
    have hnames : (cursor.displaced n).unread = cursor.unread := rfl
    simp only [Option.map_some, hnames, displaced_unread]
    cases cursor.unread.dropWhile (!s.frame.wants ·) with
    | nil =>
      exact displaced_endListing_andThen displaced_popped _
    | cons name rest => rfl

/-! ### Level by level -/

lemma displaced_nextOfLevel (names : List String) (s : Scan) :
    nextOfLevel r plan names (s.displaced n fitting)
      = displacedIn n fitting (nextOfLevel r plan names s) := by
  induction names generalizing s with
  | nil => exact congrArg (·, none) (displaced_unread s [])
  | cons name rest ih =>
    rw [nextOfLevel, nextOfLevel, displaced_unread]
    set s₁ : Scan := { s with frame := s.frame.withUnread rest } with hs₁
    split_ifs
    · exact ih s₁
    · rw [displaced_extend]
      rcases s₁.extend r plan name true with ⟨s', _ | ⟨path, visited⟩⟩
      · exact ih s'
      · simp only [displacedIn]
        rw [displaced_remaining]
        split_ifs
        · rfl
        · exact ih s'
        · rfl

lemma displaced_searchListing {next next' : Scan → Turn}
    (hnext : ∀ s, next' (s.displaced n fitting) = displacedIn n fitting (next s)) (s : Scan)
    (names : List String) :
    (s.displaced n fitting).searchListing r plan names next'
      = displacedIn n fitting (s.searchListing r plan names next) := by
  rw [searchListing, searchListing, displaced_nextOfLevel]
  rcases nextOfLevel r plan names s with ⟨s', _ | ⟨path, visited⟩⟩
  · exact displaced_endListing_andThen hnext s'
  · rfl

lemma displaced_searchQueue (queue : List (String × Visited)) (s : Scan) :
    searchQueue r plan queue (s.displaced n fitting)
      = displacedIn n fitting (searchQueue r plan queue s) := by
  induction queue generalizing s with
  | nil => exact displaced_popped s
  | cons d queue ih =>
    obtain ⟨path, visited⟩ := d
    set s₁ : Scan := { s with frame :=
      { s.frame with path := path, visited := visited, pending := some queue } } with hs₁
    have hopen : openCursor r plan (s₁.displaced n fitting) path = _ := displaced_openCursor s₁ path
    have hframe : ({ s.displaced n fitting with frame := { (s.displaced n fitting).frame with
        path := path, visited := visited, pending := some queue } } : Scan)
      = s₁.displaced n fitting := rfl
    rw [searchQueue, searchQueue, ← hs₁, hframe, hopen]
    rcases openCursor r plan s₁ path with ⟨s', fault | cursor⟩
    · simp only [Except.map, reportOpen]
      rw [Turn.andThen, Turn.andThen]
      cases fault.isSystem with
      | false => rfl
      | true =>
        simp only [if_true, displaced_report]
        rcases s'.report fault "open_directory" path with ⟨s'', signal⟩
        cases signal with
        | running => exact ih s''
        | _ => rfl
    · exact displaced_searchListing ih { s' with frame := { s'.frame with cursor := some cursor } }
        cursor.unread

lemma displaced_ellipsis (s : Scan) :
    (s.displaced n fitting).ellipsis r plan = displacedIn n fitting (s.ellipsis r plan) := by
  rw [ellipsis, ellipsis, displaced_pending]
  cases s.frame.pending with
  | none => exact displaced_expand s
  | some queue =>
    simp only [level, displaced_cursor]
    cases s.frame.cursor with
    | none => exact displaced_searchQueue queue s
    | some cursor => exact displaced_searchListing (displaced_searchQueue queue) s cursor.unread

/-- **A step of a displaced scan is the step of the scan, displaced.** -/
theorem displaced_turn (s : Scan) :
    ∃ fitting', (s.displaced n fitting).turn r plan = displacedIn n fitting' (s.turn r plan) := by
  set s₁ := s.emit (.entered s.frame.phase) with hs₁
  have hdispatch : ∃ fitting', (s₁.displaced n fitting).dispatch r plan
      = displacedIn n fitting' (s₁.dispatch r plan) := by
    rw [dispatch, dispatch, displaced_phase]
    cases s₁.frame.phase with
    | initial => exact ⟨fitting, rfl⟩
    | component => exact displaced_component s₁
    | listing => exact ⟨fitting, displaced_listing s₁⟩
    | ellipsis => exact ⟨fitting, displaced_ellipsis s₁⟩
    | finished => exact ⟨fitting, rfl⟩
  obtain ⟨fitting', hdispatch⟩ := hdispatch
  refine ⟨fitting', ?_⟩
  have hemit : (s.displaced n fitting).emit (.entered (s.displaced n fitting).frame.phase)
      = s₁.displaced n fitting := rfl
  rw [turn, turn, hemit, hdispatch, ← hs₁]
  rcases s₁.dispatch r plan with ⟨s', signal⟩
  cases signal <;> rfl

/-! ### Calls -/

lemma displaced_patience (s : Scan) : (s.displaced n fitting).patience r = s.patience r := by
  have hweight : ∀ f : Frame,
      (s.displaced n fitting).frameWeight r (f.displaced n) = s.frameWeight r f := by
    intro f
    rw [frameWeight, frameWeight, Frame.displaced]
    cases f.cursor <;> rfl
  rw [patience, patience, displaced_frames, List.foldl_map]
  simp only [hweight]

end Scan

section

variable {σ ρ : Type} {step : σ → σ ⊕ ρ} {R : σ → σ → Prop} {Q : ρ → ρ → Prop}

/-- What each round has in common, repeating has. -/
lemma repeatTimes_related (hstep : ∀ a b, R a b → Sum.LiftRel R Q (step a) (step b)) (k : ℕ)
    {a b : σ} (h : R a b) : Sum.LiftRel R Q (repeatTimes step k a) (repeatTimes step k b) := by
  induction k generalizing a b with
  | zero => exact .inl h
  | succ k ih =>
    have hround := hstep a b h
    rw [repeatTimes, repeatTimes]
    cases ha : step a with
    | inl a' =>
      cases hb : step b with
      | inl b' =>
        rw [ha, hb, Sum.liftRel_inl_inl] at hround
        exact ih hround
      | inr q =>
        rw [ha, hb] at hround
        cases hround
    | inr p =>
      cases hb : step b with
      | inl b' =>
        rw [ha, hb] at hround
        cases hround
      | inr q =>
        rw [ha, hb] at hround
        exact hround

lemma repeatDoubling_related (hstep : ∀ a b, R a b → Sum.LiftRel R Q (step a) (step b))
    (portions k : ℕ) {a b : σ} (h : R a b) :
    Sum.LiftRel R Q (repeatDoubling step portions k a) (repeatDoubling step portions k b) := by
  rw [repeatDoubling_eq, repeatDoubling_eq]
  exact repeatTimes_related hstep _ h

end

namespace Scan

section

variable {r : Reader} {plan : Plan} {R : Scan → Scan → Prop} {s s' : Scan}

/-- Two scans whose steps come to the same come to the same result, and stay related as steps leave
them. -/
lemma advance_related
    (hturn : ∀ s s', R s s' → R (s.turn r plan).1 (s'.turn r plan).1 ∧
      (s'.turn r plan).2 = (s.turn r plan).2)
    (h : R s s') (hpatience : s'.patience r = s.patience r) :
    R (s.advance r plan).1 (s'.advance r plan).1 ∧
    (s'.advance r plan).2 = (s.advance r plan).2 := by
  have hround : ∀ s s', R s s' →
      Sum.LiftRel R (fun x y : Scan × Outcome (Option Answer) => R x.1 y.1 ∧ y.2 = x.2)
        (towardsNext r plan s) (towardsNext r plan s') := by
    intro s s' hs
    obtain ⟨hleft, hsignal⟩ := hturn s s' hs
    rw [towardsNext, towardsNext]
    generalize s.turn r plan = x at hleft hsignal ⊢
    generalize s'.turn r plan = y at hleft hsignal ⊢
    obtain ⟨⟨s, signal⟩, ⟨s', _⟩⟩ := x, y
    cases hsignal
    cases signal with
    | running => exact .inl hleft
    | answered answer => exact .inr ⟨hleft, rfl⟩
    | raised error => exact .inr ⟨hleft, rfl⟩
  have hall := repeatDoubling_related hround (s.patience r) 0 h
  rw [Scan.advance, Scan.advance, hpatience]
  generalize repeatDoubling (towardsNext r plan) (s.patience r) 0 s = x at hall ⊢
  generalize repeatDoubling (towardsNext r plan) (s.patience r) 0 s' = y at hall ⊢
  cases hall with
  | inl hscan => exact ⟨hscan, rfl⟩
  | inr hfound => exact hfound

/-- So do they come to the same end. -/
lemma drain_related
    (hturn : ∀ s s', R s s' → R (s.turn r plan).1 (s'.turn r plan).1 ∧
      (s'.turn r plan).2 = (s.turn r plan).2)
    (h : R s s') (hpatience : s'.patience r = s.patience r) :
    R (s.drain r plan).1 (s'.drain r plan).1 ∧ (s'.drain r plan).2 = (s.drain r plan).2 := by
  have hround : ∀ x y : Scan × List Answer, R x.1 y.1 ∧ y.2 = x.2 →
      Sum.LiftRel (fun x y : Scan × List Answer => R x.1 y.1 ∧ y.2 = x.2)
        (fun x y : Scan × Outcome (List Answer) => R x.1 y.1 ∧ y.2 = x.2)
        (towardsEnd r plan x) (towardsEnd r plan y) := by
    rintro ⟨s, answers⟩ ⟨s', _⟩ ⟨hs, ⟨⟩⟩
    obtain ⟨hleft, hsignal⟩ := hturn s s' hs
    rw [towardsEnd, towardsEnd]
    simp only
    generalize s.turn r plan = x at hleft hsignal ⊢
    generalize s'.turn r plan = y at hleft hsignal ⊢
    obtain ⟨⟨s, signal⟩, ⟨s', _⟩⟩ := x, y
    cases hsignal
    match signal with
    | .running => exact .inl ⟨hleft, rfl⟩
    | .answered (some answer) => exact .inl ⟨hleft, rfl⟩
    | .answered none => exact .inr ⟨hleft, rfl⟩
    | .raised error => exact .inr ⟨hleft, rfl⟩
  have hall := repeatDoubling_related (a := (s, [])) (b := (s', []))
    hround (s.patience r) 0 ⟨h, rfl⟩
  rw [Scan.drain, Scan.drain, hpatience]
  generalize repeatDoubling (towardsEnd r plan) (s.patience r) 0 (s, []) = x at hall ⊢
  generalize repeatDoubling (towardsEnd r plan) (s.patience r) 0 (s', []) = y at hall ⊢
  cases hall with
  | inl hstate => exact ⟨hstate.1, rfl⟩
  | inr hfound => exact hfound

end

variable {n : ℕ} {fitting : Option Fitting} {r : Reader} {plan : Plan}

lemma displaced_isFinished (s : Scan) : (s.displaced n fitting).isFinished = s.isFinished := by
  have hstack : (s.displaced n fitting).stack = s.stack.map (·.displaced n) := rfl
  rw [isFinished, isFinished, hstack, displaced_phase, List.isEmpty_map]

/-- One scan is another, displaced. -/
def IsDisplaced (n : ℕ) (s s' : Scan) : Prop := ∃ fitting, s' = s.displaced n fitting

variable {s s' : Scan}

lemma IsDisplaced.patience (h : IsDisplaced n s s') : s'.patience r = s.patience r := by
  obtain ⟨fitting, rfl⟩ := h
  exact displaced_patience s

lemma IsDisplaced.turn (h : IsDisplaced n s s') :
    IsDisplaced n (s.turn r plan).1 (s'.turn r plan).1 ∧
    (s'.turn r plan).2 = (s.turn r plan).2 := by
  obtain ⟨fitting, rfl⟩ := h
  obtain ⟨fitting', hturn⟩ := displaced_turn s
  rw [hturn]
  exact ⟨⟨fitting', rfl⟩, rfl⟩

lemma IsDisplaced.advance (h : IsDisplaced n s s') :
    IsDisplaced n (s.advance r plan).1 (s'.advance r plan).1 ∧
      (s'.advance r plan).2 = (s.advance r plan).2 :=
  advance_related (fun _ _ => IsDisplaced.turn) h h.patience

lemma IsDisplaced.drain (h : IsDisplaced n s s') :
    IsDisplaced n (s.drain r plan).1 (s'.drain r plan).1 ∧
      (s'.drain r plan).2 = (s.drain r plan).2 :=
  drain_related (fun _ _ => IsDisplaced.turn) h h.patience

/-! ### Roots -/

lemma IsDisplaced.close (h : IsDisplaced n s s') : IsDisplaced n s.close s'.close := by
  obtain ⟨fitting, rfl⟩ := h
  have hheld : ((s.displaced n fitting).frame :: (s.displaced n fitting).stack).filterMap
      Frame.handle? = ((s.frame :: s.stack).filterMap Frame.handle?).map (n + ·) := by
    rw [displaced_frames, List.filterMap_map, List.map_filterMap]
    exact List.filterMap_congr fun f _ => f.displaced_handle?
  refine ⟨fitting, ?_⟩
  rw [Scan.close, Scan.close, hheld, displaced_release]
  rfl

lemma IsDisplaced.start (h : IsDisplaced n s s') (spec : PathSpec) :
    IsDisplaced n (s.start spec) (s'.start spec) := by
  obtain ⟨fitting, hclose⟩ := h.close
  refine ⟨fitting, ?_⟩
  rw [Scan.start, Scan.start, hclose]
  rfl

/-- A scan that is started after it has given back all its handles is one that is started for the
first time, displaced. -/
lemma isDisplaced_start (h : s.close.handles = []) (spec : PathSpec) :
    IsDisplaced s.issued ((idle s.policy).start spec).takeEvents.2 (s.start spec).takeEvents.2 := by
  refine ⟨s.fitting, ?_⟩
  exact congrArg (fun handles =>
    (⟨.initial .construction, [], some spec, s.policy, s.fitting, handles, s.issued, []⟩ : Scan)) h

lemma IsDisplaced.append (h : IsDisplaced n s s') (spec : PathSpec) :
    IsDisplaced n (s.append spec) (s'.append spec) := by
  obtain ⟨fitting, rfl⟩ := h
  refine ⟨fitting, ?_⟩
  have hstack : (s.displaced n fitting).stack ++ [.initial (.queued spec)]
      = (s.stack ++ [Frame.initial (.queued spec)]).map (·.displaced n) := by
    rw [List.map_append]
    rfl
  simp only [Scan.append, hstack, displaced_phase]
  split_ifs
  · exact displaced_pop { s with stack := s.stack ++ [.initial (.queued spec)] }
  · rfl

lemma IsDisplaced.prepend (h : IsDisplaced n s s') (spec : PathSpec) :
    IsDisplaced n (s.prepend spec) (s'.prepend spec) := by
  obtain ⟨fitting, rfl⟩ := h
  refine ⟨fitting, ?_⟩
  rw [Scan.prepend, Scan.prepend, displaced_phase]
  split_ifs <;> rfl

lemma IsDisplaced.setMatcher (h : IsDisplaced n s s') (matcher : Pattern) :
    IsDisplaced n (s.setMatcher matcher) (s'.setMatcher matcher) := by
  obtain ⟨fitting, rfl⟩ := h
  exact ⟨fitting, rfl⟩

end Scan

end PathExpansion
