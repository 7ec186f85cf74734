import PathExpansion.Proofs.Handles
import PathExpansion.Proofs.WholePath

/-!
# What can be relied on between calls

A call may stop with an error in the middle of a step, and whatever is asked next finds the scan as
the step left it.  Nothing checks the frames then; they are expected to be as the phases need them.
They are, because each step brings every frame that it leaves, current or waiting, into a state from
which its phase can go on before anything that may fail is done, or else drops it.

* `Frame.Ready`, `Scan.Ready` — a frame has the glob that it reads names for, and stands where
  something can be found inside if something has to be.
* **`Scan.Ready.turn`** — a step preserves it.
* `Frame.WellFormed`, `Scan.WellFormed` — everything that is relied on; `Scan.Sound`, coherence and
  readiness together, is what gives it.
* `Scan.phase_of_turn_none`, `Scan.Delivers` — only a scan that is over comes to its end, and a call
  comes to what the last of its own steps comes to.
* `Staging`, **`Staging.delivers_iff`** — no call leaves a result behind: with a place for it, the
  place is empty after each call.
* `Operation`, `Scan.afterOperations` — everything that can be asked of a scan.
* **`Scan.wellFormed_afterOperations`** — a scan is well-formed whatever was asked of it, and once
  it has come to its end it stays there until there is something new to look for.
-/

namespace PathExpansion

/-! ## Frames that can go on -/

/-- **A ready frame** stands in a directory if something has to be found inside or names are read,
and has the glob that it reads names for. -/
structure Frame.Ready (f : Frame) : Prop where
  enterable : needsDirectory f.remaining ∨ f.phase = .listing → isEnterable f.path
  wildcard : f.phase = .listing → f.wildcard.isSome

/-- **A ready scan**: all frames are, those that wait too. -/
structure Scan.Ready (s : Scan) : Prop where
  frame : s.frame.Ready
  stack : ∀ f ∈ s.stack, f.Ready

namespace Frame

variable {f : Frame}

/-- A frame that reads no names needs a directory only for what remains. -/
lemma ready_of_remaining (hphase : f.phase ≠ .listing)
    (henter : needsDirectory f.remaining → isEnterable f.path) : f.Ready :=
  ⟨fun h => henter (h.resolve_right hphase), fun h => absurd h hphase⟩

lemma ready_initial (root : Root) : (initial root).Ready :=
  ready_of_remaining (by simp [initial]) fun h => by cases h

lemma ready_finished : finished.Ready :=
  ready_of_remaining (by simp [finished]) fun h => by cases h

/-- Names that have been read make no difference. -/
lemma Ready.withUnread (h : f.Ready) (names : List String) : (f.withUnread names).Ready :=
  ⟨h.enterable, h.wildcard⟩

end Frame

namespace Scan

open PathExpansion.Frame

variable {r : Reader} {plan : Plan} {s : Scan}

/-- Readiness is about frames only. -/
lemma Ready.congr {s' : Scan} (h : s.Ready) (hframe : s'.frame = s.frame)
    (hstack : s'.stack = s.stack) : s'.Ready :=
  ⟨by rw [hframe]; exact h.frame, by rw [hstack]; exact h.stack⟩

lemma ready_pop (h : ∀ f ∈ s.stack, f.Ready) : s.pop.Ready := by
  unfold pop
  cases hs : s.stack with
  | nil => exact ⟨ready_finished, fun _ hf => absurd hf List.not_mem_nil⟩
  | cons f fs =>
    rw [hs] at h
    obtain ⟨hf, hfs⟩ := List.forall_mem_cons.mp h
    exact ⟨hf, hfs⟩

/-! ### Steps, and what is done between them -/

/-- **A move of a ready scan leaves a ready scan.**  A level waits with directories to list, so that
coherence is needed too. -/
lemma Move.ready {s' : Scan} (hmove : Move r plan s s') (hc : s.Coherent plan) (h : s.Ready) :
    s'.Ready := by
  cases hmove with
  | noted => exact h.congr rfl rfl
  | refused hopen =>
    obtain ⟨_, _, _, rfl⟩ := scan_of_openCursor hopen
    exact h.congr rfl rfl
  | marked | closed => exact ⟨⟨h.frame.enterable, h.frame.wildcard⟩, h.stack⟩
  | dropped => exact ready_pop h.stack
  | begun =>
    exact ⟨ready_of_remaining (fun h => by cases h)
      fun _ => PathSpec.isEnterable_rootPath _, h.stack⟩
  | descended hphase hbare hremaining hextend hdeep =>
    exact ⟨ready_of_remaining (by simp [hphase]) hdeep, h.stack⟩
  | globbed hphase hbare hremaining hopen =>
    obtain ⟨_, _, _, rfl⟩ := scan_of_openCursor hopen
    have henter : isEnterable s.frame.path := h.frame.enterable (Or.inl (by rw [hremaining]; rfl))
    exact ⟨⟨fun _ => henter, fun _ => rfl⟩, h.stack⟩
  | passed hphase hbare hremaining =>
    refine ⟨ready_of_remaining (by simp [hphase])
      fun hdeep => h.frame.enterable (Or.inl ?_), h.stack⟩
    rw [hremaining]
    exact needsDirectory_cons hdeep
  | forked hphase hbare hremaining hwaits =>
    obtain ⟨-, hrest, hpath, -⟩ := hwaits.kept
    refine ⟨h.frame, List.forall_mem_cons.mpr ⟨ready_of_remaining ?_ fun hdeep => ?_, h.stack⟩⟩
    · cases hwaits <;> simp [levelFrame, hphase]
    · rw [hrest] at hdeep
      rw [hpath]
      exact h.frame.enterable (Or.inl (by rw [hremaining]; exact needsDirectory_cons hdeep))
  | expanded hbare hphase henter =>
    exact ⟨ready_of_remaining (fun h => by cases h) fun _ => henter, h.stack⟩
  | read descent hphase =>
    exact ⟨ready_of_remaining (fun h => by cases h) fun _ => h.frame.enterable (Or.inr hphase),
      List.forall_mem_cons.mpr ⟨h.frame.withUnread _, h.stack⟩⟩
  | turnedTo hphase hcursor hpending =>
    have henter := (hc.frame.queue_of_ellipsis hphase hpending).2
    exact ⟨ready_of_remaining (by simp [hphase]) fun _ => henter _ List.mem_cons_self, h.stack⟩
  | listed hphase hcursor hpending henter hopen =>
    obtain ⟨_, _, _, rfl⟩ := scan_of_openCursor hopen
    exact ⟨⟨h.frame.enterable, h.frame.wildcard⟩, h.stack⟩
  | found es hphase hcursor hpending hunread hextend hdeep =>
    exact ⟨ready_of_remaining (fun h => by cases h) hdeep,
      List.forall_mem_cons.mpr ⟨⟨h.frame.enterable, h.frame.wildcard⟩, h.stack⟩⟩

/-- **A step of a ready scan leaves a ready scan**, wherever it stops. -/
theorem Ready.turn (h : s.Ready) (hc : s.Coherent plan) : (s.turn r plan).1.Ready :=
  hc.turn_preserves (fun _ _ hs hmove => hmove.ready hs) h

lemma ready_close (s : Scan) : s.close.Ready :=
  ⟨ready_finished, fun _ hf => absurd hf List.not_mem_nil⟩

lemma ready_start (s : Scan) (spec : PathSpec) : (s.start spec).Ready :=
  ⟨ready_initial _, fun _ hf => absurd hf List.not_mem_nil⟩

lemma Ready.append (h : s.Ready) (spec : PathSpec) : (s.append spec).Ready := by
  have hstack : ∀ f ∈ s.stack ++ [Frame.initial (.queued spec)], f.Ready :=
    List.forall_mem_append.mpr ⟨h.stack, List.forall_mem_singleton.mpr (ready_initial _)⟩
  unfold Scan.append
  simp only
  split
  · exact ready_pop hstack
  · exact ⟨h.frame, hstack⟩

lemma Ready.prepend (h : s.Ready) (spec : PathSpec) : (s.prepend spec).Ready := by
  unfold Scan.prepend
  refine ⟨ready_initial _, ?_⟩
  simp only
  split
  · exact h.stack
  · exact List.forall_mem_cons.mpr ⟨h.frame, h.stack⟩

end Scan

/-! ## What is relied on -/

/-- **A well-formed frame**: what may be relied on when it has its turn. -/
structure Frame.WellFormed (plan : Plan) (f : Frame) : Prop where
  /-- A frame that takes up its specification, or a component, has no directory open and none
  waiting. -/
  bare : f.phase = .initial ∨ f.phase = .component → f.cursor = none ∧ f.pending = none
  /-- A frame that reads names has the glob for them. -/
  wildcard : f.phase = .listing → f.wildcard.isSome
  /-- Directories wait only in front of an ellipsis that goes level by level. -/
  queue : f.pending.isSome → f.phase = .ellipsis ∧ plan.order = .breadthFirst
  /-- Where something has to be found inside, or names are read, the path is that of a directory. -/
  enterable : (∃ c ∈ f.remaining, c ≠ .ellipsis) ∨ f.phase = .listing →
    f.path = "" ∨ ∃ parent, f.path = parent ++ "/"

/-- **A well-formed scan**: its frames are, no frame waits that is finished, and none waits behind
one. -/
structure Scan.WellFormed (plan : Plan) (s : Scan) : Prop where
  frames : ∀ f ∈ s.frame :: s.stack, f.WellFormed plan
  waiting : ∀ f ∈ s.stack, f.phase ≠ .finished
  finished : s.frame.phase = .finished → s.stack = []

/-- Something has to be found inside if anything but ellipses remains. -/
lemma needsDirectory_iff {components : List Component} :
    needsDirectory components ↔ ∃ c ∈ components, c ≠ .ellipsis := by
  rw [needsDirectory, List.any_eq_true]
  refine exists_congr fun c => and_congr_right fun _ => ?_
  cases c <;> simp [Component.isEllipsis]

lemma Frame.Coherent.wellFormed {plan : Plan} {f : Frame} (hc : f.Coherent plan) (h : f.Ready) :
    f.WellFormed plan where
  bare := fun hphase => hphase.elim hc.bare_of_initial hc.bare_of_component
  wildcard := h.wildcard
  queue := fun hpending => by
    obtain ⟨queue, hqueue⟩ := Option.isSome_iff_exists.mp hpending
    rw [Frame.Coherent] at hc
    -- in any other phase a coherent frame has no queue
    cases hphase : f.phase with
    | ellipsis =>
      rw [hphase, hqueue] at hc
      exact ⟨rfl, hc.1⟩
    | listing =>
      rw [hphase, hqueue] at hc
      cases hc
    | initial | component | finished =>
      rw [hphase, Frame.Bare, hqueue] at hc
      cases hc.2
  enterable := fun hdeep => isEnterable_iff.mp (h.enterable (hdeep.imp_left needsDirectory_iff.mpr))

namespace Scan

variable {r : Reader} {plan : Plan} {s s' : Scan}

/-- A coherent scan that is ready. -/
structure Sound (plan : Plan) (s : Scan) : Prop where
  coherent : s.Coherent plan
  ready : s.Ready

lemma Sound.wellFormed (h : s.Sound plan) : s.WellFormed plan where
  frames := List.forall_mem_cons.mpr ⟨h.coherent.frame.wellFormed h.ready.frame, fun f hf =>
    (h.coherent.stack f hf).1.wellFormed (h.ready.stack f hf)⟩
  waiting := fun f hf => (h.coherent.stack f hf).2
  finished := h.coherent.finished

lemma sound_idle (policy : Policy) : (idle policy).Sound plan :=
  ⟨coherent_close (idle policy), ready_close (idle policy)⟩

lemma Sound.turn (h : s.Sound plan) : (s.turn r plan).1.Sound plan :=
  ⟨h.coherent.turn, h.ready.turn h.coherent⟩

end Scan

/-! ## The end -/

/-- A step that finds that there is more to do, gives a result, or fails. -/
def Turn.GoesOn (t : Turn) : Prop := t.2 ≠ .answered none

namespace Turn

lemma goesOn_running (s : Scan) : GoesOn (s, .running) := fun h => by cases h

lemma goesOn_raised (s : Scan) (error : ScanError) : GoesOn (s, .raised error) :=
  fun h => by cases h

lemma GoesOn.andThen {t : Turn} {next : Scan → Turn} (ht : t.GoesOn)
    (hnext : ∀ s, (next s).GoesOn) :
    (t.andThen next).GoesOn := by
  unfold Turn.andThen
  split
  · exact hnext _
  · exact ht

end Turn

namespace Scan

open PathExpansion.Turn

variable {r : Reader} {plan : Plan} {s s' : Scan}

lemma goesOn_report (s : Scan) (fault : Fault) (operation path : String) :
    (s.report fault operation path).GoesOn := by
  rw [GoesOn, report_snd]
  split <;> simp

lemma goesOn_reportOpen (s : Scan) (fault : Fault) (path : String) :
    (s.reportOpen fault path).GoesOn := by
  unfold reportOpen
  split
  · exact goesOn_report _ _ _ _
  · exact goesOn_raised _ _

lemma goesOn_endListing (s : Scan) : s.endListing.GoesOn := by
  unfold endListing
  split
  · exact goesOn_report _ _ _ _
  · exact goesOn_running _

lemma goesOn_literal (s : Scan) (name : String) (descent : Bool) :
    (s.literal r plan name descent).GoesOn := by
  unfold literal
  split
  · exact goesOn_running _
  · simp only
    split <;> exact goesOn_running _

lemma goesOn_openWildcard (s : Scan) (w : Wildcard) : (s.openWildcard r plan w).GoesOn := by
  unfold openWildcard
  split
  · exact goesOn_running _
  · split
    · exact goesOn_report _ _ _ _
    · exact goesOn_raised _ _

lemma goesOn_expand (s : Scan) : (s.expand plan).GoesOn := by
  unfold expand
  split <;> exact goesOn_running _

lemma goesOn_enterEllipsis (s : Scan) : (s.enterEllipsis r plan).GoesOn := by
  unfold enterEllipsis
  cases plan.order with
  | normal => exact goesOn_running _
  | insideOut => exact goesOn_expand _
  | breadthFirst =>
    simp only
    split <;> exact goesOn_running _

lemma goesOn_arrive (s : Scan) : (s.arrive r plan).GoesOn := by
  unfold arrive
  simp only
  split
  · split
    · exact fun h => by cases h
    · exact goesOn_raised _ _
  · exact goesOn_running _

lemma goesOn_component (s : Scan) : (s.component r plan).GoesOn := by
  unfold component
  split
  · exact goesOn_arrive s
  · simp only
    split
    · exact goesOn_enterEllipsis _
    · exact goesOn_literal _ _ _
    · exact goesOn_openWildcard _ _

lemma goesOn_listing (s : Scan) : s.listing.GoesOn := by
  unfold listing
  split
  · exact goesOn_running _
  · split
    · exact goesOn_running _
    · exact (goesOn_endListing _).andThen fun _ => goesOn_running _

lemma goesOn_searchListing (s : Scan) (unread : List String) {next : Scan → Turn}
    (hnext : ∀ s, (next s).GoesOn) : (s.searchListing r plan unread next).GoesOn := by
  unfold searchListing
  split
  · exact goesOn_running _
  · exact (goesOn_endListing _).andThen hnext

lemma goesOn_searchQueue : ∀ (queue : List (String × Visited)) (s : Scan),
    (s.searchQueue r plan queue).GoesOn
  | [], _ => goesOn_running _
  | (path, visited) :: queue, s => by
      unfold searchQueue
      simp only
      split
      · exact (goesOn_reportOpen _ _ _).andThen (goesOn_searchQueue queue)
      · exact goesOn_searchListing _ _ (goesOn_searchQueue queue)

lemma goesOn_ellipsis (s : Scan) : (s.ellipsis r plan).GoesOn := by
  unfold ellipsis level
  split
  · split
    · exact goesOn_searchQueue _ _
    · exact goesOn_searchListing _ _ (goesOn_searchQueue _)
  · exact goesOn_expand _

/-- **Only the step of a scan that is over comes to the end.** -/
theorem phase_of_turn_none (h : s.turn r plan = (s', .answered none)) :
    s.frame.phase = .finished := by
  by_contra hphase
  have hgoesOn : ((s.emit (.entered s.frame.phase)).dispatch r plan).GoesOn := by
    unfold dispatch
    cases hcases : (s.emit (.entered s.frame.phase)).frame.phase with
    | initial => exact goesOn_running _
    | component => exact goesOn_component _
    | listing => exact goesOn_listing _
    | ellipsis => exact goesOn_ellipsis _
    | finished => exact absurd hcases hphase
  unfold Scan.turn at h
  split at h
  · next answer hdispatch =>
    cases h
    exact hgoesOn (by rw [hdispatch])
  · exact hgoesOn (by rw [h])

/-! ## Calls -/

variable (r plan) in
/-- **What a call comes to.**  It takes steps, one at least, until one comes to something, and comes
to that; it breaks off after a step that came to nothing.  So no call hands out what another has
found. -/
inductive Delivers : Scan → Scan × Outcome (Option Answer) → Prop
  | goesOn {s s' : Scan} {result} (hturn : s.turn r plan = (s', .running))
      (hrest : Delivers s' result) :
      Delivers s result
  | answers {s s' : Scan} {answer} (hturn : s.turn r plan = (s', .answered answer)) :
      Delivers s (s', .value answer)
  | raises {s s' : Scan} {error} (hturn : s.turn r plan = (s', .raised error)) :
      Delivers s (s', .raised error)
  | breaksOff {s s' : Scan} (hturn : s.turn r plan = (s', .running)) : Delivers s (s', .unfinished)

variable (r plan) in
/-- Steps that are repeated deliver what the last of them comes to. -/
lemma delivers_repeatTimes (n : ℕ) (s : Scan) :
    Delivers r plan s ((repeatTimes (towardsNext r plan) (n + 1) s).elim
      (fun s' => (s', .unfinished)) id) := by
  rw [repeatTimes, towardsNext]
  rcases hturn : s.turn r plan with ⟨s', signal⟩
  cases signal with
  | running =>
    cases n with
    | zero => exact .breaksOff hturn
    | succ n => exact .goesOn hturn (delivers_repeatTimes n s')
  | answered answer => exact .answers hturn
  | raised error => exact .raises hturn

/-- **A call delivers what its own steps come to**, whatever went before. -/
theorem delivers_advance (r : Reader) (plan : Plan) (s : Scan) :
    Delivers r plan s (s.advance r plan) := by
  obtain ⟨n, hn⟩ : ∃ n, 2 ^ s.patience r - 1 = n + 1 := by
    have hpatience : 2 ^ 1 ≤ 2 ^ s.patience r :=
      Nat.pow_le_pow_right (by decide) ((by decide : 1 ≤ 64).trans (s.le_patience r))
    exact ⟨2 ^ s.patience r - 2, by omega⟩
  have hrun := delivers_repeatTimes r plan n s
  rw [advance, repeatDoubling_eq, Nat.pow_zero, Nat.mul_one, hn]
  cases hrepeat : repeatTimes (towardsNext r plan) (n + 1) s with
  | inl s' => rw [hrepeat] at hrun; exact hrun
  | inr found => rw [hrepeat] at hrun; exact hrun

/-- A call that finds nothing leaves a scan that is over. -/
lemma Delivers.phase_of_none {result : Scan × Outcome (Option Answer)}
    (h : Delivers r plan s result)
    (hnone : result.2 = .value none) : result.1.frame.phase = .finished := by
  induction h with
  | goesOn _ _ ih => exact ih hnone
  | @answers s s' answer hturn =>
    cases hnone
    have hphase := phase_of_turn_none hturn
    obtain ⟨t, hover, hframe, -⟩ := turn_finished r plan hphase
    rw [hturn] at hover
    cases hover
    rw [hframe]
    exact hphase
  | raises _ => cases hnone
  | breaksOff _ => cases hnone

/-- A scan that is over has nothing to deliver, and stays so. -/
lemma Delivers.of_finished {result : Scan × Outcome (Option Answer)} (h : Delivers r plan s result)
    (hphase : s.frame.phase = .finished) :
    result.2 = .value none ∧ result.1.frame = s.frame ∧ result.1.stack = s.stack := by
  obtain ⟨t, hover, hframe, hstack, -⟩ := turn_finished r plan hphase
  cases h with
  | goesOn hturn | raises hturn | breaksOff hturn =>
    rw [hturn] at hover
    cases hover
  | answers hturn =>
    rw [hturn] at hover
    cases hover
    exact ⟨rfl, hframe, hstack⟩

end Scan

/-! ## A place for results -/

/-- **A scan with a place for a result**: a step that comes to a result, or to the end, puts it
there, and the call takes it out. -/
structure Staging where
  scan : Scan
  staged : Option (Option Answer)

namespace Staging

section

variable (r : Reader) (plan : Plan)

/-- **What a call comes to with such a place.**  The current frame has its turn as long as there is
nothing in it. -/
inductive Delivers : Staging → Staging × Outcome (Option Answer) → Prop
  | takes {s : Scan} {answer} :
      Delivers ⟨s, some answer⟩ (⟨s.emit (.returned answer), none⟩, .value answer)
  | goesOn {s s' : Scan} {result}
      (hhandled : (s.emit (.entered s.frame.phase)).dispatch r plan = (s', .running))
      (hrest : Delivers ⟨s', none⟩ result) : Delivers ⟨s, none⟩ result
  | puts {s s' : Scan} {answer result}
      (hhandled : (s.emit (.entered s.frame.phase)).dispatch r plan = (s', .answered answer))
      (hrest : Delivers ⟨s', some answer⟩ result) : Delivers ⟨s, none⟩ result
  | raises {s s' : Scan} {error}
      (hhandled : (s.emit (.entered s.frame.phase)).dispatch r plan = (s', .raised error)) :
      Delivers ⟨s, none⟩ (⟨s', none⟩, .raised error)

end

variable {r : Reader} {plan : Plan}

/-- A call takes out what is in the place, or else comes to what it comes to without one; the place
is empty afterwards. -/
lemma Delivers.emptied {st : Staging} {result} (h : Delivers r plan st result) :
    result.1.staged = none ∧ result.2 ≠ .unfinished ∧
      match st.staged with
      | none => Scan.Delivers r plan st.scan (result.1.scan, result.2)
      | some answer =>
        (result.1.scan, result.2) = (st.scan.emit (.returned answer), .value answer) := by
  induction h with
  | takes => exact ⟨rfl, nofun, rfl⟩
  | goesOn hhandled _ ih =>
    obtain ⟨hempty, hdone, hrest⟩ := ih
    exact ⟨hempty, hdone, .goesOn (by rw [Scan.turn, hhandled]) hrest⟩
  | puts hhandled _ ih =>
    obtain ⟨hempty, hdone, hrest⟩ := ih
    refine ⟨hempty, hdone, ?_⟩
    simp only at hrest ⊢
    rw [hrest]
    exact .answers (by rw [Scan.turn, hhandled])
  | raises hhandled => exact ⟨rfl, nofun, .raises (by rw [Scan.turn, hhandled])⟩

/-- What a call comes to is the same with an empty place for results. -/
lemma delivers_of_delivers {s : Scan} {result} (h : Scan.Delivers r plan s result)
    (hdone : result.2 ≠ .unfinished) :
    Delivers r plan ⟨s, none⟩ (⟨result.1, none⟩, result.2) := by
  induction h with
  | goesOn hturn _ ih =>
    rw [Scan.turn] at hturn
    split at hturn
    · cases hturn
    · exact .goesOn hturn (ih hdone)
  | answers hturn =>
    rw [Scan.turn] at hturn
    split at hturn
    · next hhandled =>
      cases hturn
      exact .puts hhandled .takes
    · next hnone => exact absurd hturn (hnone _ _)
  | raises hturn =>
    rw [Scan.turn] at hturn
    split at hturn
    · cases hturn
    · exact .raises hturn
  | breaksOff => exact absurd rfl hdone

/-- **Nothing stays in the place for results.**  Where it is empty, a call empties it again, also a
call that stops with an error, and comes to the same as without such a place. -/
theorem delivers_iff {s : Scan} {st : Staging} {outcome : Outcome (Option Answer)} :
    Delivers r plan ⟨s, none⟩ (st, outcome) ↔
      st.staged = none ∧ outcome ≠ .unfinished ∧ Scan.Delivers r plan s (st.scan, outcome) := by
  refine ⟨fun h => h.emptied, ?_⟩
  obtain ⟨s', staged⟩ := st
  rintro ⟨rfl, hdone, h⟩
  exact delivers_of_delivers h hdone

end Staging

/-! ## Everything that can be asked -/

/-- What can be asked of a scan, each call for a result with the filesystem as it stands then. -/
inductive Operation where
  | start (spec : PathSpec)
  | advance (r : Reader)
  | append (spec : PathSpec)
  | prepend (spec : PathSpec)
  | close

/-- Nothing new to look for is given. -/
def Operation.AddsNothing : Operation → Prop
  | .advance _ | .close => True
  | .start _ | .append _ | .prepend _ => False

namespace Scan

variable {plan : Plan} {s s' : Scan}

/-- A scan after an operation, whatever came of it. -/
def operate (plan : Plan) (s : Scan) : Operation → Scan
  | .start spec => s.start spec
  | .advance r => (s.advance r plan).1
  | .append spec => s.append spec
  | .prepend spec => s.prepend spec
  | .close => s.close

/-- A scan after operations in a row. -/
def afterOperations (s : Scan) (plan : Plan) (operations : List Operation) : Scan :=
  operations.foldl (operate plan) s

/-- **Each operation keeps a scan sound.** -/
lemma Sound.operate (h : s.Sound plan) (operation : Operation) :
    (s.operate plan operation).Sound plan := by
  cases operation with
  | start spec => exact ⟨coherent_start s spec, ready_start s spec⟩
  | advance r => exact advance_preserves (fun _ hs => hs.turn) h
  | append spec => exact ⟨h.coherent.append spec, h.ready.append spec⟩
  | prepend spec => exact ⟨h.coherent.prepend spec, h.ready.prepend spec⟩
  | close => exact ⟨coherent_close s, ready_close s⟩

lemma Sound.afterOperations (h : s.Sound plan) (operations : List Operation) :
    (s.afterOperations plan operations).Sound plan := by
  induction operations generalizing s with
  | nil => exact h
  | cons operation operations ih => exact ih (h.operate operation)

/-- A scan that is over stays so if it is given nothing new. -/
lemma isFinished_operate (h : s.isFinished) {operation : Operation}
    (hadds : operation.AddsNothing) :
    (s.operate plan operation).isFinished := by
  obtain ⟨hphase, hstack⟩ := isFinished_iff.mp h
  cases operation with
  | advance r =>
    obtain ⟨-, hsameFrame, hsameStack⟩ := (delivers_advance r plan s).of_finished hphase
    exact isFinished_iff.mpr
      ⟨by rw [operate, hsameFrame, hphase], by rw [operate, hsameStack, hstack]⟩
  | close => rfl
  | start spec | append spec | prepend spec => exact hadds.elim

lemma isFinished_afterOperations (h : s.isFinished) {operations : List Operation}
    (hadd : ∀ operation ∈ operations, operation.AddsNothing) :
    (s.afterOperations plan operations).isFinished := by
  induction operations generalizing s with
  | nil => exact h
  | cons operation operations ih =>
    obtain ⟨hfirst, hrest⟩ := List.forall_mem_cons.mp hadd
    exact ih (isFinished_operate h hfirst) hrest

/-- **A scan that is given something to look for is not over.**  Had it been, nothing would wait
that could come before. -/
lemma Sound.not_isFinished_operate (h : s.Sound plan) {operation : Operation}
    (hadds : ¬operation.AddsNothing) : ¬(s.operate plan operation).isFinished := by
  rw [isFinished_iff]
  rintro ⟨hphase, -⟩
  cases operation with
  | start spec => cases hphase
  | prepend spec => cases hphase
  | append spec =>
    rw [Scan.operate, Scan.append] at hphase
    split_ifs at hphase with hover
    · -- it goes on with what waits first, and that is the new specification
      have hstack : s.stack ++ [Frame.initial (.queued spec)] = [.initial (.queued spec)] := by
        rw [h.coherent.finished hover, List.nil_append]
      rw [hstack] at hphase
      cases hphase
    · exact hover hphase
  | advance _ | close => exact hadds trivial

/-- **A scan is well-formed whatever was asked of it, and whatever came of that**: results, the end,
or errors in the middle of a step.  Each call comes to what its own steps come to.  Once one has
come to the end, the scan is over, and each further call comes to the end too, until there is
something new to look for. -/
theorem wellFormed_afterOperations (plan : Plan) (policy : Policy) (operations : List Operation) :
    let s := (idle policy).afterOperations plan operations
    s.WellFormed plan ∧ (∀ r, Delivers r plan s (s.advance r plan)) ∧
      ∀ r s', s.advance r plan = (s', .value none) →
        ∀ later : List Operation, (∀ operation ∈ later, operation.AddsNothing) →
          let ended := s'.afterOperations plan later
          ended.isFinished ∧ (∀ r', (ended.advance r' plan).2 = .value none) ∧
            ∀ operation, (ended.operate plan operation).isFinished ↔ operation.AddsNothing := by
  intro s
  have hs : s.Sound plan := (sound_idle policy).afterOperations operations
  refine ⟨hs.wellFormed, fun r => delivers_advance r plan s, fun r s' hadvance later hlater => ?_⟩
  have hs' : s'.Sound plan := by
    have hnext := hs.operate (.advance r)
    rwa [Scan.operate, hadvance] at hnext
  have hphase : s'.frame.phase = .finished := by
    have hdelivers := delivers_advance r plan s
    rw [hadvance] at hdelivers
    exact hdelivers.phase_of_none rfl
  intro ended
  have hended : ended.isFinished :=
    isFinished_afterOperations (isFinished_iff.mpr ⟨hphase, hs'.coherent.finished hphase⟩) hlater
  refine ⟨hended, fun r' => ?_, fun operation => ⟨fun h => ?_, isFinished_operate hended⟩⟩
  · exact ((delivers_advance r' plan ended).of_finished (isFinished_iff.mp hended).1).1
  · by_contra hadds
    exact (hs'.afterOperations later).not_isFinished_operate hadds h

end Scan

/-! ## A scan that was stopped -/

namespace Outcome

variable {α : Type} {outcome : Outcome α}

/-- What a call has given. -/
def value? : Outcome α → Option α
  | value a => some a
  | raised _ | unfinished => none

/-- The error that has stopped a call. -/
def error? : Outcome α → Option ScanError
  | raised error => some error
  | value _ | unfinished => none

lemma eq_of_value? {a : α} (h : outcome.value? = some a) : outcome = .value a := by
  cases outcome with
  | value b => exact congrArg value (Option.some.inj h)
  | raised _ | unfinished => cases h

end Outcome

namespace Scan

/-- A filesystem in which no directory can be opened. -/
def barred : Reader := { Expansion.twoEach with openDirectory := fun _ => .error ⟨.permission, []⟩ }

/-- A path that is looked for where nothing can be opened, and looked for again where there is
something. -/
def retried (spec : PathSpec) : List Operation :=
  [.start spec, .advance barred, .append spec, .advance Expansion.twoEach,
    .advance Expansion.twoEach]

/-- A scan that was stopped by its policy when it opened a directory, and was then given the path
again. -/
theorem wellFormed_afterOperations_stopped :
    ∃ spec, PathSpec.compile false (.text "*") none none false = .ok spec ∧
      let plan : Plan := ⟨.normal, .asListed, none, none, false⟩
      let s := (idle (.fresh .failFast)).afterOperations plan (retried spec)
      (((idle (.fresh .failFast)).start spec).advance barred plan).2.error?.isSome ∧
        s.WellFormed plan ∧ ∃ s', s.advance Expansion.twoEach plan = (s', .value none) ∧
          (s'.afterOperations plan [.advance barred, .close]).isFinished := by
  obtain ⟨spec, hspec, htest⟩ := PathSpec.exists_compile false false (.text "*") none
    (fun spec =>
      let plan : Plan := ⟨.normal, .asListed, none, none, false⟩
      let s := (idle (.fresh .failFast)).afterOperations plan (retried spec)
      decide ((((idle (.fresh .failFast)).start spec).advance barred plan).2.error?.isSome ∧
        (s.advance Expansion.twoEach plan).2.value? = some none)) (by decide +kernel)
  obtain ⟨hraised, hnone⟩ := of_decide_eq_true htest
  refine ⟨spec, hspec, hraised, ?_⟩
  obtain ⟨hwellFormed, -, hends⟩ :=
    wellFormed_afterOperations ⟨.normal, .asListed, none, none, false⟩
    (.fresh .failFast) (retried spec)
  refine ⟨hwellFormed, ?_⟩
  generalize (idle (.fresh .failFast)).afterOperations ⟨.normal, .asListed, none, none, false⟩
    (retried spec) = s at hnone hends ⊢
  rcases hadvance : s.advance Expansion.twoEach
      ⟨.normal, .asListed, none, none, false⟩ with ⟨s', outcome⟩
  rw [hadvance] at hnone
  obtain rfl := Outcome.eq_of_value? hnone
  refine ⟨s', rfl, ?_⟩
  exact (hends Expansion.twoEach s' hadvance [.advance barred, .close]
    (by simp [Operation.AddsNothing])).1

end Scan

end PathExpansion
