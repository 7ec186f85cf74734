import PathExpansion.Proofs.Agenda.Machine

/-!
# Frames hold what their phase has a use for

A frame keeps a directory open while it reads names, and directories waiting while it walks level by
level.  In any other phase it holds neither.  A scan in which this goes for every frame, and in
which no frame waits that is finished, is *coherent*.

* `Frame.Coherent`, `Scan.Coherent` — the invariant.
* `Scan.coherent_pop` — frames that wait are ready to go on.
* `Scan.Coherent.start`, `Scan.Coherent.append`, `Scan.Coherent.prepend`, `Scan.coherent_close`,
  `Scan.Coherent.setMatcher` — whatever is done to a scan between two steps preserves it.
-/

namespace PathExpansion

/-- A frame that has neither a directory open nor directories waiting. -/
def Frame.Bare (f : Frame) : Prop := f.cursor = none ∧ f.pending = none

/-- **A coherent frame** holds only what its phase has a use for; directories that wait can be
listed. -/
def Frame.Coherent (plan : Plan) (f : Frame) : Prop :=
  match f.phase with
  | .initial | .component | .finished => f.Bare
  | .listing => f.pending = none
  | .ellipsis =>
    match f.pending with
    | none => f.cursor = none
    | some queue => plan.order = .breadthFirst ∧ ∀ d ∈ queue, isEnterable d.1

/-- Frames that wait are coherent, and none of them is finished. -/
def Frame.AllCoherent (plan : Plan) (fs : List Frame) : Prop :=
  ∀ f ∈ fs, f.Coherent plan ∧ f.phase ≠ .finished

/-- **A coherent scan**: all frames are, and none waits behind a frame that is finished. -/
structure Scan.Coherent (plan : Plan) (s : Scan) : Prop where
  frame : s.frame.Coherent plan
  stack : Frame.AllCoherent plan s.stack
  finished : s.frame.phase = .finished → s.stack = []

namespace Frame

variable {plan : Plan} {f : Frame} {fs : List Frame}

lemma AllCoherent.cons (h : AllCoherent plan fs) (hf : f.Coherent plan)
    (hphase : f.phase ≠ .finished) : AllCoherent plan (f :: fs) :=
  List.forall_mem_cons.mpr ⟨⟨hf, hphase⟩, h⟩

lemma AllCoherent.append {fs' : List Frame} (h : AllCoherent plan fs)
    (h' : AllCoherent plan fs') : AllCoherent plan (fs ++ fs') :=
  List.forall_mem_append.mpr ⟨h, h'⟩

lemma coherent_initial (root : Root) : (initial root).Coherent plan := ⟨rfl, rfl⟩

lemma coherent_of_component (hphase : f.phase = .component) (hbare : f.Bare) :
    f.Coherent plan := by
  unfold Coherent
  rw [hphase]
  exact hbare

lemma coherent_of_listing (hphase : f.phase = .listing) (hpending : f.pending = none) :
    f.Coherent plan := by
  unfold Coherent
  rw [hphase]
  exact hpending

lemma coherent_of_queue {queue : List (String × Visited)} (hphase : f.phase = .ellipsis)
    (hpending : f.pending = some queue) (horder : plan.order = .breadthFirst)
    (henter : ∀ d ∈ queue, isEnterable d.1) : f.Coherent plan := by
  unfold Coherent
  rw [hphase, hpending]
  exact ⟨horder, henter⟩

lemma Coherent.bare_of_initial (h : f.Coherent plan) (hphase : f.phase = .initial) : f.Bare := by
  unfold Coherent at h
  rw [hphase] at h
  exact h

lemma Coherent.bare_of_component (h : f.Coherent plan) (hphase : f.phase = .component) :
    f.Bare := by
  unfold Coherent at h
  rw [hphase] at h
  exact h

lemma Coherent.pending_of_listing (h : f.Coherent plan) (hphase : f.phase = .listing) :
    f.pending = none := by
  unfold Coherent at h
  rw [hphase] at h
  exact h

lemma Coherent.cursor_of_ellipsis (h : f.Coherent plan) (hphase : f.phase = .ellipsis)
    (hpending : f.pending = none) : f.cursor = none := by
  unfold Coherent at h
  rw [hphase, hpending] at h
  exact h

lemma Coherent.queue_of_ellipsis {queue : List (String × Visited)} (h : f.Coherent plan)
    (hphase : f.phase = .ellipsis) (hpending : f.pending = some queue) :
    plan.order = .breadthFirst ∧ ∀ d ∈ queue, isEnterable d.1 := by
  unfold Coherent at h
  rw [hphase, hpending] at h
  exact h

end Frame

namespace Scan

open PathExpansion.Frame

variable {r : Reader} {plan : Plan} {s : Scan}

lemma isFinished_iff : s.isFinished ↔ s.frame.phase = .finished ∧ s.stack = [] := by
  simp [isFinished]

/-! ## Frames that come and go -/

lemma coherent_of_component (hphase : s.frame.phase = .component) (hbare : s.frame.Bare)
    (hstack : AllCoherent plan s.stack) : s.Coherent plan :=
  ⟨Frame.coherent_of_component hphase hbare, hstack, fun h => by rw [hphase] at h; cases h⟩

lemma coherent_of_listing (hphase : s.frame.phase = .listing) (hpending : s.frame.pending = none)
    (hstack : AllCoherent plan s.stack) : s.Coherent plan :=
  ⟨Frame.coherent_of_listing hphase hpending, hstack, fun h => by rw [hphase] at h; cases h⟩

lemma coherent_of_queue {queue : List (String × Visited)} (hphase : s.frame.phase = .ellipsis)
    (hpending : s.frame.pending = some queue) (horder : plan.order = .breadthFirst)
    (henter : ∀ d ∈ queue, isEnterable d.1) (hstack : AllCoherent plan s.stack) :
    s.Coherent plan :=
  ⟨Frame.coherent_of_queue hphase hpending horder henter, hstack,
    fun h => by rw [hphase] at h; cases h⟩

/-- Coherence is about frames only. -/
lemma Coherent.congr {s' : Scan} (h : s.Coherent plan) (hframe : s'.frame = s.frame)
    (hstack : s'.stack = s.stack) : s'.Coherent plan :=
  ⟨by rw [hframe]; exact h.frame, by rw [hstack]; exact h.stack,
    by rw [hframe, hstack]; exact h.finished⟩

lemma coherent_pop (h : AllCoherent plan s.stack) : s.pop.Coherent plan := by
  unfold pop
  cases hs : s.stack with
  | nil => exact ⟨⟨rfl, rfl⟩, fun _ hf => absurd hf List.not_mem_nil, fun _ => rfl⟩
  | cons f fs =>
    rw [hs] at h
    obtain ⟨⟨hf, hphase⟩, hfs⟩ := List.forall_mem_cons.mp h
    exact ⟨hf, hfs, fun hfinished => absurd hfinished hphase⟩

/-! ## What is done between steps -/

lemma coherent_close (s : Scan) : s.close.Coherent plan :=
  ⟨⟨rfl, rfl⟩, fun _ hf => absurd hf List.not_mem_nil, fun _ => rfl⟩

lemma coherent_start (s : Scan) (spec : PathSpec) : (s.start spec).Coherent plan :=
  ⟨⟨rfl, rfl⟩, fun _ hf => absurd hf List.not_mem_nil, fun h => by cases h⟩

lemma Coherent.append (h : s.Coherent plan) (spec : PathSpec) :
    (s.append spec).Coherent plan := by
  have hnew : AllCoherent plan [Frame.initial (.queued spec)] :=
    List.forall_mem_singleton.mpr ⟨Frame.coherent_initial _, by simp [Frame.initial]⟩
  unfold Scan.append
  simp only
  split
  · exact coherent_pop (h.stack.append hnew)
  · next hphase => exact ⟨h.frame, h.stack.append hnew, fun hf => absurd hf hphase⟩

lemma Coherent.prepend (h : s.Coherent plan) (spec : PathSpec) :
    (s.prepend spec).Coherent plan := by
  unfold Scan.prepend
  refine ⟨Frame.coherent_initial _, ?_, fun hf => by cases hf⟩
  simp only
  split
  · exact h.stack
  · next hphase => exact h.stack.cons h.frame hphase

lemma Coherent.setMatcher (h : s.Coherent plan) (matcher : Pattern) :
    (s.setMatcher matcher).Coherent plan := h.congr rfl rfl

end Scan

end PathExpansion
