import PathExpansion.Proofs.Depth
import PathExpansion.Proofs.Following

/-!
# Nothing is entered twice where there are no links

If links are followed, a scan remembers which directories it has entered on the way, and does not go
down into one of them again.  In a tree without links it need not remember anything: what it has
entered is above where it stands, as long as no part `..` has taken it up again, and no entry of a
directory is above it.  So a step is the same if links are not followed and nothing is remembered,
whatever fails, however names are ordered and wherever the policy stops.

* `Scan.unfollowing` — a scan that follows no links and remembers nothing.
* `Tree.Holds` — what has been entered is above a path that may be entered.
* `Frame.IsStraight`, `Scan.IsStraight` — the invariant: this goes for all paths that a scan stands
  at or has waiting, and it has only names before it.
* `Scan.Agrees` — what comes of a scan, and what comes of it without following links.
* **`Scan.IsStraight.turn`** — a step preserves the invariant, and is the same without following
  links.
-/

namespace PathExpansion

/-! ## Without following links -/

/-- The same specification without following links. -/
def PathSpec.unfollowing (spec : PathSpec) : PathSpec := { spec with follow := false }

/-- The same root without following links. -/
def Root.unfollowing : Root → Root
  | .construction => .construction
  | .queued spec => .queued spec.unfollowing

/-- The same frame with nothing entered. -/
def Frame.unfollowing (f : Frame) : Frame :=
  { f with
    root := f.root.unfollowing
    visited := []
    pending := f.pending.map (·.map fun d => (d.1, [])) }

/-- An entry of the log with such frames. -/
def Event.unfollowing : Event → Event
  | .saved f => .saved f.unfollowing
  | .resumed f => .resumed f.unfollowing
  | e => e

/-- **The same scan without following links**: nothing has been entered on the way. -/
def Scan.unfollowing (s : Scan) : Scan :=
  { s with
    frame := s.frame.unfollowing
    stack := s.stack.map (·.unfollowing)
    base := s.base.map (·.unfollowing)
    events := s.events.map (·.unfollowing) }

lemma levelFrame_unfollowing (f : Frame) :
    Scan.levelFrame f.unfollowing = (Scan.levelFrame f).unfollowing := by
  rw [Scan.levelFrame, Scan.levelFrame, Frame.unfollowing, Frame.unfollowing]
  cases isEnterable f.path <;> rfl

namespace Scan

@[simp] lemma unfollowing_path (s : Scan) : s.unfollowing.frame.path = s.frame.path := rfl

@[simp] lemma unfollowing_remaining (s : Scan) :
    s.unfollowing.frame.remaining = s.frame.remaining := rfl

@[simp] lemma unfollowing_phase (s : Scan) : s.unfollowing.frame.phase = s.frame.phase := rfl

@[simp] lemma unfollowing_cursor (s : Scan) : s.unfollowing.frame.cursor = s.frame.cursor := rfl

@[simp] lemma unfollowing_pending (s : Scan) :
    s.unfollowing.frame.pending = s.frame.pending.map (·.map fun d => (d.1, [])) := rfl

lemma unfollowing_specOf (s : Scan) (root : Root) :
    s.unfollowing.specOf root.unfollowing = (s.specOf root).unfollowing := by
  rw [specOf.eq_def, specOf.eq_def, unfollowing]
  cases root with
  | queued spec => rfl
  | construction => cases s.base <;> rfl

lemma unfollowing_spec (s : Scan) : s.unfollowing.spec = s.spec.unfollowing :=
  s.unfollowing_specOf s.frame.root

end Scan

/-! ## What has been entered -/

/-- **What has been entered is above**, if a path may be entered. -/
def Tree.Holds (t : Tree) (path : String) (visited : Visited) : Prop :=
  isEnterable path → ∃ p, t.LeadsTo path p ∧ Trip.IsAbove visited p

/-- A component that does not lead up.  One that goes down an ellipsis does not stay where it is,
either. -/
def Component.IsStraight : Component → Prop
  | .literal name descent => IsName name ∧ name ≠ ".." ∧ (descent = true → name ≠ ".")
  | _ => True

/-- An entry of a directory leads down. -/
lemma Component.isStraight_of_entry {name : String} (h : Tree.IsEntryName name) (descent : Bool) :
    (Component.literal name descent).IsStraight := by
  have hdots : name ≠ "." ∧ name ≠ ".." := by simpa [isDotName] using h.noDot
  exact ⟨h.isName, hdots.2, fun _ => hdots.1⟩

/-- A path with no part that leads up. -/
def PathSpec.IsStraight (spec : PathSpec) : Prop := ∀ c ∈ spec.components, c.IsStraight

/-- **A frame that goes straight down**: what has been entered on the way to it is above it, the
same goes for each directory that it has waiting, and it has only names before it. -/
structure Frame.IsStraight (t : Tree) (f : Frame) : Prop where
  root : ∀ spec, f.root = .queued spec → spec.IsStraight
  holds : t.Holds f.path f.visited
  components : ∀ c ∈ f.remaining, c.IsStraight
  inside : needsDirectory f.remaining → isEnterable f.path
  opened : ∀ c, f.cursor = some c → isEnterable f.path ∧ ∀ name ∈ c.unread, IsName name
  pending : ∀ queue, f.pending = some queue → ∀ d ∈ queue, isEnterable d.1 ∧ t.Holds d.1 d.2

/-- **A scan that goes straight down**: every frame does. -/
structure Scan.IsStraight (t : Tree) (s : Scan) : Prop where
  base : ∀ spec, s.base = some spec → spec.IsStraight
  frame : s.frame.IsStraight t
  stack : ∀ f ∈ s.stack, f.IsStraight t

namespace Tree

variable {t : Tree} {d : Disturbance} {path name : String} {visited : Visited}

lemma holds_root (t : Tree) (spec : PathSpec) : t.Holds spec.rootPath [] := fun _ =>
  ⟨[], t.leadsTo_root spec, fun _ hi => absurd hi List.not_mem_nil⟩

/-- What cannot be entered holds anything. -/
lemma holds_leaf (h : isEnterable path = false) (visited : Visited) : t.Holds path visited := by
  intro henter
  rw [h] at henter
  cases henter

/-- **One name further** it still holds, and the entry has not been entered before. -/
lemma Holds.step (h : t.Holds path visited) (henter : isEnterable path) (ht : t.IsPlain)
    (hname : IsName name) (hup : name ≠ "..") (hdir : (t.reader d).isDirectory (path ++ name)) :
    t.Holds (path ++ name ++ "/") visited ∧
      t.Holds (path ++ name ++ "/") (visited.insert ((t.reader d).identity (path ++ name))) ∧
      (name ≠ "." → (t.reader d).identity (path ++ name) ∉ visited) := by
  obtain ⟨p, hp, habove⟩ := h henter
  obtain ⟨p', hresolve, hp', hbelow, hentry⟩ := hp.exists_directory ht hname hdir
  have hidentity : (t.reader d).identity (path ++ name) = .place p' := by
    simp only [reader, hresolve]
  have habove' : Trip.IsAbove visited p' := fun i hi =>
    (habove i hi).imp fun q h => ⟨h.1, h.2.trans (hbelow hup)⟩
  rw [hidentity]
  refine ⟨fun _ => ⟨p', hp', habove'⟩, fun _ => ⟨p', hp', habove'.insert⟩, fun hdot => ?_⟩
  rw [hentry (by simp [isDotName, hdot, hup])]
  exact habove.not_mem name

/-- The directory itself may be noted. -/
lemma Holds.insert (h : t.Holds path visited) (henter : isEnterable path) :
    t.Holds path (visited.insert ((t.reader d).identity (orDot path))) := by
  obtain ⟨p, hp, habove⟩ := h henter
  rw [hp.identity_eq d]
  exact fun _ => ⟨p, hp, habove.insert⟩

end Tree

/-- A frame with no directory open and none waiting goes straight down from where it is. -/
lemma Frame.isStraight_of_bare {t : Tree} {f : Frame} (hbare : f.Bare)
    (hroot : ∀ spec, f.root = .queued spec → spec.IsStraight) (hholds : t.Holds f.path f.visited)
    (hcomponents : ∀ c ∈ f.remaining, c.IsStraight)
    (hinside : needsDirectory f.remaining → isEnterable f.path) : f.IsStraight t := by
  refine ⟨hroot, hholds, hcomponents, hinside, fun c hc => ?_, fun queue hqueue => ?_⟩
  · rw [hbare.1] at hc
    cases hc
  · rw [hbare.2] at hqueue
    cases hqueue

/-- So does a frame that has nothing to go through yet. -/
lemma Frame.isStraight_of_empty (t : Tree) (phase : Phase) {root : Root}
    (hroot : ∀ spec, root = .queued spec → spec.IsStraight) :
    (⟨phase, root, [], "", none, none, [], none⟩ : Frame).IsStraight t :=
  isStraight_of_bare ⟨rfl, rfl⟩ hroot (t.holds_root ⟨[], ⟨"", .empty, 0, []⟩, false, false⟩)
    (List.forall_mem_nil _) fun hinside => by cases hinside

/-- So does one that belongs to the construction. -/
lemma Frame.isStraight_construction (t : Tree) (phase : Phase) :
    (⟨phase, .construction, [], "", none, none, [], none⟩ : Frame).IsStraight t :=
  isStraight_of_empty t phase fun _ h => by cases h

namespace Scan

variable {t : Tree} {d : Disturbance} {plan : Plan} {s : Scan}

/-! ## Frames that come and go -/

/-- **What comes of a scan that goes straight down**: another one, and without following links it
comes to the same. -/
structure Agrees {α : Type} (t : Tree) (x y : Scan × α) : Prop where
  straight : x.1.IsStraight t
  eq : y = (x.1.unfollowing, x.2)

/-- A scan in another state of its frame. -/
lemma IsStraight.withFrame (h : s.IsStraight t) {f : Frame} (hf : f.IsStraight t) :
    ({ s with frame := f } : Scan).IsStraight t := ⟨h.base, hf, h.stack⟩

lemma IsStraight.push (h : s.IsStraight t) : s.push.IsStraight t :=
  ⟨h.base, Frame.isStraight_of_bare ⟨rfl, rfl⟩ h.frame.root h.frame.holds h.frame.components
    h.frame.inside, List.forall_mem_cons.mpr ⟨h.frame, h.stack⟩⟩

lemma unfollowing_pop (s : Scan) : s.unfollowing.pop = s.pop.unfollowing := by
  rw [pop, pop, unfollowing]
  cases s.stack <;> rfl

/-- Going back to what waits; the frame that is dropped does not matter. -/
lemma isStraight_pop (hbase : ∀ spec, s.base = some spec → spec.IsStraight)
    (hstack : ∀ f ∈ s.stack, f.IsStraight t) : s.pop.IsStraight t := by
  rw [pop]
  cases hs : s.stack with
  | nil => exact ⟨hbase, Frame.isStraight_construction t _, List.forall_mem_nil _⟩
  | cons f fs =>
    rw [hs, List.forall_mem_cons] at hstack
    exact ⟨hbase, hstack.1, hstack.2⟩

lemma IsStraight.popped (h : s.IsStraight t) :
    Agrees t (s.pop, Signal.running) (s.unfollowing.pop, Signal.running) :=
  ⟨isStraight_pop h.base h.stack, by rw [unfollowing_pop]⟩

lemma IsStraight.report (h : s.IsStraight t) (fault : Fault) (operation path : String) :
    Agrees t (s.report fault operation path) (s.unfollowing.report fault operation path) := by
  rw [Scan.report, Scan.report]
  have hpolicy : s.unfollowing.policy = s.policy := rfl
  simp only [hpolicy]
  cases (s.policy.handle ⟨orDot path, operation, fault⟩).stop <;>
    cases (s.policy.handle ⟨orDot path, operation, fault⟩).warning <;>
    exact ⟨⟨h.base, h.frame, h.stack⟩, rfl⟩

/-- Going on unless something has come of it. -/
lemma Agrees.andThen {x y : Turn} (h : Agrees t x y) {next next' : Scan → Turn}
    (hnext : ∀ s : Scan, s.IsStraight t → Agrees t (next s) (next' s.unfollowing)) :
    Agrees t (Turn.andThen x next) (Turn.andThen y next') := by
  obtain ⟨s, signal⟩ := x
  obtain ⟨hs, rfl⟩ := h
  rw [Turn.andThen, Turn.andThen]
  cases signal with
  | running => exact hnext s hs
  | answered answer => exact ⟨hs, rfl⟩
  | raised error => exact ⟨hs, rfl⟩

/-! ## One component -/

section

variable (ht : t.IsPlain)

include ht

/-- **Going down by a name** leads to the same path. -/
lemma IsStraight.extend (h : s.IsStraight t) (henter : isEnterable s.frame.path) {name : String}
    {descent : Bool} (hname : (Component.literal name descent).IsStraight) :
    ∃ es q, s.extend (t.reader d) plan name descent = ({ s with events := es }, q) ∧
      s.unfollowing.extend (t.reader d) plan name descent
        = (({ s with events := es } : Scan).unfollowing, q.map fun p => (p.1, [])) ∧
      ∀ p ∈ q, t.Holds p.1 p.2 := by
  obtain ⟨hproper, hup, hdown⟩ := hname
  have hspec : s.unfollowing.spec.follow = false := by rw [unfollowing_spec]; rfl
  have hlink : (t.reader d).isLink (s.frame.path ++ name) = false := ht.isLinkPath_eq _
  have hleaf : t.Holds (s.frame.path ++ name) s.frame.visited :=
    Tree.holds_leaf (isEnterable_append hproper) _
  rw [Scan.extend, Scan.extend, unfollowing_path, hspec]
  by_cases hexcluded : plan.exclude.any (·.finds (s.frame.path ++ name)) = true
  · simp only [hexcluded, if_true]
    exact ⟨_, none, rfl, rfl, fun _ h => by cases h⟩
  · cases hdir : (t.reader d).isDirectory (s.frame.path ++ name) with
    | false =>
      simp only [hexcluded, Bool.false_eq_true, if_false, Bool.not_false, if_true]
      refine ⟨s.events, some (_, _), rfl, rfl, ?_⟩
      rintro p ⟨⟩
      exact hleaf
    | true =>
      -- nothing is held back: the directory has not been entered, and it is no link
      obtain ⟨hkept, hinserted, hnew⟩ := h.frame.holds.step henter ht hproper hup hdir
      simp only [hexcluded, Bool.false_eq_true, if_false, Bool.not_true]
      cases descent with
      | false =>
        refine ⟨s.events, some (_, _), rfl, rfl, ?_⟩
        rintro p ⟨⟩
        exact hkept
      | true =>
        have hmet : s.frame.visited.contains
            ((t.reader d).identity (s.frame.path ++ name)) = false := by
          simpa using hnew (hdown rfl)
        simp only [hmet, hlink, Bool.not_true, Bool.false_eq_true, if_false]
        cases s.spec.follow with
        | false =>
          refine ⟨s.events, some (_, _), rfl, rfl, ?_⟩
          rintro p ⟨⟩
          exact hkept
        | true =>
          refine ⟨s.events, some (_, _), rfl, rfl, ?_⟩
          rintro p ⟨⟩
          exact hinserted

lemma IsStraight.literal (h : s.IsStraight t) (hcursor : s.frame.cursor = none)
    (hpending : s.frame.pending = none) (henter : isEnterable s.frame.path) {name : String}
    {descent : Bool} (hname : (Component.literal name descent).IsStraight) :
    Agrees t (s.literal (t.reader d) plan name descent)
      (s.unfollowing.literal (t.reader d) plan name descent) := by
  obtain ⟨es, q, hq, hq', hholds⟩ := h.extend ht henter hname
  have hs' : ({ s with events := es } : Scan).IsStraight t := ⟨h.base, h.frame, h.stack⟩
  rw [Scan.literal, Scan.literal, hq, hq']
  cases q with
  | none => exact hs'.popped
  | some p =>
    obtain ⟨path, visited⟩ := p
    simp only [Option.map_some, unfollowing_remaining]
    by_cases hleaf : (!isEnterable path && needsDirectory s.frame.remaining) = true
    · simp only [hleaf, if_true]
      exact ⟨isStraight_pop h.base h.stack, congrArg (·, Signal.running) (unfollowing_pop _)⟩
    · simp only [hleaf]
      refine ⟨hs'.withFrame ⟨h.frame.root, hholds _ rfl, h.frame.components, fun hdeep => ?_,
        ?_, ?_⟩, rfl⟩
      · simpa [hdeep] using hleaf
      · simp [hcursor]
      · simp [hpending]

end

/-- Listing a directory has nothing to do with what was entered. -/
lemma unfollowing_openCursor (s : Scan) (r : Reader) (plan : Plan) (directory : String) :
    s.unfollowing.openCursor r plan directory
      = ((s.openCursor r plan directory).1.unfollowing, (s.openCursor r plan directory).2) := by
  rw [Scan.openCursor, Scan.openCursor]
  cases r.openDirectory (orDot directory) with
  | error fault => rfl
  | ok listing =>
    cases plan.sorting.isEager with
    | false => rfl
    | true =>
      simp only [if_true, sortCursor_eq]
      rfl

lemma IsStraight.openCursor {r : Reader} (hr : r.ListsNames) (h : s.IsStraight t)
    (directory : String) :
    ∃ s' q, s.openCursor r plan directory = (s', q) ∧
      s.unfollowing.openCursor r plan directory = (s'.unfollowing, q) ∧
      s'.IsStraight t ∧ s'.frame = s.frame ∧
      ∀ c, q = .ok c → ∀ name ∈ c.unread, IsName name := by
  rcases hopen : s.openCursor r plan directory with ⟨s', q⟩
  have hnames : ∀ c, q = .ok c → ∀ name ∈ c.unread, IsName name := by
    rintro c rfl
    exact names_of_openCursor hr hopen
  have heq := s.unfollowing_openCursor r plan directory
  rw [hopen] at heq
  obtain ⟨_, _, _, rfl⟩ := scan_of_openCursor hopen
  exact ⟨_, q, rfl, heq, ⟨h.base, h.frame, h.stack⟩, rfl, hnames⟩

section

variable (ht : t.IsPlain)

include ht

lemma IsStraight.openWildcard (h : s.IsStraight t) (henter : isEnterable s.frame.path)
    (w : Wildcard) :
    Agrees t (s.openWildcard (t.reader d) plan w)
      (s.unfollowing.openWildcard (t.reader d) plan w) := by
  have hr : (t.reader d).ListsNames := (Tree.reader_isFinite ht.isNamed d).listsNames
  obtain ⟨s', q, hopen, hopen', hs', hframe, hnames⟩ := h.openCursor hr s.frame.path
  rw [Scan.openWildcard, Scan.openWildcard, unfollowing_path, hopen, hopen']
  cases q with
  | ok cursor =>
    refine ⟨hs'.withFrame ⟨hs'.frame.root, hs'.frame.holds, hs'.frame.components,
      hs'.frame.inside, ?_, hs'.frame.pending⟩, rfl⟩
    rintro c ⟨⟩
    rw [hframe]
    exact ⟨henter, hnames cursor rfl⟩
  | error fault =>
    simp only
    split_ifs
    · rw [unfollowing_pop]
      exact (isStraight_pop hs'.base hs'.stack).report fault _ _
    · exact ⟨hs', rfl⟩

end

lemma IsStraight.expand (h : s.IsStraight t) :
    Agrees t (s.expand plan) (s.unfollowing.expand plan) := by
  rw [Scan.expand, Scan.expand, unfollowing_path]
  split_ifs with henter
  · refine ⟨h.withFrame ⟨h.frame.root, h.frame.holds, ?_, fun _ => henter, h.frame.opened,
      h.frame.pending⟩, rfl⟩
    simpa [Component.IsStraight] using h.frame.components
  · exact h.popped

lemma IsStraight.noteEntered (h : s.IsStraight t) :
    (s.noteEntered (t.reader d)).IsStraight t ∧
      s.unfollowing.noteEntered (t.reader d) = (s.noteEntered (t.reader d)).unfollowing := by
  have hnone : s.unfollowing.noteEntered (t.reader d) = s.unfollowing := by
    rw [Scan.noteEntered, unfollowing_spec]
    rfl
  rw [hnone, Scan.noteEntered]
  split_ifs with hnote
  · rw [Bool.and_eq_true] at hnote
    exact ⟨h.withFrame ⟨h.frame.root, h.frame.holds.insert hnote.2, h.frame.components,
      h.frame.inside, h.frame.opened, h.frame.pending⟩, rfl⟩
  · exact ⟨h, rfl⟩

lemma IsStraight.enterEllipsis (h : s.IsStraight t) :
    Agrees t (s.enterEllipsis (t.reader d) plan)
      (s.unfollowing.enterEllipsis (t.reader d) plan) := by
  obtain ⟨hs', heq⟩ := h.noteEntered (d := d)
  rw [Scan.enterEllipsis, Scan.enterEllipsis, heq]
  set s' := s.noteEntered (t.reader d)
  obtain ⟨hroot, hholds, hcomponents, hinside, hopened, hpending⟩ := hs'.frame
  cases plan.order with
  | normal =>
    exact ⟨⟨hs'.base, Frame.isStraight_of_bare ⟨rfl, rfl⟩ hroot hholds hcomponents hinside,
      List.forall_mem_cons.mpr
      ⟨⟨hroot, hholds, hcomponents, hinside, hopened, hpending⟩, hs'.stack⟩⟩, rfl⟩
  | insideOut => exact hs'.push.expand
  | breadthFirst =>
    have hlevel : (s'.save (levelFrame s'.frame)).IsStraight t := by
      refine ⟨hs'.base, hs'.frame, List.forall_mem_cons.mpr
        ⟨⟨hroot, hholds, hcomponents, hinside, hopened, ?_⟩, hs'.stack⟩⟩
      rintro queue ⟨⟩ d hd
      split at hd
      · next henter =>
        rw [List.mem_singleton.mp hd]
        exact ⟨henter, hholds⟩
      · cases hd
    have hsave : s'.unfollowing.save (levelFrame s'.unfollowing.frame)
        = (s'.save (levelFrame s'.frame)).unfollowing := by
      rw [show s'.unfollowing.frame = s'.frame.unfollowing from rfl, levelFrame_unfollowing]
      rfl
    simp only [hsave, unfollowing_remaining]
    split_ifs
    · exact hlevel.popped
    · exact ⟨hlevel, rfl⟩

/-- Results have nothing to do with what was entered. -/
lemma unfollowing_answerFor (s : Scan) (plan : Plan) (path : String) (spec : PathSpec) :
    s.unfollowing.answerFor plan path spec.unfollowing
      = ((s.answerFor plan path spec).1.unfollowing, (s.answerFor plan path spec).2) := by
  have hmatcher : (s.unfollowing.base.getD spec.unfollowing).matcher
      = (s.base.getD spec).matcher := by
    rw [unfollowing]
    cases s.base <;> rfl
  rw [answerFor, answerFor, hmatcher]
  cases plan.templates <;> rfl

lemma IsStraight.arrive (h : s.IsStraight t) (r : Reader) :
    Agrees t (s.arrive r plan) (s.unfollowing.arrive r plan) := by
  obtain ⟨fitting, harrive⟩ := s.arrive_eq r plan
  have hpop := isStraight_pop h.base h.stack
  refine ⟨?_, ?_⟩
  · rw [harrive]
    exact ⟨hpop.base, hpop.frame, hpop.stack⟩
  · have hmatcher : s.spec.unfollowing.matcher = s.spec.matcher := rfl
    rw [Scan.arrive, Scan.arrive, unfollowing_spec, unfollowing_pop, unfollowing_path, hmatcher]
    simp only [unfollowing_answerFor]
    split_ifs
    · rcases s.pop.answerFor plan s.frame.path s.spec with ⟨s', answer | e⟩ <;> rfl
    · rfl

section

variable (ht : t.IsPlain)

include ht

lemma IsStraight.component (h : s.IsStraight t) (hbare : s.frame.Bare) :
    Agrees t (s.component (t.reader d) plan) (s.unfollowing.component (t.reader d) plan) := by
  have hinside := h.frame.inside
  have hcomponents := h.frame.components
  rw [Scan.component, Scan.component, unfollowing_remaining]
  cases hremaining : s.frame.remaining with
  | nil => exact h.arrive _
  | cons c rest =>
    rw [hremaining, List.forall_mem_cons] at hcomponents
    rw [hremaining, needsDirectory, List.any_cons, Bool.or_eq_true] at hinside
    have hs' : ({ s with frame := { s.frame with remaining := rest } } : Scan).IsStraight t :=
      h.withFrame ⟨h.frame.root, h.frame.holds, hcomponents.2, fun hdeep => hinside (Or.inr hdeep),
        h.frame.opened, h.frame.pending⟩
    cases c with
    | literal name descent =>
      exact hs'.literal ht hbare.1 hbare.2 (hinside (Or.inl rfl)) hcomponents.1
    | wildcard w => exact hs'.openWildcard ht (hinside (Or.inl rfl)) w
    | ellipsis => exact hs'.enterEllipsis

end

/-! ## Listings -/

lemma IsStraight.withUnread (h : s.IsStraight t) {names : List String}
    (hnames : ∀ name ∈ names, IsName name) :
    ({ s with frame := s.frame.withUnread names } : Scan).IsStraight t := by
  refine h.withFrame ⟨h.frame.root, h.frame.holds, h.frame.components, h.frame.inside,
    fun c hc => ?_, h.frame.pending⟩
  obtain ⟨c', hc', rfl⟩ := Option.map_eq_some_iff.mp hc
  exact ⟨(h.frame.opened c' hc').1, hnames⟩

lemma IsStraight.endListing (h : s.IsStraight t) :
    Agrees t s.endListing s.unfollowing.endListing := by
  have hclosed : s.closeCursor.IsStraight t := by
    refine ⟨h.base, ⟨h.frame.root, h.frame.holds, h.frame.components, h.frame.inside, ?_,
      h.frame.pending⟩, h.stack⟩
    rintro _ ⟨⟩
  rw [Scan.endListing, Scan.endListing, unfollowing_cursor]
  cases s.frame.cursor.bind (·.fault) with
  | none => exact ⟨hclosed, rfl⟩
  | some fault => exact hclosed.report fault _ _

lemma IsStraight.listing (h : s.IsStraight t) : Agrees t s.listing s.unfollowing.listing := by
  have hwants : s.unfollowing.frame.wants = s.frame.wants := rfl
  rw [Scan.listing, Scan.listing, unfollowing_cursor, hwants]
  cases hcursor : s.frame.cursor with
  | none => exact h.popped
  | some c =>
    obtain ⟨henter, hunread⟩ := h.frame.opened c hcursor
    simp only
    cases hnames : c.unread.dropWhile (!s.frame.wants ·) with
    | nil =>
      exact (h.withUnread (List.forall_mem_nil _)).endListing.andThen fun s' hs' => hs'.popped
    | cons name rest =>
      have hsuffix : name :: rest <:+ c.unread := hnames ▸ List.dropWhile_suffix _
      have hwanted : s.frame.wants name = true := by
        have hfirst := List.head?_dropWhile_not (fun n => !s.frame.wants n) c.unread
        rw [hnames] at hfirst
        simpa using hfirst
      have hproper : isDotName name = false := by
        rw [Frame.wants, Bool.and_eq_true, Bool.not_eq_true'] at hwanted
        exact hwanted.1
      have hread := h.withUnread fun name hname =>
        hunread name (hsuffix.subset (List.mem_cons_of_mem _ hname))
      refine ⟨⟨h.base, Frame.isStraight_of_bare ⟨rfl, rfl⟩ h.frame.root h.frame.holds
        (List.forall_mem_cons.mpr ⟨?_, h.frame.components⟩) fun _ => henter,
        List.forall_mem_cons.mpr ⟨hread.frame, h.stack⟩⟩, rfl⟩
      exact Component.isStraight_of_entry
        ⟨hunread name (hsuffix.subset List.mem_cons_self), hproper⟩ _

/-! ## Level by level -/

/-- A directory may be put behind those that wait. -/
lemma IsStraight.queued (h : s.IsStraight t) {path : String} {visited : Visited}
    (henter : isEnterable path) (hholds : t.Holds path visited) :
    ({ s with frame := { s.frame with
      pending := s.frame.pending.map (· ++ [(path, visited)]) } } : Scan).IsStraight t := by
  refine h.withFrame ⟨h.frame.root, h.frame.holds, h.frame.components, h.frame.inside,
    h.frame.opened, ?_⟩
  intro queue hqueue d hd
  obtain ⟨old, hold, rfl⟩ := Option.map_eq_some_iff.mp hqueue
  obtain hd | hd := List.mem_append.mp hd
  · exact h.frame.pending old hold d hd
  · rw [List.mem_singleton.mp hd]
    exact ⟨henter, hholds⟩

lemma unfollowing_queued (s : Scan) (path : String) (visited : Visited) :
    { s.unfollowing with frame := { s.unfollowing.frame with
        pending := s.unfollowing.frame.pending.map (· ++ [(path, [])]) } }
      = ({ s with frame := { s.frame with
          pending := s.frame.pending.map (· ++ [(path, visited)]) } } : Scan).unfollowing := by
  have hqueue : s.unfollowing.frame.pending.map (· ++ [(path, [])])
      = (s.frame.pending.map (· ++ [(path, visited)])).map (·.map fun d => (d.1, [])) := by
    simp [Function.comp_def]
  rw [hqueue]
  rfl

section

variable (ht : t.IsPlain)

include ht

/-- **The next path of a level** is the same.  The induction is on the names: those that are passed
over leave the frame as it was, but for the names that are left. -/
lemma IsStraight.nextOfLevel (names : List String) (h : s.IsStraight t)
    (henter : isEnterable s.frame.path) (hnames : ∀ name ∈ names, IsName name) :
    ∃ s' q, nextOfLevel (t.reader d) plan names s = (s', q) ∧
      nextOfLevel (t.reader d) plan names s.unfollowing
        = (s'.unfollowing, q.map fun p => (p.1, [])) ∧
      s'.IsStraight t ∧
      ∀ p ∈ q, t.Holds p.1 p.2 ∧ (needsDirectory s'.frame.remaining → isEnterable p.1) := by
  induction names generalizing s with
  | nil =>
    exact ⟨_, none, rfl, rfl, h.withUnread (List.forall_mem_nil _), fun _ hp => by cases hp⟩
  | cons name rest ih =>
    rw [List.forall_mem_cons] at hnames
    have hread := h.withUnread hnames.2
    have hread' : ({ s.unfollowing with frame := s.unfollowing.frame.withUnread rest } : Scan)
        = ({ s with frame := s.frame.withUnread rest } : Scan).unfollowing := rfl
    rw [Scan.nextOfLevel, Scan.nextOfLevel, hread']
    by_cases hdot : isDotName name = true
    · simp only [hdot, if_true]
      exact ih hread henter hnames.2
    · simp only [hdot]
      have hentry : (Component.literal name true).IsStraight :=
        Component.isStraight_of_entry ⟨hnames.1, by simpa using hdot⟩ true
      obtain ⟨es, q, hq, hq', hholds⟩ := hread.extend ht henter hentry
      set s' : Scan := { s with frame := s.frame.withUnread rest, events := es } with hs'
      have hstraight : s'.IsStraight t := ⟨h.base, hread.frame, h.stack⟩
      rw [hq, hq']
      cases q with
      | none => exact ih hstraight henter hnames.2
      | some p =>
        obtain ⟨path, visited⟩ := p
        simp only [Option.map_some]
        by_cases hpath : isEnterable path = true
        · simp only [hpath, if_true]
          refine ⟨_, some (path, visited), rfl,
            congrArg (·, some (path, [])) (unfollowing_queued s' path visited),
            hstraight.queued hpath (hholds _ rfl), ?_⟩
          rintro p ⟨⟩
          exact ⟨hholds _ rfl, fun _ => hpath⟩
        · simp only [hpath, unfollowing_remaining]
          by_cases hdeep : needsDirectory s'.frame.remaining = true
          · simp only [hdeep]
            exact ih hstraight henter hnames.2
          · simp only [hdeep]
            refine ⟨_, some (path, visited), rfl, rfl, hstraight, ?_⟩
            rintro p ⟨⟩
            exact ⟨hholds _ rfl, fun h => absurd h hdeep⟩

lemma IsStraight.searchListing {next next' : Scan → Turn} (h : s.IsStraight t)
    (henter : isEnterable s.frame.path) {unread : List String}
    (hnames : ∀ name ∈ unread, IsName name)
    (hnext : ∀ s : Scan, s.IsStraight t → Agrees t (next s) (next' s.unfollowing)) :
    Agrees t (s.searchListing (t.reader d) plan unread next)
      (s.unfollowing.searchListing (t.reader d) plan unread next') := by
  obtain ⟨s', q, hlevel, hlevel', hs', hq⟩ := h.nextOfLevel ht unread henter hnames
  rw [Scan.searchListing, Scan.searchListing, hlevel, hlevel']
  cases q with
  | none => exact hs'.endListing.andThen hnext
  | some p =>
    obtain ⟨hholds, hinside⟩ := hq p rfl
    exact ⟨⟨hs'.base, Frame.isStraight_of_bare ⟨rfl, rfl⟩ hs'.frame.root hholds hs'.frame.components
      hinside, List.forall_mem_cons.mpr ⟨hs'.frame, hs'.stack⟩⟩, rfl⟩

/-- The induction is on the queue: a directory that cannot be listed, or has nothing more to give,
leaves the others to be listed. -/
lemma IsStraight.searchQueue (queue : List (String × Visited)) (h : s.IsStraight t)
    (hqueue : ∀ d ∈ queue, isEnterable d.1 ∧ t.Holds d.1 d.2) :
    Agrees t (searchQueue (t.reader d) plan queue s)
      (searchQueue (t.reader d) plan (queue.map fun d => (d.1, [])) s.unfollowing) := by
  induction queue generalizing s with
  | nil => exact h.popped
  | cons first rest ih =>
    obtain ⟨path, visited⟩ := first
    rw [List.forall_mem_cons] at hqueue
    obtain ⟨⟨henter, hholds⟩, hrest⟩ := hqueue
    have hr : (t.reader d).ListsNames := (Tree.reader_isFinite ht.isNamed d).listsNames
    set s' : Scan := { s with frame :=
      { s.frame with path := path, visited := visited, pending := some rest } } with hs'
    have hstraight : s'.IsStraight t := by
      refine h.withFrame ⟨h.frame.root, hholds, h.frame.components, fun _ => henter,
        fun c hc => ?_, ?_⟩
      · exact ⟨henter, (h.frame.opened c hc).2⟩
      · rintro _ ⟨⟩
        exact hrest
    obtain ⟨s₁, q, hopen, hopen', hs₁, hframe, hnames⟩ := hstraight.openCursor hr path
    have hunfollowing : { s.unfollowing with frame := { s.unfollowing.frame with
          path := path, visited := [], pending := some (rest.map fun d => (d.1, [])) } }
        = s'.unfollowing := rfl
    rw [List.map_cons, Scan.searchQueue, Scan.searchQueue, hopen, hunfollowing,
      hopen']
    cases q with
    | error fault =>
      refine Agrees.andThen ?_ fun s₂ hs₂ => ih hs₂ hrest
      rw [Scan.reportOpen, Scan.reportOpen]
      split_ifs
      · exact hs₁.report fault _ _
      · exact ⟨hs₁, rfl⟩
    | ok cursor =>
      have hcursor : ∀ name ∈ cursor.unread, IsName name := hnames cursor rfl
      have henter₁ : isEnterable s₁.frame.path := by
        rw [hframe]
        exact henter
      have hs₂ :
          ({ s₁ with frame := { s₁.frame with cursor := some cursor } } : Scan).IsStraight t := by
        refine hs₁.withFrame ⟨hs₁.frame.root, hs₁.frame.holds, hs₁.frame.components,
          hs₁.frame.inside, ?_, hs₁.frame.pending⟩
        rintro c ⟨⟩
        exact ⟨henter₁, hcursor⟩
      exact hs₂.searchListing ht henter₁ hcursor fun s₃ hs₃ => ih hs₃ hrest

lemma IsStraight.ellipsis (h : s.IsStraight t) :
    Agrees t (s.ellipsis (t.reader d) plan) (s.unfollowing.ellipsis (t.reader d) plan) := by
  rw [Scan.ellipsis, Scan.ellipsis, unfollowing_pending]
  cases hpending : s.frame.pending with
  | none => exact h.expand
  | some queue =>
    have hqueue := h.frame.pending queue hpending
    simp only [Option.map_some]
    rw [Scan.level, Scan.level, unfollowing_cursor]
    cases hcursor : s.frame.cursor with
    | none => exact h.searchQueue ht queue hqueue
    | some cursor =>
      obtain ⟨henter, hnames⟩ := h.frame.opened cursor hcursor
      exact h.searchListing ht henter hnames fun s' hs' => hs'.searchQueue ht queue hqueue

/-! ## A step -/

omit ht in
lemma IsStraight.begin (h : s.IsStraight t) (hbare : s.frame.Bare) :
    Agrees t s.begin s.unfollowing.begin := by
  have hspec : s.spec.IsStraight := by
    rw [spec, specOf.eq_def]
    cases hroot : s.frame.root with
    | queued spec => exact h.frame.root spec hroot
    | construction =>
      cases hbase : s.base with
      | none => exact List.forall_mem_nil _
      | some spec => exact h.base spec hbase
  rw [Scan.begin, Scan.begin, unfollowing_spec]
  refine ⟨h.withFrame ⟨h.frame.root, t.holds_root _, hspec, fun _ => s.spec.isEnterable_rootPath,
    ?_, ?_⟩, rfl⟩
  · simp [hbare.1]
  · simp [hbare.2]

/-- **A step goes straight down** and is the same without following links. -/
theorem IsStraight.turn (h : s.IsStraight t) (hs : s.Coherent plan) :
    Agrees t (s.turn (t.reader d) plan) (s.unfollowing.turn (t.reader d) plan) := by
  set s₁ := s.emit (.entered s.frame.phase) with hs₁
  have hstraight : s₁.IsStraight t := ⟨h.base, h.frame, h.stack⟩
  have hcoherent : s₁.frame.Coherent plan := hs.frame
  have hdispatch : Agrees t (s₁.dispatch (t.reader d) plan)
      (s₁.unfollowing.dispatch (t.reader d) plan) := by
    rw [Scan.dispatch, Scan.dispatch, unfollowing_phase]
    cases hphase : s₁.frame.phase with
    | initial => exact hstraight.begin (hcoherent.bare_of_initial hphase)
    | component => exact hstraight.component ht (hcoherent.bare_of_component hphase)
    | listing => exact hstraight.listing
    | ellipsis => exact hstraight.ellipsis ht
    | finished => exact ⟨hstraight, rfl⟩
  have hemit : s.unfollowing.emit (.entered s.unfollowing.frame.phase) = s₁.unfollowing := rfl
  rw [Scan.turn, Scan.turn, hemit, ← hs₁]
  rcases hturn : s₁.dispatch (t.reader d) plan with ⟨s', signal⟩
  rw [hturn] at hdispatch
  obtain ⟨hs', heq⟩ := hdispatch
  rw [heq]
  cases signal with
  | running => exact ⟨hs', rfl⟩
  | answered answer => exact ⟨⟨hs'.base, hs'.frame, hs'.stack⟩, rfl⟩
  | raised error => exact ⟨hs', rfl⟩

end

end Scan

end PathExpansion
