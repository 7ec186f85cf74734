import Mathlib
import PathExpansion.Proofs.Orders
import PathExpansion.Proofs.WholePath

/-!
# Comparisons that fail

A caller may supply the comparison that puts names in order, and a comparison may fail.  If it fails
by a fault of the operating system, the directory is given up as one that cannot be opened is: the
fault goes to the policy, and the scan goes on behind the directory.  What is lost are the results
inside.  Any other fault reaches the caller in the middle of a step, and leaves a frame that has
taken its component without having gone down by it.

* `Trip.asListed`, `Trip.steps_subperm`, `Trip.depths_subperm`, **`Trip.leads_subperm`** — where a
  component leads if names are wanted in order, and where it leads without.
* **`Trip.walk_subperm`** — so it is with the results of a walk.
* **`Scan.found_asListed`** — a scan whose comparison fails by the operating system ends, and finds
  nothing that the same scan does not find without an order of names.
* `Scan.handedOut`, `Scan.handedOut_atEllipsis` — a scan whose comparison fails otherwise may hand
  out the path at which an ellipsis starts again and again.
-/

namespace PathExpansion

/-- From fewer starting points, with less behind each, there is less in all. -/
lemma subperm_flatMap {α β : Type} {as bs : List α} {f g : α → List β} (h : as.Subperm bs)
    (hf : ∀ a, (f a).Subperm (g a)) : (as.flatMap f).Subperm (bs.flatMap g) := by
  obtain ⟨cs, hperm, hsub⟩ := h
  have hmono : ∀ cs : List α, (cs.flatMap f).Subperm (cs.flatMap g) := by
    intro cs
    induction cs with
    | nil => exact .refl _
    | cons c cs ih => exact (hf c).append ih
  exact ((hperm.symm.flatMap_right f).subperm.trans (hmono cs)).trans (hsub.flatMap g).subperm

/-! ## With and without an order of names -/

namespace Trip

/-- The same trip without an order of names. -/
def asListed (t : Trip) : Trip := { t with plan := { t.plan with sorting := .asListed } }

variable {t : Trip} {r : Reader} {plan : Plan} {base : Option PathSpec}

/-- **What a directory gives in order it also gives without**, in another order. -/
lemma listed_asListed {path : String} {l : Listing} (h : t.reader.listed t.plan path = .ok l) :
    ∃ l', t.asListed.reader.listed t.asListed.plan path = .ok l' ∧ l.names.Perm l'.names := by
  obtain ⟨l', hopen, hperm⟩ := Reader.listed_perm h
  refine ⟨l', ?_, hperm⟩
  simp only [Reader.listed, asListed, hopen, Sorting.isEager, Bool.false_eq_true, if_false]

/-- The names of a directory lead where they lead without an order, or nowhere if they cannot be put
in order. -/
lemma steps_subperm (wanted : String → Bool) (descent deep : Bool) (path : String)
    (visited : Visited) :
    (t.steps wanted descent deep path visited).Subperm
      (t.asListed.steps wanted descent deep path visited) := by
  rw [steps]
  cases hl : t.reader.listed t.plan path with
  | error fault => exact List.nil_subperm
  | ok l =>
    obtain ⟨l', hl', hperm⟩ := listed_asListed hl
    simp only [steps, hl']
    exact ((hperm.filter wanted).flatMap_right _).subperm

lemma subdirectories_subperm (d : String × Visited) :
    (t.subdirectories d).Subperm (t.asListed.subdirectories d) := by
  rw [subdirectories_eq false, subdirectories_eq false]
  exact (steps_subperm _ _ _ _ _).filter _

lemma depths_subperm (deep : Bool) (n : ℕ) {dirs dirs' : List (String × Visited)}
    (h : dirs.Subperm dirs') :
    (t.depths deep n dirs).Subperm (t.asListed.depths deep n dirs') := by
  induction n generalizing dirs dirs' with
  | zero => exact .refl _
  | succ n ih =>
    rw [depths, depths]
    exact (subperm_flatMap h fun d => steps_subperm _ _ _ _ _).append
      (ih (subperm_flatMap h subdirectories_subperm))

/-- **With names in order, a component leads to no path that it does not lead to without.** -/
lemma leads_subperm (deep : Bool) (c : Component) (path : String) (visited : Visited) :
    (t.leads deep c path visited).Subperm (t.asListed.leads deep c path visited) := by
  cases c with
  | literal name descent => exact .refl _
  | wildcard w => exact steps_subperm _ _ _ _ _
  | ellipsis => exact (List.subperm_cons _).mpr (depths_subperm deep _ (.refl _))

/-- An ellipsis at the end that goes level by level, which is a case of its own since it leaves out
the path that it starts at. -/
lemma walk_bare_subperm (horder : t.plan.order = .breadthFirst) (path : String)
    (visited : Visited) :
    (answersIn r plan base (t.walk [.ellipsis] path visited)).Subperm
      (answersIn r plan base (t.asListed.walk [.ellipsis] path visited)) := by
  have hbare : ∀ t : Trip, t.plan.order = .breadthFirst → t.walk [.ellipsis] path visited
      = t.byLevel false true t.arrive (t.reader.extent + 1) path visited := by
    intro t horder
    rw [walk, ellipsis, horder]
    rfl
  rw [hbare t horder, hbare t.asListed horder, answersIn_byLevel, answersIn_byLevel]
  exact subperm_flatMap (depths_subperm false _ (.refl _)) fun _ => .refl _

/-- **With names in order, a walk has no results that it does not have without.** -/
theorem walk_subperm (hr : t.reader.IsFinite) (hnoted : t.Noted) (components : List Component)
    (path : String) (visited : Visited) :
    (answersIn r plan base (t.walk components path visited)).Subperm
      (answersIn r plan base (t.asListed.walk components path visited)) := by
  induction components generalizing path visited with
  | nil => exact .refl _
  | cons c rest ih =>
    by_cases hbare : t.plan.order = .breadthFirst → c = .ellipsis → rest ≠ []
    · have hleads := subperm_flatMap (leads_subperm (t := t) (needsDirectory rest) c path visited)
        fun p => ih p.1 p.2
      exact ((answersIn_walk_cons hr hnoted hbare path visited).subperm.trans hleads).trans
        (answersIn_walk_cons (t := t.asListed) hr hnoted hbare path visited).symm.subperm
    · push Not at hbare
      obtain ⟨horder, rfl, rfl⟩ := hbare
      exact walk_bare_subperm horder path visited

end Trip

/-! ## Scans -/

namespace Scan

/-- **A comparison that fails by the operating system loses results and does no other harm**: a
caller that goes on after each error comes to the end of the scan, and every result is one of the
same scan without an order of names, which has it at least as often.  This is so whatever else fails
in the tree and whatever the policy does about it. -/
theorem found_asListed {t : Tree} (ht : t.IsNamed) {d : Disturbance} (hd : d.IsSystem) {plan : Plan}
    (hsort : plan.sorting.FailsBySystem) (spec : PathSpec) (s : Scan) :
    ∃ answers unordered, (s.start spec).Answers (t.reader d) plan answers ∧
      (s.start spec).Answers (t.reader d) { plan with sorting := .asListed } unordered ∧
      ∀ answer, answers.count answer ≤ unordered.count answer := by
  have hr : (t.reader d).IsFinite := Tree.reader_isFinite ht d
  have hnoted : (spec.trip (t.reader d) plan).Noted :=
    Trip.noted_of_slash fun _ => (t.identifies_reader d).append_slash
  have hlisted : Sorting.asListed.FailsBySystem := fun _ h => by cases h
  exact ⟨_, _, answers_start hr (Tree.listed_failsBySystem hd hsort) s spec,
    answers_start hr (Tree.listed_failsBySystem hd hlisted) s spec,
    (Trip.walk_subperm hr hnoted spec.components spec.rootPath []).count_le⟩

/-- A comparison that is denied two of the names, in a directory that a glob goes through. -/
theorem found_asListed_denied :
    ∃ (t : Tree) (plan : Plan) (spec : PathSpec) (s : Scan),
      t = Tree.ofEntries [.path "a/x", .path "a/y", .path "b/z"] ∧
      plan = ⟨.normal, .byComparison fun p _ =>
        if p = "a/y" then .error (.ofSystem 13 "compare" p) else .ok 1, none, none, false⟩ ∧
      spec = ⟨[.ellipsis], (Wildcard.anyEntry false).pattern, false, false⟩ ∧ s = idle .standard ∧
      ∃ answers unordered, (s.start spec).Answers (t.reader .none) plan answers ∧
        (s.start spec).Answers (t.reader .none) { plan with sorting := .asListed } unordered ∧
        ∀ answer, answers.count answer ≤ unordered.count answer := by
  refine ⟨_, _, _, _, rfl, rfl, rfl, rfl, found_asListed (Tree.isNamed_ofEntries _)
    (fun _ h => absurd h List.not_mem_nil) ?_ _ _⟩
  rintro compare hcompare a b fault hfault
  cases hcompare
  simp only at hfault
  split at hfault
  · cases hfault
    exact Fault.isSystem_ofSystem _ _ _
  · cases hfault

/-! ## Other faults -/

/-- The results of so many calls, errors left out. -/
def handedOut (r : Reader) (plan : Plan) : ℕ → Scan → List Answer
  | 0, _ => []
  | n + 1, s =>
    match s.advance r plan with
    | (s', .value (some answer)) => answer :: handedOut r plan n s'
    | (s', _) => handedOut r plan n s'

section

variable {r : Reader} {plan : Plan} {s : Scan}

/-- Steps that come to something are a call, if they are few. -/
lemma advance_eq {k : ℕ} (hk : k < 2 ^ 64) {result : Scan × Outcome (Option Answer)}
    (h : repeatTimes (towardsNext r plan) k s = .inr result) : s.advance r plan = result := by
  have hpow : 2 ^ 64 ≤ 2 ^ s.patience r := Nat.pow_le_pow_right (by decide) (le_patience r s)
  obtain ⟨m, hm⟩ : ∃ m, 2 ^ s.patience r - 1 = k + m := ⟨2 ^ s.patience r - 1 - k, by omega⟩
  rw [advance, repeatDoubling_eq, Nat.pow_zero, Nat.mul_one, hm, repeatTimes_add, h]

lemma spec_eq (s : Scan) : s.spec = s.frame.root.spec s.base := rfl

/-- **A directory whose names cannot be put in order for another reason keeps its frame**, and the
frame has lost the component that the directory was opened for. -/
theorem turn_disordered {w : Wildcard} {rest : List Component} {fault : Fault}
    (hphase : s.frame.phase = .component) (hremaining : s.frame.remaining = .wildcard w :: rest)
    (hlisted : r.listed plan s.frame.path = .error fault) (hfault : fault.isSystem = false) :
    ∃ s', s.turn r plan = (s', .raised (.fault fault)) ∧
      s'.frame = { s.frame with remaining := rest } ∧ s'.stack = s.stack ∧ s'.base = s.base := by
  set taken : Scan :=
    { s with
      frame := { s.frame with remaining := rest }
      events := .entered s.frame.phase :: s.events } with htaken
  obtain ⟨handles, issued, hopen⟩ := openCursor_error hlisted taken
  refine ⟨{ taken with
    handles := handles
    issued := issued
    events := .opened (orDot s.frame.path) :: taken.events }, ?_, rfl, rfl, rfl⟩
  have hdispatch : (s.emit (.entered s.frame.phase)).dispatch r plan
      = taken.openWildcard r plan w := by
    simp only [dispatch, emit, hphase, component, hremaining, htaken]
  have hwildcard : taken.openWildcard r plan w = ({ taken with
      handles := handles
      issued := issued
      events := .opened (orDot s.frame.path) :: taken.events }, .raised (.fault fault)) := by
    rw [openWildcard, show taken.frame.path = s.frame.path from rfl, hopen]
    simp only [hfault, Bool.false_eq_true, if_false]
  rw [turn, hdispatch, hwildcard]

variable (r plan) in
/-- An ellipsis goes a level down. -/
lemma turn_expand (hphase : s.frame.phase = .ellipsis) (hpending : s.frame.pending = none)
    (henter : isEnterable s.frame.path) :
    ∃ s', s.turn r plan = (s', .running) ∧
      s'.frame = { s.frame with
        remaining := .wildcard (.anyEntry plan.ignoreCase) :: .ellipsis :: s.frame.remaining
        phase := .component } ∧
      s'.stack = s.stack ∧ s'.base = s.base := by
  refine ⟨{ s with
    frame := { s.frame with
      remaining := .wildcard (.anyEntry plan.ignoreCase) :: .ellipsis :: s.frame.remaining
      phase := .component }
    events := .entered s.frame.phase :: s.events }, ?_, rfl, rfl, rfl⟩
  simp only [turn, dispatch, emit, hphase, ellipsis, hpending, expand, henter, if_true]

variable (r) in
/-- An ellipsis is taken, a directory before its contents. -/
lemma turn_enterEllipsis {rest : List Component} (horder : plan.order = .normal)
    (hphase : s.frame.phase = .component) (hremaining : s.frame.remaining = .ellipsis :: rest) :
    ∃ s' visited, s.turn r plan = (s', .running) ∧
      s'.frame = { s.frame.successor with remaining := rest, visited := visited } ∧
      s'.stack = { s.frame with phase := .ellipsis, remaining := rest, visited := visited }
        :: s.stack ∧
      s'.base = s.base := by
  set taken : Scan :=
    { s with
      frame := { s.frame with remaining := rest }
      events := .entered s.frame.phase :: s.events } with htaken
  have hdispatch : (s.emit (.entered s.frame.phase)).dispatch r plan
      = taken.enterEllipsis r plan := by
    simp only [dispatch, emit, hphase, component, hremaining, htaken]
  rw [turn, hdispatch, enterEllipsis, noteEntered_eq taken r plan, horder]
  refine ⟨_, _, rfl, ?_, rfl, rfl⟩
  simp only [push, save, emit, Frame.successor, htaken, hphase]

/-- A path is handed out, and what was saved last goes on. -/
lemma turn_arrive {f : Frame} {fs : List Frame} (hplain : plan.templates = none)
    (hphase : s.frame.phase = .component) (hremaining : s.frame.remaining = [])
    (hstack : s.stack = f :: fs) (haccepts : s.spec.matcher.finds s.frame.path)
    (hpresent : r.isPresent s.frame.path) :
    ∃ s', s.turn r plan = (s', .answered (some (.path s.frame.path))) ∧
      s'.frame = f ∧ s'.stack = fs ∧ s'.base = s.base := by
  set entered : Scan := s.emit (.entered s.frame.phase) with hentered
  have hspec : entered.spec = s.spec := rfl
  have hpop : entered.pop = { entered with
      frame := f
      stack := fs
      events := .resumed f :: entered.events } := by
    rw [pop, show entered.stack = f :: fs from hstack]
    rfl
  have hdispatch : entered.dispatch r plan = entered.arrive r plan := by
    simp only [dispatch, show entered.frame.phase = .component from hphase, component,
      show entered.frame.remaining = [] from hremaining]
  have harrive : entered.arrive r plan = (entered.pop, .answered (some (.path s.frame.path))) := by
    simp only [arrive, hspec, show entered.frame.path = s.frame.path from rfl, haccepts, hpresent,
      Bool.and_self, if_true, answerFor, hplain]
  rw [turn, hdispatch, harrive, hpop]
  exact ⟨_, rfl, rfl, rfl, rfl⟩

/-- The current frame stands before an ellipsis at the end, or, if `phase` is `.ellipsis`, has given
the directory at which it starts and is to go below. -/
structure AtEllipsis (phase : Phase) (remaining : List Component) (path : String) (s : Scan) :
    Prop where
  phase_eq : s.frame.phase = phase
  remaining_eq : s.frame.remaining = remaining
  pending_eq : s.frame.pending = none
  path_eq : s.frame.path = path
  accepts : s.spec.matcher.finds path

variable {path : String}

/-- An ellipsis at the end gives the directory at which it starts. -/
lemma AtEllipsis.answers (horder : plan.order = .normal) (hplain : plan.templates = none)
    (hpresent : r.isPresent path) (hs : s.AtEllipsis .component [.ellipsis] path) :
    ∃ s', repeatTimes (towardsNext r plan) 2 s = .inr (s', .value (some (.path path))) ∧
      s'.AtEllipsis .ellipsis [] path := by
  obtain ⟨hphase, hremaining, hpending, rfl, haccepts⟩ := hs
  obtain ⟨m, visited, hfirst, hframe, hstack, hbase⟩ :=
    turn_enterEllipsis r horder hphase hremaining
  have hspec : m.spec = s.spec := by
    rw [spec_eq, spec_eq, hframe, hbase]
    rfl
  have hpath : m.frame.path = s.frame.path := by rw [hframe]; rfl
  rw [← hpath] at hpresent
  obtain ⟨s', hsecond, hframe', -, hbase'⟩ := turn_arrive hplain (by rw [hframe]; exact hphase)
    (by rw [hframe]) hstack (by rw [hspec, hpath]; exact haccepts) hpresent
  refine ⟨s', ?_, by rw [hframe'], by rw [hframe'], by rw [hframe']; exact hpending,
    by rw [hframe'], ?_⟩
  · simp only [repeatTimes, towardsNext, hfirst, hsecond, hpath]
  · rw [spec_eq, hframe', hbase', hbase]
    exact haccepts

/-- At a directory whose names cannot be put in order for another reason, it raises the fault and
stands before the ellipsis again. -/
lemma AtEllipsis.raises {fault : Fault} (henter : isEnterable path)
    (hlisted : r.listed plan path = .error fault) (hfault : fault.isSystem = false)
    (hs : s.AtEllipsis .ellipsis [] path) :
    ∃ s', repeatTimes (towardsNext r plan) 2 s = .inr (s', .raised (.fault fault)) ∧
      s'.AtEllipsis .component [.ellipsis] path := by
  obtain ⟨hphase, hremaining, hpending, rfl, haccepts⟩ := hs
  obtain ⟨m, hfirst, hframe, -, hbase⟩ := turn_expand r plan hphase hpending henter
  have hpath : m.frame.path = s.frame.path := by rw [hframe]
  rw [← hpath] at hlisted
  obtain ⟨s', hsecond, hframe', -, hbase'⟩ := turn_disordered (s := m) (by rw [hframe])
    (by rw [hframe]) hlisted hfault
  rw [hframe, hremaining] at hframe'
  refine ⟨s', ?_, by rw [hframe'], by rw [hframe'], by rw [hframe']; exact hpending,
    by rw [hframe'], ?_⟩
  · simp only [repeatTimes, towardsNext, hfirst, hsecond]
  · rw [spec_eq, hframe', hbase', hbase]
    exact haccepts

/-- **An ellipsis at the end never comes past a directory whose names cannot be put in order for
another reason**: it goes on giving the directory, with an error before each time. -/
theorem handedOut_atEllipsis {fault : Fault} (horder : plan.order = .normal)
    (hplain : plan.templates = none) (henter : isEnterable path) (hpresent : r.isPresent path)
    (hlisted : r.listed plan path = .error fault) (hfault : fault.isSystem = false) (n : ℕ)
    (hs : s.AtEllipsis .ellipsis [] path) :
    s.handedOut r plan (2 * n) = List.replicate n (.path path) := by
  induction n generalizing s with
  | zero => rfl
  | succ n ih =>
    obtain ⟨m, hraised, hm⟩ := hs.raises henter hlisted hfault
    obtain ⟨s', hanswered, hs'⟩ := hm.answers horder hplain hpresent
    have hcalls : s.handedOut r plan (2 * n + 2) = .path path :: s'.handedOut r plan (2 * n) := by
      simp only [handedOut, advance_eq (by decide) hraised, advance_eq (by decide) hanswered]
    rw [Nat.mul_succ, hcalls, ih hs']
    rfl

end

/-- A directory given by name, and an ellipsis: two steps lead before the ellipsis. -/
lemma atEllipsis_start {r : Reader} {plan : Plan} {matcher : Pattern} {name : String}
    (hexclude : plan.exclude = none) (hdir : r.isDirectory name)
    (haccepts : matcher.finds (name ++ "/")) (s : Scan) :
    ∃ m, repeatTimes (towardsNext r plan) 2
        (s.start ⟨[.literal name false, .ellipsis], matcher, false, false⟩) = .inl m ∧
      m.AtEllipsis .component [.ellipsis] (name ++ "/") := by
  cases hm : repeatTimes (towardsNext r plan) 2
      (s.start ⟨[.literal name false, .ellipsis], matcher, false, false⟩) with
  | inl m =>
    simp [repeatTimes, towardsNext, turn, dispatch, emit, start, Frame.initial, begin, component,
      spec, specOf, PathSpec.rootPath, literal, extend, hexclude, hdir] at hm
    subst hm
    exact ⟨_, rfl, rfl, rfl, rfl, rfl, haccepts⟩
  | inr m =>
    simp [repeatTimes, towardsNext, turn, dispatch, emit, start, Frame.initial, begin, component,
      spec, specOf, PathSpec.rootPath, literal, extend, hexclude, hdir] at hm

/-- Arriving at a path that is found and present gives it. -/
lemma answersIn_arrived {r : Reader} {plan : Plan} {spec : PathSpec} {path : String}
    (hplain : plan.templates = none) (hfinds : spec.matcher.finds path)
    (hpresent : r.isPresent path) (ds : List Deed) :
    answersIn r plan (some spec) (.arrived .construction path :: ds)
      = .path path :: answersIn r plan (some spec) ds := by
  refine List.filterMap_cons_some ?_
  simp [Deed.answer?, arrival, Root.spec, hfinds, hpresent, answerAt, hplain]

/-- A path with an ellipsis at the end, and what its pattern finds. -/
lemma exists_compile_ellipsis : ∃ matcher : Pattern,
    PathSpec.compile false (.text "a///") none none false
      = .ok ⟨[.literal "a" false, .ellipsis], matcher, false, false⟩ ∧
    matcher.finds "a/" ∧ matcher.finds "a/x" ∧ matcher.finds "a/y" := by
  obtain ⟨spec, hspec, htest⟩ := PathSpec.exists_compile false false (.text "a///") none
    (fun spec => decide (spec = ⟨[.literal "a" false, .ellipsis], spec.matcher, false, false⟩ ∧
        spec.matcher.finds "a/" ∧ spec.matcher.finds "a/x" ∧ spec.matcher.finds "a/y"))
    (by decide +kernel)
  obtain ⟨hshape, hfinds⟩ := of_decide_eq_true htest
  exact ⟨spec.matcher, hspec.trans (congrArg _ hshape), hfinds⟩

/-- A comparison of a caller that refuses everything. -/
def refusal : Sorting := .byComparison fun _ _ => .error ⟨.other "ValueError", []⟩

/-- Without an order of names, a directory is given once. -/
lemma answers_ellipsis {matcher : Pattern} (ha : matcher.finds "a/") (hx : matcher.finds "a/x")
    (hy : matcher.finds "a/y") :
    ((idle .standard).start ⟨[.literal "a" false, .ellipsis], matcher, false, false⟩).Answers
      ((Tree.ofEntries [.path "a/x", .path "a/y"]).reader .none)
      ⟨.normal, .asListed, none, none, false⟩
      [.path "a/", .path "a/x", .path "a/y"] := by
  have hsys : ((Tree.ofEntries [.path "a/x", .path "a/y"]).reader .none).FailsBySystem
      ⟨.normal, .asListed, none, none, false⟩ :=
    Tree.listed_failsBySystem (fun _ h => absurd h List.not_mem_nil) fun _ h => by cases h
  have h := answers_start
    (Tree.reader_isFinite (Tree.isNamed_ofEntries [.path "a/x", .path "a/y"]) .none) hsys
    (idle .standard) ⟨[.literal "a" false, .ellipsis], matcher, false, false⟩
  set r := (Tree.ofEntries [.path "a/x", .path "a/y"]).reader .none
  have hpresent : r.isPresent "a/" ∧ r.isPresent "a/x" ∧ r.isPresent "a/y" :=
    ⟨by cbv, by cbv, by cbv⟩
  have hwalk : Trip.walk ⟨r, ⟨.normal, .asListed, none, none, false⟩, false, .construction⟩
      [.literal "a" false, .ellipsis] "" []
      = [.moved, .moved, .arrived .construction "a/", .moved, .opened "a/",
          .moved, .moved, .moved, .arrived .construction "a/x", .moved,
          .moved, .moved, .moved, .arrived .construction "a/y", .moved, .moved] := by cbv
  rw [PathSpec.trip, PathSpec.rootPath, if_neg Bool.false_ne_true, hwalk] at h
  have hgiven := @answersIn_arrived r ⟨.normal, .asListed, none, none, false⟩
    ⟨[.literal "a" false, .ellipsis], matcher, false, false⟩
  simpa only [answersIn_moved, answersIn_opened, answersIn_nil, hgiven rfl ha hpresent.1,
    hgiven rfl hx hpresent.2.1, hgiven rfl hy hpresent.2.2] using h

/-- **With a comparison that refuses everything, the scan of `a///` gives the directory again and
again**, with an error in between; the same scan without an order of names gives it once. -/
theorem handedOut_repeats :
    ∃ t plan spec answers, t = Tree.ofEntries [.path "a/x", .path "a/y"] ∧
      plan = ⟨.normal, refusal, none, none, false⟩ ∧
      PathSpec.compile false (.text "a///") none none false = .ok spec ∧
      (∀ n, ((idle .standard).start spec).handedOut (t.reader .none) plan (2 * n + 1)
        = List.replicate (n + 1) (.path "a/")) ∧
      ((idle .standard).start spec).Answers (t.reader .none) { plan with sorting := .asListed }
        answers ∧ answers.count (.path "a/") = 1 := by
  obtain ⟨matcher, hcompile, ha, hx, hy⟩ := exists_compile_ellipsis
  refine ⟨_, _, _, _, rfl, rfl, hcompile, fun n => ?_, answers_ellipsis ha hx hy, by decide⟩
  set r := (Tree.ofEntries [.path "a/x", .path "a/y"]).reader .none
  set plan : Plan := ⟨.normal, refusal, none, none, false⟩
  have hpresent : r.isPresent "a/" := by cbv
  have hlisted : r.listed plan "a/" = .error ⟨.other "ValueError", []⟩ := by cbv
  have hdir : r.isDirectory "a" := by cbv
  have hexclude : plan.exclude = none := rfl
  have horder : plan.order = .normal := rfl
  have hplain : plan.templates = none := rfl
  obtain ⟨m, hbefore, hm⟩ := atEllipsis_start hexclude hdir ha (idle .standard)
  obtain ⟨s', hanswered, hs'⟩ := hm.answers horder hplain hpresent
  have hfirst : repeatTimes (towardsNext r plan) (2 + 2) ((idle .standard).start
      ⟨[.literal "a" false, .ellipsis], matcher, false, false⟩)
      = .inr (s', .value (some (.path "a/"))) := by
    rw [repeatTimes_add, hbefore]
    exact hanswered
  simp only [handedOut, advance_eq (k := 2 + 2) (by decide) hfirst]
  exact congrArg _ (handedOut_atEllipsis horder hplain (by decide) hpresent hlisted rfl n hs')

end Scan

end PathExpansion
