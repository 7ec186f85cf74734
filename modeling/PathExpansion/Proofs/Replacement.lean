import PathExpansion.Proofs.Arrivals

/-!
# Replacing the pattern only filters

The pattern of results can be replaced while a scan is anywhere in the middle of its work.  Where
the scan goes does not depend on it: the descent of a root ends at the same paths, in the same
order, and hands over the same faults.  So these endings are a list that is gone through once, from
the front; a path that comes up is judged by the pattern of its root as it stands at that moment.

* `Action`, `Expansion.responses` — asking for results, queueing paths and replacing the pattern.
* `Expansion.endingsOf` — where the descent of a root ends; no pattern has a part in it.
* `Sieve` — endings that are still ahead, with the pattern and the policy that they meet.
* `Sieve.visits` — the endings that a run passes, each with the pattern that is in force then.
* `perform_pass` — performing deeds passes their endings.
* **`Expansion.responses_sift`** — an expansion answers as the sieve does.
-/

namespace PathExpansion

/-! ## Where a root ends -/

/-- The path of an ending. -/
def Ending.path? : Ending → Option String
  | .fault _ => none
  | .path _ p => some p

lemma filterMap_path?_endingsIn {r : Reader} (ds : List Deed) :
    (endingsIn r ds).filterMap Ending.path? = arrivalsIn r ds := by
  rw [endingsIn, arrivalsIn, List.filterMap_filterMap]
  refine List.filterMap_congr fun d _ => ?_
  cases d with
  | arrived root path =>
    rw [Deed.ending?, Deed.arrival?]
    cases r.isPresent path <;> rfl
  | _ => rfl

namespace Expansion

variable {r : Reader} {e : Expansion} {spec : PathSpec}

/-- **Where the descent of a root ends**, in order: at the existing paths at which its components
are all taken, and at the faults that it hands over. -/
def endingsOf (r : Reader) (e : Expansion) (root : Root) : List Ending :=
  endingsIn r (Scan.rootAgenda r e.plan e.scan.base root)

lemma root_of_mem_endingsOf {root root' : Root} {path : String}
    (h : .path root' path ∈ e.endingsOf r root) : root' = root := by
  obtain ⟨d, hd, hending⟩ := List.mem_filterMap.mp h
  have hfor : d.IsFor root := by
    rw [Scan.rootAgenda, Frame.agenda, Frame.initial] at hd
    rcases List.mem_cons.mp hd with rfl | hd
    · trivial
    · exact Trip.isOwn_walk (t := ⟨r, e.plan, (root.spec e.scan.base).follow, root⟩) _ _ _ d hd
  cases d with
  | arrived root'' path' =>
    simp only [Deed.ending?, Option.ite_none_right_eq_some, Option.some.injEq,
      Ending.path.injEq] at hending
    exact hending.2.1.symm.trans hfor
  | _ => cases hending

/-- **No pattern has a part in it.** -/
lemma endingsOf_setMatcher (hbase : e.scan.base = some spec) (matcher : Pattern) (root : Root) :
    { e with scan := e.scan.setMatcher matcher }.endingsOf r root = e.endingsOf r root := by
  rw [endingsOf, endingsOf, hbase]
  simp only [Scan.setMatcher, hbase]
  cases root <;> rfl

/-- A scan whose pattern finds all of the paths gives all of them. -/
lemma answers_endingsOf (hr : r.IsFinite) (hsys : r.FailsBySystem e.plan)
    (hbase : e.scan.base = some spec) {matcher : Pattern} (hfits : e.plan.Fits matcher)
    (hfinds : ∀ path ∈ (e.endingsOf r .construction).filterMap Ending.path?, matcher.finds path)
    (s : Scan) :
    (s.start { spec with matcher := matcher }).Answers r e.plan
      (((e.endingsOf r .construction).filterMap Ending.path?).map (e.plan.answer matcher)) := by
  set spec' : PathSpec := { spec with matcher := matcher }
  set deeds := (spec'.trip r e.plan).walk spec'.components spec'.rootPath []
  have hpaths : (e.endingsOf r .construction).filterMap Ending.path? = arrivalsIn r deeds := by
    rw [← filterMap_path?_endingsIn, endingsOf, hbase]
    rfl
  rw [hpaths] at hfinds ⊢
  have hanswers := Scan.answers_start hr hsys s spec'
  rw [answersIn_eq hfits, filterMap_sightsIn_of_finds (Trip.isOwn_walk _ _ _) hfinds] at hanswers
  exact hanswers

end Expansion

/-! ## The sieve -/

/-- What a caller does in a run: it asks for the next result, queues a path, or replaces the
pattern. -/
inductive Action where
  | next
  | append (path absolute follow : Setting)
  | assign (pattern : Setting)

/-- The request that an action is. -/
def Action.request : Action → Request
  | next => .call .next
  | append path absolute follow => .call (.append path absolute follow)
  | assign pattern => .setMatch pattern

/-- The pattern that the paths of a root have to match, given the one that is in force for the
construction.  A root that was queued has its own. -/
def Root.matcher (inForce : Pattern) : Root → Pattern
  | .construction => inForce
  | .queued spec => spec.matcher

/-- The result for a path, with those derived from it by the pattern that is in force. -/
def Plan.resultFor (plan : Plan) (inForce : Pattern) (path : String) : Except MissingGroup Answer :=
  match plan.templates with
  | none => .ok (.path path)
  | some templates => (derivePaths templates inForce path).map .derived

namespace Ending

/-- The result that an ending comes to, if it does. -/
def answer? (plan : Plan) (inForce : Pattern) : Ending → Option Answer
  | .fault _ => none
  | .path root p =>
    if (root.matcher inForce).finds p then (plan.resultFor inForce p).toOption else none

/-- What a caller gets at an ending, if anything. -/
def outcome? (plan : Plan) (inForce : Pattern) (policy : Policy) :
    Ending → Option (Outcome (Option Answer))
  | .fault incident => (policy.handle incident).stop.map fun stop => .raised (.policy stop)
  | .path root p =>
    if (root.matcher inForce).finds p then
      some (match plan.resultFor inForce p with
        | .ok answer => .value (some answer)
        | .error e => .raised (.missingGroup e))
    else none

/-- The policy behind an ending. -/
def policyBehind (policy : Policy) : Ending → Policy
  | .fault incident => (policy.handle incident).policy
  | .path _ _ => policy

end Ending

/-- What asking for a result comes to: the endings that are passed, those that are left, the policy
behind them, and what the caller gets. -/
structure Passage where
  passed : List Ending
  ahead : List Ending
  policy : Policy
  outcome : Outcome (Option Answer)

/-- **Passes endings until the caller gets something.** -/
def pass (plan : Plan) (inForce : Pattern) : List Ending → Policy → Passage
  | [], policy => ⟨[], [], policy, .value none⟩
  | ending :: ahead, policy =>
    match ending.outcome? plan inForce policy with
    | some outcome => ⟨[ending], ahead, ending.policyBehind policy, outcome⟩
    | none =>
      let rest := pass plan inForce ahead (ending.policyBehind policy)
      { rest with passed := ending :: rest.passed }

/-- **A run halfway**: the endings that are still ahead, the pattern that is in force for the
construction, and the policy. -/
structure Sieve where
  ahead : List Ending
  matcher : Pattern
  policy : Policy

namespace Sieve

variable (r : Reader) (e : Expansion)

/-- What asking for the next result comes to. -/
def passage (s : Sieve) : Passage := pass e.plan s.matcher s.ahead s.policy

/-- What an action makes of the run.  What cannot be compiled changes nothing. -/
def act (s : Sieve) : Action → Sieve
  | .next => { s with ahead := (s.passage e).ahead, policy := (s.passage e).policy }
  | .append path absolute follow =>
    match e.compileRoot path absolute follow with
    | .ok spec => { s with ahead := s.ahead ++ e.endingsOf r (.queued spec) }
    | .error _ => s
  | .assign pattern =>
    match pattern.toPatternInput.compile e.plan.ignoreCase with
    | .ok matcher => { s with matcher := matcher }
    | .error _ => s

/-- How an action comes out. -/
def response (s : Sieve) : Action → Response
  | .next => .reply (.outcome (s.passage e).outcome)
  | .append path absolute follow =>
    match e.compileRoot path absolute follow with
    | .ok _ => .reply .done
    | .error problem => .reply (.refused problem)
  | .assign pattern =>
    match pattern.toPatternInput.compile e.plan.ignoreCase with
    | .ok _ => .reply .done
    | .error problem => .reply (.refused problem)

/-- The endings that an action passes. -/
def passed (s : Sieve) : Action → List Ending
  | .next => (s.passage e).passed
  | _ => []

/-- The run after actions in a row. -/
def after (s : Sieve) (actions : List Action) : Sieve := actions.foldl (act r e) s

/-- How actions in a row come out. -/
def responses : Sieve → List Action → List Response
  | _, [] => []
  | s, a :: actions => s.response e a :: responses (s.act r e a) actions

/-- **The endings that a run passes**, each with the pattern that is in force then. -/
def visits : Sieve → List Action → List (Ending × Pattern)
  | _, [] => []
  | s, a :: actions => (s.passed e a).map (·, s.matcher) ++ visits (s.act r e a) actions

end Sieve

/-- The specification that an action queues, if it does. -/
def Action.queued? (e : Expansion) : Action → Option PathSpec
  | .append path absolute follow => (e.compileRoot path absolute follow).toOption
  | _ => none

/-- The result that a caller gets, if it does. -/
def Response.answer? : Response → Option Answer
  | .reply (.outcome (.value answer)) => answer
  | _ => none

/-! ## What the sieve does -/

section

variable {plan : Plan} {inForce : Pattern}

lemma pass_append (endings : List Ending) (policy : Policy) :
    (pass plan inForce endings policy).passed ++ (pass plan inForce endings policy).ahead
      = endings := by
  induction endings generalizing policy with
  | nil => rfl
  | cons ending ahead ih =>
    rw [pass]
    cases ending.outcome? plan inForce policy with
    | some outcome => rfl
    | none => exact congrArg (ending :: ·) (ih _)

/-- What an ending comes to is its result, or no result at all. -/
lemma Ending.answer?_of_outcome? (plan : Plan) (inForce : Pattern) (ending : Ending)
    (policy : Policy) :
    ending.answer? plan inForce
      = (ending.outcome? plan inForce policy).bind fun outcome =>
          (Response.reply (.outcome outcome)).answer? := by
  cases ending with
  | fault incident =>
    rw [answer?, outcome?]
    cases (policy.handle incident).stop <;> rfl
  | path root path =>
    rw [answer?, outcome?]
    split_ifs
    · cases plan.resultFor inForce path <;> rfl
    · rfl

/-- Of the endings that are passed, the last one has the result that the caller gets. -/
lemma answers_passed (endings : List Ending) (policy : Policy) :
    (pass plan inForce endings policy).passed.filterMap (·.answer? plan inForce)
      = (Response.reply (.outcome (pass plan inForce endings policy).outcome)).answer?.toList := by
  induction endings generalizing policy with
  | nil => rfl
  | cons ending ahead ih =>
    have hanswer := ending.answer?_of_outcome? plan inForce policy
    rw [pass]
    cases houtcome : ending.outcome? plan inForce policy with
    | some outcome =>
      rw [houtcome, Option.bind_some] at hanswer
      simp only [List.filterMap_cons, List.filterMap_nil, hanswer]
      cases (Response.reply (.outcome outcome)).answer? <;> rfl
    | none =>
      rw [houtcome, Option.bind_none] at hanswer
      simp only [List.filterMap_cons_none hanswer]
      exact ih _

end

namespace Sieve

variable {r : Reader} {e : Expansion} {s : Sieve}

/-- An action takes endings from the front, or puts those of a root at the end. -/
lemma passed_act (s : Sieve) (a : Action) :
    s.passed e a ++ (s.act r e a).ahead
      = s.ahead ++ (a.queued? e).toList.flatMap fun spec => e.endingsOf r (.queued spec) := by
  cases a with
  | next => exact (pass_append s.ahead s.policy).trans (List.append_nil _).symm
  | append path absolute follow =>
    simp only [passed, act, Action.queued?]
    cases e.compileRoot path absolute follow with
    | ok spec => exact congrArg (s.ahead ++ ·) (List.append_nil _).symm
    | error problem => exact (List.append_nil _).symm
  | assign pattern =>
    simp only [passed, act, Action.queued?]
    cases pattern.toPatternInput.compile e.plan.ignoreCase <;> exact (List.append_nil _).symm

lemma answers_act (s : Sieve) (a : Action) :
    (s.passed e a).filterMap (·.answer? e.plan s.matcher) = (s.response e a).answer?.toList := by
  cases a with
  | next => exact answers_passed s.ahead s.policy
  | append path absolute follow =>
    rw [response]
    cases e.compileRoot path absolute follow <;> rfl
  | assign pattern =>
    rw [response]
    cases pattern.toPatternInput.compile e.plan.ignoreCase <;> rfl

/-- **No ending is passed twice or skipped**: those that a run passes, and then those that are left,
are those that were ahead and those of the roots that it queues. -/
lemma visits_append (s : Sieve) (actions : List Action) :
    (s.visits r e actions).map Prod.fst ++ (s.after r e actions).ahead
      = s.ahead ++ (actions.filterMap (·.queued? e)).flatMap fun spec =>
          e.endingsOf r (.queued spec) := by
  induction actions generalizing s with
  | nil => exact (List.append_nil _).symm
  | cons a actions ih =>
    have hqueued : ((a :: actions).filterMap (·.queued? e)).flatMap
          (fun spec => e.endingsOf r (.queued spec))
        = ((a.queued? e).toList.flatMap fun spec => e.endingsOf r (.queued spec))
          ++ (actions.filterMap (·.queued? e)).flatMap fun spec =>
            e.endingsOf r (.queued spec) := by
      rw [List.filterMap_cons]
      cases a.queued? e <;> simp
    have hpassed : ((s.passed e a).map (·, s.matcher)).map Prod.fst = s.passed e a := by
      rw [List.map_map]
      exact List.map_id _
    calc (s.visits r e (a :: actions)).map Prod.fst ++ (s.after r e (a :: actions)).ahead
        = s.passed e a ++ (((s.act r e a).visits r e actions).map Prod.fst
            ++ ((s.act r e a).after r e actions).ahead) := by
          rw [visits, List.map_append, hpassed, List.append_assoc]
          rfl
      _ = (s.passed e a ++ (s.act r e a).ahead)
            ++ (actions.filterMap (·.queued? e)).flatMap fun spec =>
              e.endingsOf r (.queued spec) := by
          rw [ih, List.append_assoc]
      _ = _ := by rw [passed_act, List.append_assoc, hqueued]

/-- **The results of a run are those of the endings that it passes**, each judged by the pattern
that is in force then. -/
lemma answers_visits (s : Sieve) (actions : List Action) :
    (s.responses r e actions).filterMap Response.answer?
      = (s.visits r e actions).filterMap fun v => v.1.answer? e.plan v.2 := by
  induction actions generalizing s with
  | nil => rfl
  | cons a actions ih =>
    have hhere : ((s.passed e a).map (·, s.matcher)).filterMap (fun v => v.1.answer? e.plan v.2)
        = (s.response e a).answer?.toList := by
      rw [List.filterMap_map, ← answers_act]
      rfl
    rw [responses, visits, List.filterMap_append, hhere, ← ih, List.filterMap_cons]
    cases (s.response e a).answer? <;> rfl

end Sieve

/-! ## What a scan does -/

section

variable {r : Reader} {plan : Plan} {spec : PathSpec}

lemma Root.spec_matcher (root : Root) :
    (root.spec (some spec)).matcher = root.matcher spec.matcher := by
  cases root <;> rfl

lemma answerAt_eq_resultFor (root : Root) (path : String) :
    answerAt plan (some spec) root path = plan.resultFor spec.matcher path := rfl

/-- **What a deed comes to is what its ending comes to**, and it comes to nothing if it has none. -/
lemma Deed.effect_cases (r : Reader) (plan : Plan) (spec : PathSpec) (d : Deed) (l : Ledger) :
    (d.ending? r = none ∧ (d.effect r plan (some spec) l).2 = .running ∧
      (d.effect r plan (some spec) l).1.policy = l.policy) ∨
    ∃ ending, d.ending? r = some ending ∧
      (d.effect r plan (some spec) l).1.policy = ending.policyBehind l.policy ∧
      match ending.outcome? plan spec.matcher l.policy with
      | none => (d.effect r plan (some spec) l).2 = .running
      | some outcome => (d.effect r plan (some spec) l).2 ≠ .running ∧
          (d.effect r plan (some spec) l).2.outcome = outcome := by
  cases d with
  | moved => exact Or.inl ⟨rfl, rfl, rfl⟩
  | opened path => exact Or.inl ⟨rfl, rfl, rfl⟩
  | failed incident =>
    refine Or.inr ⟨.fault incident, rfl, rfl, ?_⟩
    rw [Ending.outcome?, Deed.effect]
    cases (l.policy.handle incident).stop with
    | none => rfl
    | some stop => exact ⟨Signal.noConfusion, rfl⟩
  | arrived root path =>
    cases hpresent : r.isPresent path with
    | false =>
      refine Or.inl ⟨by rw [Deed.ending?, hpresent]; rfl, ?_, rfl⟩
      rw [Deed.effect, arrival, hpresent, Bool.and_false]
      rfl
    | true =>
      refine Or.inr ⟨.path root path, by rw [Deed.ending?, hpresent]; rfl, rfl, ?_⟩
      rw [Ending.outcome?, Deed.effect, arrival, hpresent, Bool.and_true, Root.spec_matcher,
        answerAt_eq_resultFor]
      cases (root.matcher spec.matcher).finds path with
      | false => rfl
      | true =>
        cases plan.resultFor spec.matcher path with
        | ok answer => exact ⟨Signal.noConfusion, rfl⟩
        | error e => exact ⟨Signal.noConfusion, rfl⟩

/-- **Performing deeds passes their endings.** -/
lemma perform_pass (r : Reader) (plan : Plan) (spec : PathSpec) (ds : List Deed) (l : Ledger) :
    (perform r plan (some spec) ds l).2.1.outcome
        = (pass plan spec.matcher (endingsIn r ds) l.policy).outcome ∧
      (perform r plan (some spec) ds l).1.policy
        = (pass plan spec.matcher (endingsIn r ds) l.policy).policy ∧
      endingsIn r (perform r plan (some spec) ds l).2.2
        = (pass plan spec.matcher (endingsIn r ds) l.policy).ahead := by
  induction ds generalizing l with
  | nil => exact ⟨rfl, rfl, rfl⟩
  | cons d ds ih =>
    rcases heffect : d.effect r plan (some spec) l with ⟨m, signal⟩
    have hcases := d.effect_cases r plan spec l
    have hrest := ih m
    rw [heffect] at hcases
    rcases hcases with ⟨hnone, hrunning, hpolicy⟩ | ⟨ending, hending, hpolicy, houtcome⟩
    · simp only at hrunning hpolicy
      subst hrunning
      rw [perform, heffect, endingsIn, List.filterMap_cons_none hnone, ← hpolicy]
      exact hrest
    · rw [perform, heffect, endingsIn, List.filterMap_cons_some hending, pass]
      simp only at hpolicy
      cases hcome : ending.outcome? plan spec.matcher l.policy with
      | none =>
        simp only [hcome] at houtcome
        subst houtcome
        rw [← hpolicy]
        exact hrest
      | some outcome =>
        simp only [hcome] at houtcome
        obtain ⟨hsignal, houtcome⟩ := houtcome
        cases signal with
        | running => exact absurd rfl hsignal
        | answered answer => exact ⟨houtcome, hpolicy, rfl⟩
        | raised error => exact ⟨houtcome, hpolicy, rfl⟩

end

namespace Expansion

variable {r : Reader} {e e' : Expansion} {spec : PathSpec} {s : Sieve}

/-- How actions in a row come out. -/
def responses (r : Reader) : Expansion → List Action → List Response
  | _, [] => []
  | e, a :: actions => e.response r a.request :: responses r (e.request r a.request) actions

/-- An expansion after actions in a row. -/
def afterActions (r : Reader) (e : Expansion) (actions : List Action) : Expansion :=
  actions.foldl (fun e a => e.request r a.request) e

/-- **An expansion that has come as far as a run**, of those that began as `e` with the path
`spec`. -/
structure IsAt (r : Reader) (e : Expansion) (spec : PathSpec) (s : Sieve)
    (e' : Expansion) : Prop where
  plan : e'.plan = e.plan
  options : e'.options = e.options
  base : e'.scan.base = some { spec with matcher := s.matcher }
  ahead : endingsIn r (e'.scan.agenda r e.plan) = s.ahead
  policy : e'.scan.policy = s.policy
  coherent : e'.scan.Coherent e.plan

lemma IsAt.compileRoot (h : e.IsAt r spec s e') : e'.compileRoot = e.compileRoot := by
  funext path absolute follow
  rw [Expansion.compileRoot, Expansion.compileRoot, h.plan, h.options]

lemma IsAt.matcher (h : e.IsAt r spec s e') : e'.matcher = s.matcher := by
  rw [Expansion.matcher, Scan.specOf, h.base]
  rfl

lemma IsAt.next (hr : r.IsFinite) (hsys : r.FailsBySystem e.plan) (h : e.IsAt r spec s e') :
    (e'.next r).2 = (s.passage e).outcome ∧
      e.IsAt r spec (s.act r e .next) (e'.next r).1 := by
  obtain ⟨houtcome, hledger, hagenda, hbase, hcoherent⟩ := Scan.advance_spec hr hsys h.coherent
  obtain ⟨hpassed, hpolicy, hahead⟩ := perform_pass r e.plan { spec with matcher := s.matcher }
    (e'.scan.agenda r e.plan) e'.scan.ledger
  have hpass : pass e.plan s.matcher (endingsIn r (e'.scan.agenda r e.plan)) e'.scan.ledger.policy
      = s.passage e := by
    rw [h.ahead, show e'.scan.ledger.policy = s.policy from h.policy]
    rfl
  rw [h.base] at houtcome hledger hagenda hbase
  rw [hpass] at hpassed hpolicy hahead
  have hnext : e'.next r = ({ e' with scan := (e'.scan.advance r e.plan).1 },
      (e'.scan.advance r e.plan).2) := by
    rw [Expansion.next, h.plan]
  rw [hnext]
  refine ⟨houtcome.trans hpassed, h.plan, h.options, hbase, ?_, ?_, hcoherent⟩
  · simp only [hagenda]
    exact hahead
  · exact (congrArg Ledger.policy hledger).trans hpolicy

lemma IsAt.append (hbase : e.scan.base = some spec) (h : e.IsAt r spec s e') (queued : PathSpec) :
    e.IsAt r spec { s with ahead := s.ahead ++ e.endingsOf r (.queued queued) }
      { e' with scan := e'.scan.append queued } where
  plan := h.plan
  options := h.options
  base := (e'.scan.base_append queued).trans h.base
  ahead := by
    simp only
    rw [Scan.agenda_append h.coherent, endingsIn_append, h.ahead, endingsOf, h.base, hbase]
    rfl
  policy := (e'.scan.policy_append queued).trans h.policy
  coherent := h.coherent.append queued

lemma IsAt.setMatcher (h : e.IsAt r spec s e') (matcher : Pattern) :
    e.IsAt r spec { s with matcher := matcher }
      { e' with scan := e'.scan.setMatcher matcher } where
  plan := h.plan
  options := h.options
  base := by
    simp only [Scan.setMatcher, h.base]
    rfl
  ahead := by rw [Scan.agenda_setMatcher, h.ahead]
  policy := h.policy
  coherent := h.coherent.setMatcher matcher

/-- **An action comes out as the sieve says**, and the expansion comes as far as the sieve does. -/
lemma IsAt.act (hr : r.IsFinite) (hsys : r.FailsBySystem e.plan) (hbase : e.scan.base = some spec)
    (h : e.IsAt r spec s e') (a : Action) :
    e'.response r a.request = s.response e a ∧
      e.IsAt r spec (s.act r e a) (e'.request r a.request) := by
  cases a with
  | next =>
    obtain ⟨houtcome, hat⟩ := h.next hr hsys
    exact ⟨congrArg (fun outcome => Response.reply (.outcome outcome)) houtcome, hat⟩
  | append path absolute follow =>
    simp only [Action.request, response, request, call, Expansion.append, h.compileRoot,
      Sieve.response, Sieve.act]
    cases e.compileRoot path absolute follow with
    | error problem => exact ⟨rfl, h⟩
    | ok queued => exact ⟨rfl, h.append hbase queued⟩
  | assign pattern =>
    simp only [Action.request, response, request, setMatch, Sieve.response, Sieve.act]
    rw [← h.plan]
    cases pattern.toPatternInput.compile e'.plan.ignoreCase with
    | error problem => exact ⟨rfl, h⟩
    | ok matcher => exact ⟨rfl, h.setMatcher matcher⟩

lemma IsAt.actions (hr : r.IsFinite) (hsys : r.FailsBySystem e.plan)
    (hbase : e.scan.base = some spec) (h : e.IsAt r spec s e') (actions : List Action) :
    e'.responses r actions = s.responses r e actions ∧
      e.IsAt r spec (s.after r e actions) (e'.afterActions r actions) := by
  induction actions generalizing s e' with
  | nil => exact ⟨rfl, h⟩
  | cons a actions ih =>
    obtain ⟨hresponse, hat⟩ := h.act hr hsys hbase a
    obtain ⟨hresponses, hafter⟩ := ih hat
    exact ⟨by rw [responses, Sieve.responses, hresponse, hresponses], hafter⟩

/-- **A run of an expansion told by a sieve.**  Each action comes out as the sieve says; the endings
are passed one by one from the front, those of queued roots last; the results are those of the
endings that are passed, judged by the pattern that is in force then; and a pattern that is refused
changes nothing. -/
structure IsSifted (r : Reader) (e : Expansion) (s : Sieve) (actions : List Action) : Prop where
  responses : e.responses r actions = s.responses r e actions
  positions : (s.visits r e actions).map Prod.fst ++ (s.after r e actions).ahead
    = s.ahead ++ (actions.filterMap (·.queued? e)).flatMap fun spec => e.endingsOf r (.queued spec)
  answers : (e.responses r actions).filterMap Response.answer?
    = (s.visits r e actions).filterMap fun v => v.1.answer? e.plan v.2
  inForce : (e.afterActions r actions).matcher = (s.after r e actions).matcher
  refused : ∀ pattern problem, (e.afterActions r actions).setMatch pattern = .error problem →
    e.afterActions r (actions ++ [.assign pattern]) = e.afterActions r actions

/-- The sieve of an expansion that has just been set up. -/
def sieve (r : Reader) (e : Expansion) : Sieve :=
  ⟨e.endingsOf r .construction, e.matcher, e.scan.policy⟩

lemma IsAt.isSifted (hr : r.IsFinite) (hsys : r.FailsBySystem e.plan)
    (hbase : e.scan.base = some spec) (h : e.IsAt r spec s e) (actions : List Action) :
    e.IsSifted r s actions := by
  obtain ⟨hresponses, hafter⟩ := h.actions hr hsys hbase actions
  refine ⟨hresponses, s.visits_append actions, ?_, hafter.matcher,
    fun pattern problem hrefused => ?_⟩
  · rw [hresponses, s.answers_visits]
  · rw [afterActions, List.foldl_append, List.foldl_cons, List.foldl_nil]
    change (e.afterActions r actions).request r (.setMatch pattern) = _
    rw [request, hrefused]

/-- **Replacing the pattern only filters.**  Where the descent of a root ends is a list that no
pattern has a part in; a scan whose pattern finds all of its paths gives all of them.  Every run of
an expansion, whatever paths are queued and whatever patterns assigned on the way, goes through that
list once, and through those of the queued roots behind it. -/
theorem responses_sift {t : Tree} (ht : t.IsNamed) {d : Disturbance} (hd : d.IsSystem) {o : Options}
    (hsort : o.sorting.FailsBySystem) {e : Expansion} (he : ofOptions o = .ok e) :
    (∀ root root' path, .path root' path ∈ e.endingsOf (t.reader d) root → root' = root) ∧
    (∀ matcher root, { e with scan := e.scan.setMatcher matcher }.endingsOf (t.reader d) root
      = e.endingsOf (t.reader d) root) ∧
    (∃ spec, e.scan.base = some spec ∧ ∀ matcher, e.plan.Fits matcher →
      (∀ path ∈ (e.endingsOf (t.reader d) .construction).filterMap Ending.path?,
        matcher.finds path) →
      ∀ s : Scan, (s.start { spec with matcher := matcher }).Answers (t.reader d) e.plan
        (((e.endingsOf (t.reader d) .construction).filterMap Ending.path?).map
          (e.plan.answer matcher))) ∧
    ∀ actions, e.IsSifted (t.reader d) (e.sieve (t.reader d)) actions := by
  obtain ⟨hsorting, _, spec, hscan⟩ := ofOptions_ok he
  have hr : (t.reader d).IsFinite := Tree.reader_isFinite ht d
  have hsys : (t.reader d).FailsBySystem e.plan :=
    Tree.listed_failsBySystem hd (by rw [hsorting]; exact hsort)
  have hbase : e.scan.base = some spec := by rw [hscan]; rfl
  have hat : e.IsAt (t.reader d) spec (e.sieve (t.reader d)) e := by
    refine ⟨rfl, rfl, ?_, ?_, rfl, ?_⟩
    · rw [sieve, matcher, Scan.specOf, hbase]
      rfl
    · rw [sieve, endingsOf, hscan]
      exact congrArg _ (List.append_nil _)
    · rw [hscan]
      exact Scan.coherent_start _ spec
  exact ⟨fun _ _ _ => root_of_mem_endingsOf, endingsOf_setMatcher hbase, ⟨spec, hbase,
    fun matcher hfits hfinds s => answers_endingsOf hr hsys hbase hfits hfinds s⟩,
    fun actions => hat.isSifted hr hsys hbase actions⟩

/-- Files, and a directory that cannot be opened, with a template and a policy that stops at
once. -/
theorem responses_sift_denied :
    ∃ (t : Tree) (d : Disturbance) (o : Options) (e : Expansion),
      t = .ofEntries [.path "a", .path "b/c", .path "d/e"] ∧ d = ⟨[("b", .permission)], [], false⟩ ∧
      o =
        { path := .datum (.text "///*"), derive := .datum (.list [.text "$1.bak"])
          policy := .policy (.fresh .failFast) } ∧
      ofOptions o = .ok e ∧
      ∀ actions, e.IsSifted (t.reader d) (e.sieve (t.reader d)) actions := by
  let o : Options :=
    { path := .datum (.text "///*"), derive := .datum (.list [.text "$1.bak"])
      policy := .policy (.fresh .failFast) }
  have hok : (ofOptions o).isOk := by decide +kernel
  cases he : ofOptions o with
  | error problem =>
    rw [he] at hok
    cases hok
  | ok e =>
    refine ⟨_, ⟨[("b", .permission)], [], false⟩, o, e, rfl, rfl, rfl, he, (responses_sift
      (Tree.isNamed_ofEntries _) (fun row hrow => ?_) (fun _ h => by cases h) he).2.2.2⟩
    rw [List.mem_singleton.mp hrow]
    rfl

end Expansion

end PathExpansion
