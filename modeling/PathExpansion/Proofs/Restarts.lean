import PathExpansion.Proofs.Displacement
import PathExpansion.Proofs.Handles
import PathExpansion.Proofs.Policies

/-!
# Starting over

An expansion that is started over has a past: directories were open, paths waited, the policy had
incidents on record, an error may have stopped a step halfway.  None of it can be seen any more.
Only the pattern of the results stays if it was replaced.

* `Scan.core`, `Scan.Coherent.core_turn` — what no step changes.
* `View`, `Expansion.views` — all that a caller sees of requests in a row.
* `Scan.IsKept` — a relation between scans that is kept whatever is asked of both;
  **`Expansion.views_related`**: two expansions with scans that are so related look the same.
* `Scan.isKept_displaced`, `Alike.views` — so it is if one of them is displaced.
* `SetUp`, `SetUp.afterRequests` — what requests leave of how an expansion was set up.
* **`Expansion.reset_forgets`** — an expansion that is started over looks like one newly set up.
-/

namespace PathExpansion

/-! ## What no step changes -/

namespace Scan

variable {r : Reader} {plan : Plan} {s s' : Scan}

/-- What no step of a scan changes: the specification that it was started with, and the manner of
its policy. -/
def core (s : Scan) : Option PathSpec × Manner := (s.base, s.policy.manner)

lemma Move.core (hmove : Move r plan s s') : s'.core = s.core := by
  cases hmove with
  | noted policy fitting events hmanner => exact congrArg (Prod.mk s.base) hmanner
  | dropped =>
    unfold pop
    cases s.stack <;> rfl
  | refused hopen =>
    obtain ⟨_, _, _, rfl⟩ := scan_of_openCursor hopen
    rfl
  | globbed hphase hbare hremaining hopen =>
    obtain ⟨_, _, _, rfl⟩ := scan_of_openCursor hopen
    rfl
  | listed hphase hcursor hpending henter hopen =>
    obtain ⟨_, _, _, rfl⟩ := scan_of_openCursor hopen
    rfl
  | _ => rfl

/-- **A step leaves what the scan was started with.** -/
lemma Coherent.core_turn (h : s.Coherent plan) : (s.turn r plan).1.core = s.core :=
  h.turn_preserves (p := (·.core = s.core)) (fun _ _ _ hmove hs => hmove.core.trans hs) rfl

lemma Coherent.core_advance (h : s.Coherent plan) : (s.advance r plan).1.core = s.core :=
  (advance_preserves (p := fun s' => s'.Coherent plan ∧ s'.core = s.core)
    (fun _ hs => ⟨hs.1.turn, hs.1.core_turn.trans hs.2⟩) ⟨h, rfl⟩).2

lemma Coherent.core_drain (h : s.Coherent plan) : (s.drain r plan).1.core = s.core :=
  (drain_preserves (p := fun s' => s'.Coherent plan ∧ s'.core = s.core)
    (fun _ hs => ⟨hs.1.turn, hs.1.core_turn.trans hs.2⟩) ⟨h, rfl⟩).2

lemma AfterCall.core (hs : s.AfterCall r plan s') (h : s.Coherent plan) : s'.core = s.core := by
  cases hs with
  | kept => rfl
  | advanced => exact h.core_advance
  | appended spec =>
    exact congrArg₂ (fun base policy => (base, Policy.manner policy)) (s.base_append spec)
      (s.policy_append spec)
  | prepended spec =>
    exact congrArg₂ (fun base policy => (base, Policy.manner policy)) (s.base_prepend spec)
      (s.policy_prepend spec)
  | closed => rfl

end Scan

/-! ## What a caller sees -/

/-- How a request comes out. -/
inductive Response where
  | reply (reply : Reply)
  | results (outcome : Outcome (List Answer))

/-- **What a caller sees of a request**: how it comes out, which directories are asked for, what is
printed and traced in between, and then what the policy has on record and whether anything is
left. -/
structure View where
  response : Response
  opened : List String
  warnings : List String
  trace : List String
  record : List Incident
  skipped : List String
  statistics : Option Statistics
  exhausted : Bool

namespace Expansion

/-- How a request comes out. -/
def response (r : Reader) (e : Expansion) : Request → Response
  | .call c => .reply (e.call r c).2
  | .all => .results (e.all r).2
  | .setMatch pattern =>
    match e.setMatch pattern with
    | .ok _ => .reply .done
    | .error problem => .reply (.refused problem)
  | .reset => .reply .done

/-- An expansion whose log has been taken. -/
def quiet (e : Expansion) : Expansion := { e with scan := e.scan.takeEvents.2 }

/-- What a caller sees of a request. -/
def view (r : Reader) (e : Expansion) (q : Request) : View :=
  let after := e.quiet.request r q
  let log := after.scan.takeEvents.1
  { response := e.quiet.response r q
    opened := log.filterMap Event.openedPath?
    warnings := log.filterMap Event.warning?
    trace := log.filterMap Event.traceLine?
    record := after.scan.policy.record
    skipped := after.scan.policy.skipped
    statistics := after.scan.policy.statistics
    exhausted := after.isExhausted }

/-- What a caller sees of requests in a row, each with the filesystem as it stands then. -/
def views : Expansion → List (Reader × Request) → List View
  | _, [] => []
  | e, (r, q) :: requests => e.view r q :: views (e.quiet.request r q) requests

/-- What a caller is shown of an entry of the log. -/
def shown (event : Event) : Option String × Option String × Option String :=
  (event.openedPath?, event.warning?, event.traceLine?)

/-- What is seen of a request depends on how it comes out, on what is shown of the log, and on what
the policy and the scan are left with. -/
lemma view_congr {r : Reader} {e e' : Expansion} {q : Request}
    (hresponse : e'.quiet.response r q = e.quiet.response r q)
    (hshown : (e'.quiet.request r q).scan.events.map shown
      = (e.quiet.request r q).scan.events.map shown)
    (hpolicy : (e'.quiet.request r q).scan.policy = (e.quiet.request r q).scan.policy)
    (hfinished : (e'.quiet.request r q).isExhausted = (e.quiet.request r q).isExhausted) :
    e'.view r q = e.view r q := by
  have hlog : ∀ (line : Event → Option String)
      (part : Option String × Option String × Option String → Option String),
      part ∘ shown = line →
      (e'.quiet.request r q).scan.takeEvents.1.filterMap line
        = (e.quiet.request r q).scan.takeEvents.1.filterMap line := by
    rintro _ part rfl
    rw [← List.filterMap_map, ← List.filterMap_map, Scan.takeEvents, Scan.takeEvents,
      List.map_reverse, List.map_reverse, hshown]
  rw [view, view, hresponse]
  simp only [hpolicy, hfinished, hlog Event.openedPath? (·.1) rfl, hlog Event.warning? (·.2.1) rfl,
    hlog Event.traceLine? (·.2.2) rfl]

end Expansion

/-! ## Two scans that are used alike -/

/-- **A relation between scans that is kept whatever is asked of both**, if related paths are added
to them: what is asked comes to the same, and nothing that is seen tells one from the other. -/
structure Scan.IsKept (r : Reader) (plan : Plan)
    (paths : PathSpec → PathSpec → Prop) (R : Scan → Scan → Prop) : Prop where
  advance : ∀ ⦃s s'⦄, R s s' → R (s.advance r plan).1 (s'.advance r plan).1 ∧
    (s'.advance r plan).2 = (s.advance r plan).2
  drain : ∀ ⦃s s'⦄, R s s' → R (s.drain r plan).1 (s'.drain r plan).1 ∧
    (s'.drain r plan).2 = (s.drain r plan).2
  close : ∀ ⦃s s'⦄, R s s' → R s.close s'.close
  start : ∀ ⦃s s' spec spec'⦄, R s s' → paths spec spec' → R (s.start spec) (s'.start spec')
  append : ∀ ⦃s s' spec spec'⦄, R s s' → paths spec spec' → R (s.append spec) (s'.append spec')
  prepend : ∀ ⦃s s' spec spec'⦄, R s s' → paths spec spec' → R (s.prepend spec) (s'.prepend spec')
  setMatcher : ∀ ⦃s s'⦄ matcher, R s s' → R (s.setMatcher matcher) (s'.setMatcher matcher)
  renewed : ∀ ⦃s s'⦄, R s s' →
    R { s with policy := s.policy.reset } { s' with policy := s'.policy.reset }
  quiet : ∀ ⦃s s'⦄, R s s' → R s.takeEvents.2 s'.takeEvents.2
  base : ∀ ⦃s s'⦄, R s s' → Option.Rel paths s.base s'.base
  shown : ∀ ⦃s s'⦄, R s s' →
    s'.events.map Expansion.shown = s.events.map Expansion.shown
  policy : ∀ ⦃s s'⦄, R s s' → s'.policy = s.policy
  isFinished : ∀ ⦃s s'⦄, R s s' → s'.isFinished = s.isFinished

/-- One scan is as good as another, displaced. -/
lemma Scan.isKept_displaced (r : Reader) (plan : Plan) (n : ℕ) :
    IsKept r plan Eq (IsDisplaced n) where
  advance s s' h := h.advance
  drain s s' h := h.drain
  close s s' h := h.close
  start s s' spec spec' h heq := heq ▸ h.start spec
  append s s' spec spec' h heq := heq ▸ h.append spec
  prepend s s' spec spec' h heq := heq ▸ h.prepend spec
  setMatcher s s' matcher h := h.setMatcher matcher
  renewed := by
    rintro s _ ⟨fitting, rfl⟩
    exact ⟨fitting, rfl⟩
  quiet := by
    rintro s _ ⟨fitting, rfl⟩
    exact ⟨fitting, rfl⟩
  base := by
    rintro s _ ⟨fitting, rfl⟩
    change Option.Rel Eq s.base s.base
    cases s.base with
    | none => exact .none
    | some spec => exact .some rfl
  shown := by
    rintro s _ ⟨fitting, rfl⟩
    rw [show (s.displaced n fitting).events = s.events.map (·.displaced n) from rfl, List.map_map]
    exact List.map_congr_left fun event _ => by cases event <;> rfl
  policy := by
    rintro s _ ⟨fitting, rfl⟩
    rfl
  isFinished := by
    rintro s _ ⟨fitting, rfl⟩
    exact displaced_isFinished s

namespace Expansion

/-- A path is compiled by both or by neither, and to related ones by both. -/
inductive CompilesAlike (paths : PathSpec → PathSpec → Prop) :
    Except CompileProblem PathSpec → Except CompileProblem PathSpec → Prop
  | error (problem : CompileProblem) : CompilesAlike paths (.error problem) (.error problem)
  | ok {spec spec' : PathSpec} (h : paths spec spec') : CompilesAlike paths (.ok spec) (.ok spec')

/-- A request adds related paths to two expansions, or none. -/
def AddsAlike (paths : PathSpec → PathSpec → Prop) (e e' : Expansion) : Request → Prop
  | .call (.append path absolute follow) | .call (.prepend path absolute follow) =>
    CompilesAlike paths (e.compileRoot path absolute follow) (e'.compileRoot path absolute follow)
  | _ => True

variable {r : Reader} {e e' : Expansion} {o : Options}

/-- No request changes the options and the plan. -/
lemma request_setUp (e : Expansion) (r : Reader) (q : Request) :
    (e.request r q).options = e.options ∧ (e.request r q).plan = e.plan := by
  cases q with
  | call c =>
    obtain ⟨s, heq, -⟩ := e.exists_afterCall r c
    rw [request, heq]
    exact ⟨rfl, rfl⟩
  | all => exact ⟨rfl, rfl⟩
  | setMatch pattern =>
    rw [request, setMatch]
    cases pattern.toPatternInput.compile e.plan.ignoreCase <;> exact ⟨rfl, rfl⟩
  | reset => exact ⟨rfl, rfl⟩

/-- So a path is compiled to the same before and after a request. -/
lemma compileRoot_request (e : Expansion) (r : Reader) (q : Request)
    (path absolute follow : Setting) :
    (e.request r q).compileRoot path absolute follow = e.compileRoot path absolute follow := by
  obtain ⟨hoptions, hplan⟩ := e.request_setUp r q
  rw [compileRoot, compileRoot, hoptions, hplan]

lemma AddsAlike.request {paths : PathSpec → PathSpec → Prop} {q : Request}
    (h : AddsAlike paths e e' q) (r : Reader) (p : Request) :
    AddsAlike paths (e.quiet.request r p) (e'.quiet.request r p) q := by
  cases q with
  | call c =>
    cases c with
    | append | prepend =>
      rw [AddsAlike, compileRoot_request, compileRoot_request]
      exact h
    | next | close => trivial
  | all | setMatch | reset => trivial

lemma reset_of_none (h : e.scan.base = none) :
    e.reset = { e with scan := { e.scan with policy := e.scan.policy.reset } } := by
  simp only [reset, h]

lemma reset_of_some {spec : PathSpec} (h : e.scan.base = some spec) :
    e.reset = { e with
      scan := ({ e.scan with policy := e.scan.policy.reset } : Scan).start spec } := by
  simp only [reset, h]

section

variable {paths : PathSpec → PathSpec → Prop} {R : Scan → Scan → Prop} {q : Request}

lemma reset_related (hkept : Scan.IsKept r e.plan paths R) (hscan : R e.scan e'.scan) :
    R e.reset.scan e'.reset.scan := by
  have hrenewed := hkept.renewed hscan
  have hbase := hkept.base hscan
  cases hspec : e.scan.base with
  | none =>
    cases hspec' : e'.scan.base with
    | none =>
      rw [reset_of_none hspec, reset_of_none hspec']
      exact hrenewed
    | some spec' =>
      rw [hspec, hspec'] at hbase
      cases hbase
  | some spec =>
    cases hspec' : e'.scan.base with
    | none =>
      rw [hspec, hspec'] at hbase
      cases hbase
    | some spec' =>
      rw [hspec, hspec'] at hbase
      cases hbase with
      | some hspecs =>
        rw [reset_of_some hspec, reset_of_some hspec']
        exact hkept.start hrenewed hspecs

/-- **A request comes to the same**, and leaves two scans that are still related. -/
lemma request_related (hkept : Scan.IsKept r e.plan paths R) (hplan : e'.plan = e.plan)
    (hscan : R e.scan e'.scan) (hq : AddsAlike paths e e' q) :
    e'.response r q = e.response r q ∧ R (e.request r q).scan (e'.request r q).scan := by
  cases q with
  | call c =>
    cases c with
    | next =>
      obtain ⟨hleft, houtcome⟩ := hkept.advance hscan
      simp only [response, request, call, Expansion.next, hplan]
      exact ⟨congrArg (fun outcome => Response.reply (.outcome outcome)) houtcome, hleft⟩
    | append path absolute follow =>
      simp only [response, request, call, Expansion.append]
      rw [AddsAlike] at hq
      generalize e.compileRoot path absolute follow = x at hq ⊢
      generalize e'.compileRoot path absolute follow = y at hq ⊢
      cases hq with
      | error problem => exact ⟨rfl, hscan⟩
      | ok hspecs => exact ⟨rfl, hkept.append hscan hspecs⟩
    | prepend path absolute follow =>
      simp only [response, request, call, Expansion.prepend]
      rw [AddsAlike] at hq
      generalize e.compileRoot path absolute follow = x at hq ⊢
      generalize e'.compileRoot path absolute follow = y at hq ⊢
      cases hq with
      | error problem => exact ⟨rfl, hscan⟩
      | ok hspecs => exact ⟨rfl, hkept.prepend hscan hspecs⟩
    | close => exact ⟨rfl, hkept.close hscan⟩
  | all =>
    obtain ⟨hleft, houtcome⟩ := hkept.drain hscan
    simp only [response, request, Expansion.all, hplan]
    exact ⟨congrArg Response.results houtcome, hleft⟩
  | setMatch pattern =>
    simp only [response, request, setMatch, hplan]
    cases pattern.toPatternInput.compile e.plan.ignoreCase with
    | error problem => exact ⟨rfl, hscan⟩
    | ok matcher => exact ⟨rfl, hkept.setMatcher matcher hscan⟩
  | reset => exact ⟨rfl, reset_related hkept hscan⟩

/-- **What a caller sees of requests in a row is the same.** -/
lemma views_related {requests : List (Reader × Request)}
    (hkept : ∀ q ∈ requests, Scan.IsKept q.1 e.plan paths R) (hplan : e'.plan = e.plan)
    (hscan : R e.scan e'.scan) (hadds : ∀ q ∈ requests, AddsAlike paths e e' q.2) :
    e'.views requests = e.views requests := by
  induction requests generalizing e e' with
  | nil => rfl
  | cons q requests ih =>
    rw [List.forall_mem_cons] at hkept hadds
    obtain ⟨hfirst, hkept⟩ := hkept
    have hquiet : R e.quiet.scan e'.quiet.scan := hfirst.quiet hscan
    have hquietPlan : e'.quiet.plan = e.quiet.plan := hplan
    have hquietKept : Scan.IsKept q.1 e.quiet.plan paths R := hfirst
    obtain ⟨hresponse, hafter⟩ := request_related hquietKept hquietPlan hquiet hadds.1
    have hview : e'.view q.1 q.2 = e.view q.1 q.2 :=
      view_congr hresponse (hfirst.shown hafter) (hfirst.policy hafter) (hfirst.isFinished hafter)
    have hsame : ∀ e : Expansion, (e.quiet.request q.1 q.2).plan = e.plan := fun e =>
      (e.quiet.request_setUp q.1 q.2).2
    rw [views, views, hview]
    refine congrArg _ (ih ?_ ?_ hafter ?_)
    · rw [hsame]
      exact hkept
    · rw [hsame, hsame, hplan]
    · exact fun p hp => (hadds.2 p hp).request q.1 q.2

end

/-- **Two expansions of which one is displaced.** -/
structure Alike (e e' : Expansion) : Prop where
  plan : e'.plan = e.plan
  follow : e'.options.follow = e.options.follow
  scan : ∃ n, e.scan.IsDisplaced n e'.scan

/-- A path is compiled to the same by both. -/
lemma Alike.addsAlike (h : Alike e e') (q : Request) : AddsAlike Eq e e' q := by
  have hcompile : ∀ path absolute follow, CompilesAlike Eq (e.compileRoot path absolute follow)
      (e'.compileRoot path absolute follow) := by
    intro path absolute follow
    rw [compileRoot, compileRoot, h.plan, h.follow]
    generalize PathSpec.compile _ _ _ _ _ = x
    cases x with
    | error problem => exact .error problem
    | ok spec => exact .ok rfl
  cases q with
  | call c =>
    cases c with
    | append | prepend => exact hcompile _ _ _
    | next | close => trivial
  | all | setMatch | reset => trivial

/-- **Two expansions of which one is displaced look the same.** -/
lemma Alike.views (h : Alike e e') (requests : List (Reader × Request)) :
    e'.views requests = e.views requests := by
  obtain ⟨n, hscan⟩ := h.scan
  exact views_related (fun q _ => Scan.isKept_displaced q.1 e.plan n) h.plan hscan
    fun q _ => h.addsAlike q.2

/-- What was logged before is not seen. -/
lemma views_quiet (e : Expansion) (requests : List (Reader × Request)) :
    e.quiet.views requests = e.views requests := by
  cases requests with
  | nil => rfl
  | cons q requests => rfl

/-! ## Starting over -/

/-- **An expansion that was set up** with some options, plan and path, whatever has been asked of it
since: only the pattern of its results may have been replaced. -/
structure SetUp (o : Options) (plan : Plan) (spec : PathSpec) (e : Expansion) : Prop where
  options : e.options = o
  plan : e.plan = plan
  base : ∃ matcher, e.scan.base = some { spec with matcher := matcher }
  manner : e.scan.policy.manner = o.errorPolicy.manner

variable {plan : Plan} {spec : PathSpec}

lemma SetUp.congr (h : e.SetUp o plan spec) {s : Scan} (hcore : s.core = e.scan.core) :
    ({ e with scan := s } : Expansion).SetUp o plan spec :=
  ⟨h.options, h.plan, by rw [show s.base = e.scan.base from congrArg Prod.fst hcore]; exact h.base,
    (congrArg Prod.snd hcore).trans h.manner⟩

/-- Starting over keeps the pattern and the manner of the policy, and nothing else that has
changed. -/
lemma SetUp.reset_eq (h : e.SetUp o plan spec) :
    e.reset = { e with
      scan := ({ e.scan with policy := .fresh o.errorPolicy.manner } : Scan).start
        { spec with matcher := e.matcher } } := by
  obtain ⟨matcher, hbase⟩ := h.base
  have hmatcher : e.matcher = matcher := by
    rw [Expansion.matcher, Scan.specOf, hbase]
    rfl
  rw [reset_of_some hbase, hmatcher, Policy.reset, h.manner]

lemma SetUp.request (h : e.SetUp o plan spec) (he : e.InOrder) (r : Reader) (q : Request) :
    (e.request r q).SetUp o plan spec := by
  cases q with
  | call c =>
    obtain ⟨s, heq, hs⟩ := e.exists_afterCall r c
    rw [Expansion.request, heq]
    exact h.congr (hs.core he.coherent)
  | all => exact h.congr (Scan.Coherent.core_drain he.coherent)
  | setMatch pattern =>
    rw [Expansion.request, Expansion.setMatch]
    cases pattern.toPatternInput.compile e.plan.ignoreCase with
    | error problem => exact h
    | ok matcher =>
      obtain ⟨matcher', hbase⟩ := h.base
      refine ⟨h.options, h.plan, ⟨matcher, ?_⟩, h.manner⟩
      exact congrArg (Option.map fun spec => { spec with matcher := matcher }) hbase
  | reset =>
    rw [Expansion.request, h.reset_eq]
    exact ⟨h.options, h.plan, ⟨e.matcher, rfl⟩, rfl⟩

lemma SetUp.afterRequests (h : e.SetUp o plan spec) (he : e.InOrder)
    (requests : List (Reader × Request)) : (e.afterRequests requests).SetUp o plan spec := by
  induction requests generalizing e with
  | nil => exact h
  | cons q requests ih => exact ih (h.request he q.1 q.2) (he.request q.1 q.2).1

end Expansion

/-- Nothing is wrong with any compiled pattern. -/
lemma Options.problems_matching {o : Options} (matcher : Pattern)
    (h : o.problems.mapError SetupError.type = .ok []) :
    { o with matching := .pattern matcher }.problems.mapError SetupError.type = .ok [] := by
  cases hderive : deriveProblem? o.derive with
  | error problem =>
    rw [problems, hderive] at h
    cases h
  | ok derive =>
    rw [problems, hderive] at h ⊢
    have hlisted := Except.ok.inj h
    simp only [List.append_eq_nil_iff] at hlisted
    obtain ⟨⟨⟨⟨⟨hbefore, _⟩, hexclude⟩, hreader⟩, hpolicy⟩, horacle⟩ := hlisted
    refine congrArg Except.ok ?_
    simp only [List.append_eq_nil_iff]
    exact ⟨⟨⟨⟨⟨hbefore, rfl⟩, hexclude⟩, hreader⟩, hpolicy⟩, horacle⟩

/-- A path that can be compiled can be compiled with any compiled pattern. -/
lemma PathSpec.compile_matching {ignoreCase follow : Bool} {path : PathInput}
    {absolute : Option Bool} {matching : Option PatternInput} {spec : PathSpec} (matcher : Pattern)
    (h : compile ignoreCase path absolute matching follow = .ok spec) :
    compile ignoreCase path absolute (some (.compiled matcher)) follow
      = .ok { spec with matcher := matcher } := by
  obtain ⟨⟨parts, isAbsolute⟩, hsplit, h⟩ := bind_eq_ok.mp h
  obtain ⟨components, hcomponents, h⟩ := bind_eq_ok.mp h
  have hspec : spec = ⟨components, spec.matcher, isAbsolute, follow⟩ := by
    cases matching with
    | none =>
      obtain ⟨_, _, h⟩ := bind_eq_ok.mp h
      cases h
      rfl
    | some given =>
      obtain ⟨_, _, h⟩ := bind_eq_ok.mp h
      cases h
      rfl
  rw [hspec]
  exact bind_eq_ok.mpr ⟨_, hsplit, bind_eq_ok.mpr ⟨_, hcomponents, rfl⟩⟩

lemma Options.pathSpec_matching {o : Options} {ignoreCase : Bool} {spec : PathSpec}
    (matcher : Pattern)
    (h : (o.pathSpec ignoreCase).mapError SetupError.compile = .ok spec) :
    ({ o with matching := .pattern matcher }.pathSpec ignoreCase).mapError SetupError.compile
      = .ok { spec with matcher := matcher } := by
  cases hcompiled : o.pathSpec ignoreCase with
  | error problem =>
    rw [hcompiled] at h
    cases h
  | ok compiled =>
    rw [hcompiled] at h
    cases h
    exact congrArg (Except.mapError SetupError.compile)
      (PathSpec.compile_matching matcher hcompiled)

namespace Expansion

variable {r : Reader} {e e' : Expansion} {o : Options} {plan : Plan} {spec : PathSpec}

/-- Options that can be used can be used with any policy and any compiled pattern, which changes
nothing but what they are about. -/
lemma ofOptions_matching (h : ofOptions o = .ok e) :
    ∃ spec, e.SetUp o e.plan spec ∧ ∀ p matcher,
      ofOptions { o with policy := .policy p, matching := .pattern matcher }
        = .ok ⟨{ o with policy := .policy p, matching := .pattern matcher }, e.plan,
            (Scan.idle p).start { spec with matcher := matcher }⟩ := by
  obtain ⟨problems, hproblems, h⟩ := bind_eq_ok.mp h
  split at h
  · cases h
  · next hnone =>
    obtain ⟨ignoreCase, hcase, h⟩ := bind_eq_ok.mp h
    obtain ⟨spec, hspec, h⟩ := bind_eq_ok.mp h
    obtain ⟨plan, hplan, h⟩ := bind_eq_ok.mp h
    cases h
    rw [Decidable.not_not.mp hnone] at hproblems
    refine ⟨spec, ⟨rfl, rfl, ⟨spec.matcher, rfl⟩, rfl⟩, fun p matcher => bind_eq_ok.mpr ⟨[],
      Options.problems_matching matcher (Options.problems_policy p hproblems), ?_⟩⟩
    rw [if_neg (by simp)]
    exact bind_eq_ok.mpr ⟨ignoreCase, hcase, bind_eq_ok.mpr ⟨{ spec with matcher := matcher },
      Options.pathSpec_matching matcher hspec, bind_eq_ok.mpr ⟨plan, hplan, rfl⟩⟩⟩

/-- **Starting over forgets.**  Whatever was asked of an expansion, and whatever came of it, what a
caller sees once it is started over is what they see of an expansion newly set up with the same
options, a policy of the same manner that has nothing on record, and the pattern that is in
force. -/
theorem reset_forgets (he : ofOptions o = .ok e) (history : List (Reader × Request)) :
    ∃ fresh : Expansion,
      ofOptions { o with
        policy := .policy (.fresh o.errorPolicy.manner)
        matching := .pattern (e.afterRequests history).matcher } = .ok fresh ∧
      ∀ later : List (Reader × Request),
        (e.afterRequests history).reset.views later = fresh.views later := by
  set used := e.afterRequests history
  have hhandles : used.reset.scan.handles = [] :=
    ((inOrder_of_ofOptions he).afterRequests history).1.handles_reset
  obtain ⟨spec, hsetUp, hnew⟩ := ofOptions_matching he
  have hafter : used.SetUp o e.plan spec := hsetUp.afterRequests (inOrder_of_ofOptions he) history
  refine ⟨_, hnew _ _, fun later => ?_⟩
  set fresh : Expansion := ⟨_, e.plan,
    (Scan.idle (.fresh o.errorPolicy.manner)).start { spec with matcher := used.matcher }⟩
  -- the scans differ by the handles that were given before, and by the templates that were looked
  -- at
  have hscan : fresh.quiet.scan.IsDisplaced used.scan.issued used.reset.quiet.scan := by
    rw [hafter.reset_eq] at hhandles ⊢
    exact Scan.isDisplaced_start hhandles _
  have hplan : used.reset.plan = e.plan := by
    rw [hafter.reset_eq]
    exact hafter.plan
  have hfollow : used.reset.options.follow = o.follow := by
    rw [hafter.reset_eq]
    exact congrArg Options.follow hafter.options
  have halike : Alike fresh.quiet used.reset.quiet := ⟨hplan, hfollow, _, hscan⟩
  calc used.reset.views later
      = used.reset.quiet.views later := (views_quiet _ later).symm
    _ = fresh.quiet.views later := halike.views later
    _ = fresh.views later := views_quiet _ later

/-- A filesystem in which every directory has the same two directories in it, and one of them cannot
be opened. -/
def denied : Reader :=
  { twoEach with
    openDirectory := fun path =>
      if path = "a/" then .error ⟨.permission, []⟩ else twoEach.openDirectory path }

/-- A scan is stopped by its policy, its pattern is replaced, another path interrupts it while a
directory is open, and the pattern is replaced by one that lacks a group. -/
theorem reset_forgets_interrupted :
    ∃ (o : Options) (e : Expansion) (history : List (Reader × Request)),
      o =
        { path := .datum (.text "*/*"), derive := .datum (.list [.text "$2"]),
          policy := .policy (.fresh (.threshold 0 false)) } ∧
      ofOptions o = .ok e ∧
      history = [(denied, .call .next), (denied, .setMatch (.datum (.text "(b/)(.)"))),
        (denied, .call .next), (denied, .call (.prepend (.datum (.text "b/*")) .nothing .nothing)),
        (denied, .setMatch (.datum (.text "b/(.)")))] ∧
      (e.afterRequests history).scan.handles ≠ [] ∧
      (e.afterRequests history).scan.policy.record ≠ [] ∧
      ∃ fresh : Expansion,
        ofOptions { o with
          policy := .policy (.fresh o.errorPolicy.manner)
          matching := .pattern (e.afterRequests history).matcher } = .ok fresh ∧
        ∀ later : List (Reader × Request),
          (e.afterRequests history).reset.views later = fresh.views later := by
  let o : Options :=
    { path := .datum (.text "*/*"), derive := .datum (.list [.text "$2"]),
      policy := .policy (.fresh (.threshold 0 false)) }
  let history : List (Reader × Request) :=
    [(denied, .call .next), (denied, .setMatch (.datum (.text "(b/)(.)"))),
      (denied, .call .next), (denied, .call (.prepend (.datum (.text "b/*")) .nothing .nothing)),
      (denied, .setMatch (.datum (.text "b/(.)")))]
  have hleft : (ofOptions o).toOption.map (fun e => ((e.afterRequests history).scan.handles.length,
      (e.afterRequests history).scan.policy.record.length)) = some (2, 1) := by
    decide +kernel
  cases he : ofOptions o with
  | error problem =>
    rw [he] at hleft
    cases hleft
  | ok e =>
    rw [he] at hleft
    obtain ⟨hhandles, hrecord⟩ := Prod.mk.inj (Option.some.inj hleft)
    refine ⟨o, e, history, rfl, he, rfl, fun h => ?_, fun h => ?_, reset_forgets he history⟩
    · rw [h] at hhandles
      cases hhandles
    · rw [h] at hrecord
      cases hrecord

end Expansion

end PathExpansion
