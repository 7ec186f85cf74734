import PathExpansion.Expansion
import PathExpansion.Proofs.Agenda.Results
import PathExpansion.Proofs.Tree.Finite

/-!
# An expansion is a list of results

Paths can be queued behind everything else, or served first, while a scan is anywhere in the middle
of its work; and it can be dropped.  For the caller all this is a list of results: those of a root
are put at its end or at its front, the first is taken off, or the list is emptied.

* `Call`, `Reply`, `Expansion.replies` — what a caller does, and what it observes.
* `Queue.replies` — what a list of results would answer.
* `Expansion.alone` — a scan that has only one root.
* `Scan.agenda_append`, `Scan.agenda_prepend`, `Scan.agenda_close` — what the operations do to what
  a scan is still to do.
* **`Expansion.replies_eq`** — an expansion answers as the list does.
-/

namespace PathExpansion

/-- What can be asked of an expansion while it runs. -/
inductive Call where
  | next
  | append (path absolute follow : Setting)
  | prepend (path absolute follow : Setting)
  | close

/-- What the caller observes. -/
inductive Reply where
  /-- The outcome of asking for the next result. -/
  | outcome (o : Outcome (Option Answer))
  | done
  /-- The path cannot be compiled. -/
  | refused (problem : CompileProblem)

namespace Expansion

/-- What a call does, and what the caller observes.  A path that is refused leaves the expansion as
it was. -/
def call (r : Reader) (e : Expansion) : Call → Expansion × Reply
  | .next => ((e.next r).1, .outcome (e.next r).2)
  | .append path absolute follow =>
    match e.append path absolute follow with
    | .ok e => (e, .done)
    | .error problem => (e, .refused problem)
  | .prepend path absolute follow =>
    match e.prepend path absolute follow with
    | .ok e => (e, .done)
    | .error problem => (e, .refused problem)
  | .close => (e.close, .done)

/-- What the caller observes of calls in a row. -/
def replies (r : Reader) : Expansion → List Call → List Reply
  | _, [] => []
  | e, c :: calls => (e.call r c).2 :: replies r (e.call r c).1 calls

/-- A scan that has only one root; what it derives is derived by the pattern of the construction. -/
def alone (e : Expansion) (root : Root) : Scan :=
  { Scan.idle e.options.errorPolicy with frame := .initial root, base := e.scan.base }

end Expansion

/-! ## The list -/

namespace Queue

variable (results : Root → List Answer)
  (compile : (path absolute follow : Setting) → Except CompileProblem PathSpec)

/-- What a call does to a list of results. -/
def call (queue : List Answer) : Call → List Answer × Reply
  | .next => (queue.tail, .outcome (.value queue.head?))
  | .append path absolute follow =>
    match compile path absolute follow with
    | .ok spec => (queue ++ results (.queued spec), .done)
    | .error problem => (queue, .refused problem)
  | .prepend path absolute follow =>
    match compile path absolute follow with
    | .ok spec => (results (.queued spec) ++ queue, .done)
    | .error problem => (queue, .refused problem)
  | .close => ([], .done)

/-- What a list of results answers to calls in a row. -/
def replies : List Answer → List Call → List Reply
  | _, [] => []
  | queue, c :: calls =>
    (call results compile queue c).2 :: replies (call results compile queue c).1 calls

end Queue

/-! ## What is still to be done -/

namespace Scan

variable {r : Reader} {plan : Plan} {s : Scan}

/-- The deeds of a root that has yet to be taken up. -/
def rootAgenda (r : Reader) (plan : Plan) (base : Option PathSpec) (root : Root) : List Deed :=
  (Frame.initial root).agenda r plan (root.spec base)

lemma agendaOf_append (s : Scan) (fs gs : List Frame) :
    s.agendaOf r plan (fs ++ gs) = s.agendaOf r plan fs ++ s.agendaOf r plan gs :=
  List.flatMap_append

lemma agendaOf_initial (s : Scan) (root : Root) :
    s.agendaOf r plan [Frame.initial root] = rootAgenda r plan s.base root :=
  List.append_nil _

/-- A root that is queued comes after everything else. -/
lemma agenda_append (hs : s.Coherent plan) (spec : PathSpec) :
    (s.append spec).agenda r plan = s.agenda r plan ++ rootAgenda r plan s.base (.queued spec) := by
  by_cases hphase : s.frame.phase = .finished
  · rw [agenda_of_finished hs hphase, Scan.append]
    simp only [hphase, if_true, hs.finished hphase, List.nil_append, agenda_pop]
    exact agendaOf_initial s (.queued spec)
  · rw [Scan.append]
    simp only [hphase, if_false]
    rw [agenda_eq, agenda_eq, List.append_assoc, ← agendaOf_initial, ← agendaOf_append]
    rfl

/-- A root that is served first comes before everything else. -/
lemma agenda_prepend (hs : s.Coherent plan) (spec : PathSpec) :
    (s.prepend spec).agenda r plan
      = rootAgenda r plan s.base (.queued spec) ++ s.agenda r plan := by
  rw [Scan.prepend]
  by_cases hphase : s.frame.phase = .finished
  · rw [agenda_of_finished hs hphase]
    simp only [hphase, if_true, agenda_eq, hs.finished hphase]
    rfl
  · simp only [hphase, if_false]
    rfl

lemma agenda_close (s : Scan) : s.close.agenda r plan = [] := rfl

lemma base_append (s : Scan) (spec : PathSpec) : (s.append spec).base = s.base := by
  rw [Scan.append]
  split_ifs
  · exact base_pop _
  · rfl

lemma ledger_append (s : Scan) (spec : PathSpec) : (s.append spec).ledger = s.ledger := by
  rw [Scan.append]
  split_ifs
  · exact ledger_pop _
  · rfl

lemma policy_append (s : Scan) (spec : PathSpec) : (s.append spec).policy = s.policy :=
  congrArg Ledger.policy (s.ledger_append spec)

lemma base_prepend (s : Scan) (spec : PathSpec) : (s.prepend spec).base = s.base := by
  rw [Scan.prepend]
  split_ifs <;> rfl

lemma ledger_prepend (s : Scan) (spec : PathSpec) : (s.prepend spec).ledger = s.ledger := by
  rw [Scan.prepend]
  split_ifs <;> rfl

lemma policy_prepend (s : Scan) (spec : PathSpec) : (s.prepend spec).policy = s.policy :=
  congrArg Ledger.policy (s.ledger_prepend spec)

/-- **What a call makes of a scan**: it goes on, gets one more path, or is dropped; it stays as it
is if a path cannot be used. -/
inductive AfterCall (r : Reader) (plan : Plan) (s : Scan) : Scan → Prop
  | kept : AfterCall r plan s s
  | advanced : AfterCall r plan s (s.advance r plan).1
  | appended (spec : PathSpec) : AfterCall r plan s (s.append spec)
  | prepended (spec : PathSpec) : AfterCall r plan s (s.prepend spec)
  | closed : AfterCall r plan s s.close

end Scan

/-! ## Each call -/

/-- A call touches nothing of an expansion but its scan. -/
lemma Expansion.exists_afterCall (r : Reader) (e : Expansion) (c : Call) :
    ∃ s, (e.call r c).1 = { e with scan := s } ∧ e.scan.AfterCall r e.plan s := by
  cases c with
  | next => exact ⟨_, rfl, .advanced⟩
  | append path absolute follow =>
    rw [Expansion.call, Expansion.append]
    cases e.compileRoot path absolute follow with
    | error problem => exact ⟨_, rfl, .kept⟩
    | ok spec => exact ⟨_, rfl, .appended spec⟩
  | prepend path absolute follow =>
    rw [Expansion.call, Expansion.prepend]
    cases e.compileRoot path absolute follow with
    | error problem => exact ⟨_, rfl, .kept⟩
    | ok spec => exact ⟨_, rfl, .prepended spec⟩
  | close => exact ⟨_, rfl, .closed⟩

/-- **An expansion whose results are a list**, and that nothing can stop. -/
structure Expansion.Holds (r : Reader) (e : Expansion) (queue : List Answer) : Prop where
  answers : answersIn r e.plan e.scan.base (e.scan.agenda r e.plan) = queue
  coherent : e.scan.Coherent e.plan
  neverStops : e.scan.policy.NeverStops
  renders : e.plan.Renders e.scan.base

namespace Expansion

variable {r : Reader} {e e' : Expansion} {queue : List Answer}

/-- The results of a root. -/
def resultsOf (r : Reader) (e : Expansion) (root : Root) : List Answer :=
  answersIn r e.plan e.scan.base (Scan.rootAgenda r e.plan e.scan.base root)

/-- What stays the same in an expansion. -/
def SameSetup (e e' : Expansion) : Prop :=
  e'.plan = e.plan ∧ e'.options = e.options ∧ e'.scan.base = e.scan.base

lemma SameSetup.resultsOf_eq (h : SameSetup e e') : e'.resultsOf r = e.resultsOf r := by
  obtain ⟨hplan, _, hbase⟩ := h
  funext root
  rw [resultsOf, resultsOf, hplan, hbase]

lemma SameSetup.compileRoot_eq (h : SameSetup e e') : e'.compileRoot = e.compileRoot := by
  obtain ⟨hplan, hoptions, _⟩ := h
  funext path absolute follow
  rw [compileRoot, compileRoot, hplan, hoptions]

lemma Holds.next (hr : r.IsFinite) (hsys : r.FailsBySystem e.plan) (h : e.Holds r queue) :
    (e.next r).2 = .value queue.head? ∧ (e.next r).1.Holds r queue.tail ∧
      SameSetup e (e.next r).1 := by
  obtain ⟨s', hadvance, htaken, hs', hbase⟩ :=
    Scan.advance_firstTaken hr hsys h.coherent (h.neverStops.bears _) h.renders
  rw [h.answers] at hadvance
  have htail := htaken.answers
  rw [h.answers] at htail
  have hnext : e.next r = ({ e with scan := s' }, .value queue.head?) := by
    rw [Expansion.next, hadvance]
  rw [hnext]
  refine ⟨rfl, ⟨?_, hs', htaken.neverStops h.neverStops, ?_⟩, rfl, rfl, hbase⟩
  · simp only [hbase]
    exact htail
  · simp only [hbase]
    exact h.renders

lemma Holds.append (h : e.Holds r queue) (spec : PathSpec) :
    Holds r { e with scan := e.scan.append spec } (queue ++ e.resultsOf r (.queued spec)) where
  answers := by
    simp only [Scan.base_append]
    rw [Scan.agenda_append h.coherent, answersIn, List.filterMap_append]
    exact congrArg (· ++ _) h.answers
  coherent := h.coherent.append spec
  neverStops := by simp only [Scan.policy_append, h.neverStops]
  renders := by simp only [Scan.base_append, h.renders]

lemma Holds.prepend (h : e.Holds r queue) (spec : PathSpec) :
    Holds r { e with scan := e.scan.prepend spec } (e.resultsOf r (.queued spec) ++ queue) where
  answers := by
    simp only [Scan.base_prepend]
    rw [Scan.agenda_prepend h.coherent, answersIn, List.filterMap_append]
    exact congrArg (_ ++ ·) h.answers
  coherent := h.coherent.prepend spec
  neverStops := by simp only [Scan.policy_prepend, h.neverStops]
  renders := by simp only [Scan.base_prepend, h.renders]

lemma Holds.close (h : e.Holds r queue) : e.close.Holds r [] where
  answers := congrArg (answersIn r e.plan e.scan.base) e.scan.agenda_close
  coherent := Scan.coherent_close e.scan
  neverStops := h.neverStops
  renders := h.renders

/-- **Each call does to an expansion what it does to the list**, and answers alike. -/
lemma Holds.call (hr : r.IsFinite) (hsys : r.FailsBySystem e.plan) (h : e.Holds r queue)
    (c : Call) :
    (e.call r c).2 = (Queue.call (e.resultsOf r) e.compileRoot queue c).2 ∧
    (e.call r c).1.Holds r (Queue.call (e.resultsOf r) e.compileRoot queue c).1 ∧
    SameSetup e (e.call r c).1 := by
  cases c with
  | next =>
    obtain ⟨hvalue, hholds, hsame⟩ := h.next hr hsys
    exact ⟨congrArg Reply.outcome hvalue, hholds, hsame⟩
  | append path absolute follow =>
    rw [Expansion.call, Queue.call, Expansion.append]
    cases e.compileRoot path absolute follow with
    | error problem => exact ⟨rfl, h, rfl, rfl, rfl⟩
    | ok spec => exact ⟨rfl, h.append spec, rfl, rfl, Scan.base_append e.scan spec⟩
  | prepend path absolute follow =>
    rw [Expansion.call, Queue.call, Expansion.prepend]
    cases e.compileRoot path absolute follow with
    | error problem => exact ⟨rfl, h, rfl, rfl, rfl⟩
    | ok spec => exact ⟨rfl, h.prepend spec, rfl, rfl, Scan.base_prepend e.scan spec⟩
  | close => exact ⟨rfl, h.close, rfl, rfl, rfl⟩

/-! ## All calls -/

lemma Holds.replies (hr : r.IsFinite) (hsys : r.FailsBySystem e.plan) (h : e.Holds r queue)
    (calls : List Call) :
    e.replies r calls = Queue.replies (e.resultsOf r) e.compileRoot queue calls := by
  induction calls generalizing e queue with
  | nil => rfl
  | cons c calls ih =>
    obtain ⟨hreply, hholds, hsame⟩ := h.call hr hsys c
    have hrest := ih (by rw [hsame.1]; exact hsys) hholds
    rw [hsame.resultsOf_eq, hsame.compileRoot_eq] at hrest
    rw [Expansion.replies, Queue.replies, hreply, hrest]

/-- What is known of an expansion that has just been set up: its scan has been started with the path
of the options. -/
lemma ofOptions_compiled {o : Options} (h : ofOptions o = .ok e) :
    e.plan.sorting = o.sorting ∧ e.options = o ∧
      ∃ spec, PathSpec.compile e.plan.ignoreCase o.path.toPathInput o.absolute.truth? o.matchInput
          o.follow.truthy = .ok spec ∧
        e.scan = (Scan.idle o.errorPolicy).start spec := by
  obtain ⟨problems, _, h⟩ := bind_eq_ok.mp h
  split at h
  · cases h
  · obtain ⟨ignoreCase, _, h⟩ := bind_eq_ok.mp h
    obtain ⟨spec, hspec, h⟩ := bind_eq_ok.mp h
    obtain ⟨plan, hplan, h⟩ := bind_eq_ok.mp h
    obtain ⟨exclude, _, hplan⟩ := bind_eq_ok.mp hplan
    obtain ⟨order, _, hplan⟩ := bind_eq_ok.mp hplan
    obtain ⟨templates, _, hplan⟩ := bind_eq_ok.mp hplan
    cases hplan
    cases h
    cases hcompile : o.pathSpec ignoreCase with
    | error problem =>
      rw [hcompile] at hspec
      cases hspec
    | ok compiled =>
      rw [hcompile] at hspec
      cases hspec
      exact ⟨rfl, rfl, spec, hcompile, rfl⟩

lemma ofOptions_ok {o : Options} (h : ofOptions o = .ok e) :
    e.plan.sorting = o.sorting ∧ e.options = o ∧
      ∃ spec, e.scan = (Scan.idle o.errorPolicy).start spec := by
  obtain ⟨hsorting, hoptions, spec, _, hscan⟩ := ofOptions_compiled h
  exact ⟨hsorting, hoptions, spec, hscan⟩

/-- An expansion that has just been set up holds the results of its construction. -/
lemma holds_of_ofOptions {o : Options} (h : ofOptions o = .ok e)
    (hpolicy : o.errorPolicy.NeverStops)
    (hfits : e.plan.Fits e.matcher) : e.Holds r (e.resultsOf r .construction) := by
  obtain ⟨_, _, spec, hscan⟩ := ofOptions_ok h
  have hbase : e.scan.base = some spec := by rw [hscan]; rfl
  refine ⟨?_, ?_, ?_, ?_⟩
  · rw [resultsOf, hscan]
    exact congrArg _ (List.append_nil _)
  · rw [hscan]
    exact Scan.coherent_start _ spec
  · rw [hscan]
    exact hpolicy
  · intro templates htemplates spec'
    rw [hbase]
    have h := hfits templates htemplates
    rw [matcher, Scan.specOf, hbase] at h
    exact h

/-- A scan that has only one root gives the results of that root. -/
lemma alone_gives (hr : r.IsFinite) (hsys : r.FailsBySystem e.plan)
    (hpolicy : e.options.errorPolicy.NeverStops) (hrenders : e.plan.Renders e.scan.base)
    (root : Root) : ∃ s', (e.alone root).Gives r e.plan (e.resultsOf r root) s' := by
  have hcoherent : (e.alone root).Coherent e.plan :=
    ⟨Frame.coherent_initial root, fun _ hf => absurd hf List.not_mem_nil, fun h => by cases h⟩
  obtain ⟨s', hgives, _⟩ := Scan.gives_answersIn hr hsys hcoherent
    (Policy.NeverStops.bears hpolicy _) hrenders
  have hagenda : (e.alone root).agenda r e.plan = Scan.rootAgenda r e.plan e.scan.base root :=
    List.append_nil _
  rw [hagenda] at hgives
  exact ⟨s', hgives⟩

/-- **An expansion answers as a list of results does**, in whatever order it is asked for results,
given paths to queue or to serve first, and dropped.  The results of a root are those that a scan
with no other root gives, with the pattern of the construction to derive from; the list begins as
those of the construction.  A path that is refused changes nothing. -/
theorem replies_eq {t : Tree} (ht : t.IsNamed) {d : Disturbance} (hd : d.IsSystem) {o : Options}
    (hpolicy : o.errorPolicy.NeverStops) (hsort : o.sorting.NeverRaises) {e : Expansion}
    (he : ofOptions o = .ok e) (hfits : e.plan.Fits e.matcher) :
    ∃ results : Root → List Answer,
      (∀ root, ∃ s', (e.alone root).Gives (t.reader d) e.plan (results root) s') ∧
      ∀ calls : List Call, e.replies (t.reader d) calls
        = Queue.replies results e.compileRoot (results .construction) calls := by
  obtain ⟨hsorting, hoptions, _⟩ := ofOptions_ok he
  have hr : (t.reader d).IsFinite := Tree.reader_isFinite ht d
  have hsys : (t.reader d).FailsBySystem e.plan :=
    Tree.reader_failsBySystem hd (by rw [hsorting]; exact hsort)
  have hholds : e.Holds (t.reader d) (e.resultsOf (t.reader d) .construction) :=
    holds_of_ofOptions he hpolicy hfits
  refine ⟨e.resultsOf (t.reader d), ?_, hholds.replies hr hsys⟩
  exact alone_gives hr hsys (by rw [hoptions]; exact hpolicy) hholds.renders

/-- The files of a tree, with a template, queued and served in any order. -/
theorem replies_eq_files :
    ∃ e,
      ofOptions { path := .datum (.text "*"), derive := .datum (.list [.text "$1.bak"]) }
        = .ok e ∧
      ∃ results : Root → List Answer,
        (∀ root, ∃ s', (e.alone root).Gives ((Tree.ofEntries [.path "a", .path "b/c"]).reader .none)
          e.plan (results root) s') ∧
        ∀ calls : List Call,
          e.replies ((Tree.ofEntries [.path "a", .path "b/c"]).reader .none) calls
            = Queue.replies results e.compileRoot (results .construction) calls := by
  have hsome : (ofOptions { path := .datum (.text "*")
                            derive := .datum (.list [.text "$1.bak"]) }).toOption.map
      (fun e => (e.plan.templates.map fun ts => missingGroup? ts e.matcher))
      = some (some none) := by
    decide +kernel
  cases he : ofOptions
      { path := .datum (.text "*"), derive := .datum (.list [.text "$1.bak"]) } with
  | error problem =>
    rw [he] at hsome
    cases hsome
  | ok e =>
    rw [he] at hsome
    refine ⟨e, rfl, replies_eq (Tree.isNamed_ofEntries _) (fun _ h => absurd h List.not_mem_nil)
      (fun _ _ => rfl) (fun _ h => by cases h) he fun templates htemplates => ?_⟩
    simp only [Except.toOption, Option.map_some, htemplates, Option.some.injEq] at hsome
    exact hsome

end Expansion

end PathExpansion
