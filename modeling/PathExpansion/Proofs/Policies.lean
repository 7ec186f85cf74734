import PathExpansion.Proofs.Agenda.Results
import PathExpansion.Proofs.Agenda.Transcript
import PathExpansion.Proofs.PathQueue

/-!
# What an error policy decides

A fault that is handed to the error policy may stop the scan wherever it is: between two directories
of a level, in the middle of a listing, or before a glob has seen a name.  Nothing that was still to
be done is lost by it.  A policy decides which errors a caller gets and what is recorded, and
nothing else.

* `Manner.stops` — the errors of a policy that is handed faults in a row.
* `Policy.stops_eq`, `Policy.record_handleAll` — each policy stops and records as its manner says.
* `Scan.RunsThrough` — what a caller gets that goes on after errors, and what the policy is handed.
* `Expansion.Begins` — an expansion that has been set up, or started over.
* **`Expansion.policies_agree`** — the results are the same under every policy, and so are the
  faults.
-/

namespace PathExpansion

/-! ## One policy -/

/-- **The errors with which a policy stops** that is handed faults in a row, if so many were
recorded before. -/
def Manner.stops (recorded : ℕ) (incidents : List Incident) : Manner → List PolicyStop
  | .failFast => incidents.map fun i => .raised i.fault
  | .threshold limit _ =>
    (incidents.drop (limit - recorded).toNat).map fun i => .thresholdExceeded limit i.fault
  | .collect | .tolerant _ | .indifferent => []

namespace Policy

/-- A policy with a limit stops at each fault beyond it. -/
lemma stops_threshold (limit : ℤ) (verbose : Bool) (incidents record : List Incident) :
    stops ⟨.threshold limit verbose, record⟩ incidents
      = (Manner.threshold limit verbose).stops record.length incidents := by
  induction incidents generalizing record with
  | nil => simp [stops, Manner.stops]
  | cons i is ih =>
    have hcount : (record ++ [i]).length = record.length + 1 := by simp
    have hrest := ih (record ++ [i])
    rw [hcount] at hrest
    rw [stops, handle]
    simp only [Manner.stops, hcount] at hrest ⊢
    by_cases hlimit : limit < (record.length + 1 : ℕ)
    · have hnow : (limit - record.length).toNat = 0 := by omega
      have hnext : (limit - (record.length + 1 : ℕ)).toNat = 0 := by omega
      rw [hnext] at hrest
      simp only [if_pos hlimit, hnow, hrest]
      rfl
    · have hnow : (limit - record.length).toNat = (limit - (record.length + 1 : ℕ)).toNat + 1 := by
        omega
      simp only [if_neg hlimit, hnow, hrest]
      rfl

lemma NeverStops.stops_eq_nil {p : Policy} (h : p.NeverStops) (incidents : List Incident) :
    p.stops incidents = [] := by
  induction incidents generalizing p with
  | nil => rfl
  | cons i is ih =>
    rw [stops, h.stop_eq i, ih (h.handle i)]
    rfl

/-- **A policy stops as its manner says.** -/
theorem stops_eq (p : Policy) (incidents : List Incident) :
    p.stops incidents = p.manner.stops p.record.length incidents := by
  obtain ⟨manner, record⟩ := p
  cases manner with
  | threshold limit verbose => exact stops_threshold limit verbose incidents record
  | failFast =>
    induction incidents with
    | nil => rfl
    | cons i is ih => exact congrArg _ ih
  | collect | tolerant _ | indifferent =>
    exact NeverStops.stops_eq_nil (fun _ _ => rfl) incidents

/-- **A policy that records keeps every fault it is handed**, and one that does not none. -/
theorem record_handleAll (p : Policy) (incidents : List Incident) :
    (p.handleAll incidents).record
      = if p.manner.records then p.record ++ incidents else p.record := by
  induction incidents generalizing p with
  | nil => simp [handleAll]
  | cons i is ih =>
    have hstep : p.handleAll (i :: is) = (p.handle i).policy.handleAll is := rfl
    have hrecord : (p.handle i).policy.record
        = if p.manner.records then p.record ++ [i] else p.record := by
      rw [handle]
      cases hmanner : p.manner with
      | threshold limit verbose =>
        simp only
        split <;> rfl
      | _ => rfl
    rw [hstep, ih, p.handle_manner, hrecord]
    cases p.manner.records with
    | true => simp
    | false => rfl

end Policy

/-! ## One scan -/

namespace Scan

/-- **A scan runs through**: a caller that goes on after errors gets these results and these errors
of deriving paths, in order, and the policy is handed these faults.  It stops as its manner says,
and records them all if it keeps a record. -/
def RunsThrough (r : Reader) (plan : Plan) (answers : List Answer) (refusals : List MissingGroup)
    (incidents : List Incident) (s : Scan) : Prop :=
  ∃ outcomes s', s.Exhausts r plan outcomes s' ∧ s'.isFinished ∧
    outcomes.answers = answers ∧ outcomes.refusals = refusals ∧ outcomes.faults = [] ∧
    outcomes.stops = s.policy.manner.stops s.policy.record.length incidents ∧
    s'.policy.record
      = if s.policy.manner.records then s.policy.record ++ incidents else s.policy.record

/-- **A scan runs through what is on its agenda.** -/
theorem runsThrough_agenda {r : Reader} {plan : Plan} {s : Scan} (hr : r.IsFinite)
    (hsys : r.FailsBySystem plan) (hs : s.Coherent plan) :
    s.RunsThrough r plan (answersIn r plan s.base (s.agenda r plan))
      ((s.agenda r plan).filterMap (·.refusal? r plan s.base)) (incidentsIn (s.agenda r plan)) := by
  obtain ⟨s', hexhausts, hagenda, hs', hledger⟩ := exhausts_transcript hr hsys hs
  refine ⟨_, s', hexhausts, isFinished_of_agenda hr hsys hs' hagenda, answers_transcript _ _,
    refusals_transcript _ _, faults_transcript _ _, ?_, ?_⟩
  · rw [stops_transcript]
    exact Policy.stops_eq _ _
  · have hpolicy : s'.policy = _ := congrArg Ledger.policy hledger
    rw [hpolicy, policy_after]
    exact Policy.record_handleAll _ _

/-- The manner of a policy never changes. -/
lemma manner_perform (r : Reader) (plan : Plan) (base : Option PathSpec) (ds : List Deed)
    (l : Ledger) : (perform r plan base ds l).1.policy.manner = l.policy.manner := by
  induction ds generalizing l with
  | nil => rfl
  | cons d ds ih =>
    have heffect : (d.effect r plan base l).1.policy.manner = l.policy.manner := by
      cases d with
      | failed incident => exact l.policy.handle_manner incident
      | _ => rfl
    rw [perform]
    rcases h : d.effect r plan base l with ⟨m, signal⟩
    rw [h] at heffect
    cases signal with
    | running => exact (ih m).trans heffect
    | _ => exact heffect

end Scan

/-- Nothing is wrong with any policy. -/
lemma Options.problems_policy {o : Options} (p : Policy)
    (h : o.problems.mapError SetupError.type = .ok []) :
    { o with policy := .policy p }.problems.mapError SetupError.type = .ok [] := by
  cases hderive : deriveProblem? o.derive with
  | error problem =>
    rw [problems, hderive] at h
    cases h
  | ok derive =>
    rw [problems, hderive] at h ⊢
    have hlisted := Except.ok.inj h
    simp only [List.append_eq_nil_iff] at hlisted
    refine congrArg Except.ok ?_
    simp only [List.append_eq_nil_iff]
    exact ⟨⟨hlisted.1.1, rfl⟩, hlisted.2⟩

namespace Expansion

variable {r : Reader} {o : Options} {e e' : Expansion}

/-- An expansion after calls in a row. -/
def afterCalls (r : Reader) (e : Expansion) (calls : List Call) : Expansion :=
  calls.foldl (fun e c => (e.call r c).1) e

/-- **An expansion at its beginning**: it has just been set up from options, or was started over
after it had been used. -/
inductive Begins (r : Reader) (o : Options) : Expansion → Prop
  | setUp {e : Expansion} (h : ofOptions o = .ok e) : Begins r o e
  | startedOver {e : Expansion} (h : Begins r o e) (calls : List Call) :
      Begins r o (e.afterCalls r calls).reset

/-- What calls leave as it is. -/
structure Keeps (e e' : Expansion) : Prop where
  setup : SameSetup e e'
  manner : e'.scan.policy.manner = e.scan.policy.manner
  coherent : e'.scan.Coherent e'.plan

lemma Keeps.trans {e'' : Expansion} (h : Keeps e e') (h' : Keeps e' e'') : Keeps e e'' := by
  obtain ⟨⟨hplan, hoptions, hbase⟩, hmanner, _⟩ := h
  obtain ⟨⟨hplan', hoptions', hbase'⟩, hmanner', hcoherent⟩ := h'
  exact ⟨⟨hplan'.trans hplan, hoptions'.trans hoptions, hbase'.trans hbase⟩,
    hmanner'.trans hmanner, hcoherent⟩

lemma keeps_call (hr : r.IsFinite) (hsys : r.FailsBySystem e.plan)
    (he : e.scan.Coherent e.plan) (c : Call) : Keeps e (e.call r c).1 := by
  obtain ⟨s, heq, hs⟩ := e.exists_afterCall r c
  rw [heq]
  cases hs with
  | kept => exact ⟨⟨rfl, rfl, rfl⟩, rfl, he⟩
  | advanced =>
    have hcalled := Scan.advance_spec hr hsys he
    refine ⟨⟨rfl, rfl, hcalled.base⟩, ?_, hcalled.coherent⟩
    have hpolicy : (e.scan.advance r e.plan).1.policy = _ := congrArg Ledger.policy hcalled.ledger
    exact (congrArg Policy.manner hpolicy).trans (Scan.manner_perform ..)
  | appended spec =>
    exact ⟨⟨rfl, rfl, e.scan.base_append spec⟩,
      congrArg Policy.manner (e.scan.policy_append spec), he.append spec⟩
  | prepended spec =>
    exact ⟨⟨rfl, rfl, e.scan.base_prepend spec⟩,
      congrArg Policy.manner (e.scan.policy_prepend spec), he.prepend spec⟩
  | closed => exact ⟨⟨rfl, rfl, rfl⟩, rfl, Scan.coherent_close e.scan⟩

lemma keeps_afterCalls (hr : r.IsFinite) (hsys : r.FailsBySystem e.plan)
    (he : e.scan.Coherent e.plan) (calls : List Call) : Keeps e (e.afterCalls r calls) := by
  induction calls generalizing e with
  | nil => exact ⟨⟨rfl, rfl, rfl⟩, rfl, he⟩
  | cons c calls ih =>
    have hcall := keeps_call hr hsys he c
    exact hcall.trans (ih (by rw [hcall.setup.1]; exact hsys) hcall.coherent)

/-- An expansion at its beginning has the plan that it was set up with, nothing but its construction
to do, and its policy as it was given or with an empty record. -/
lemma Begins.scan_eq (hr : r.IsFinite) {plan : Plan} (hsys : r.FailsBySystem plan) {spec : PathSpec}
    (hsetUp : ∀ e, ofOptions o = .ok e →
      e.plan = plan ∧ e.scan = (Scan.idle o.errorPolicy).start spec) (h : e.Begins r o) :
    e.plan = plan ∧ (e.scan.policy = o.errorPolicy ∨ e.scan.policy = o.errorPolicy.reset) ∧
      ∃ s : Scan, e.scan = s.start spec := by
  induction h with
  | setUp h =>
    obtain ⟨hplan, hscan⟩ := hsetUp _ h
    exact ⟨hplan, Or.inl (by rw [hscan]; rfl), _, hscan⟩
  | @startedOver e h calls ih =>
    obtain ⟨hplan, hpolicy, s, hscan⟩ := ih
    obtain ⟨⟨hplan', _, hbase⟩, hmanner, _⟩ := keeps_afterCalls hr (by rw [hplan]; exact hsys)
      (by rw [hscan]; exact Scan.coherent_start s spec) calls
    have hbase' : (e.afterCalls r calls).scan.base = some spec := by
      rw [hbase, hscan]
      rfl
    have hgiven : e.scan.policy.manner = o.errorPolicy.manner := by
      rcases hpolicy with h | h
      · rw [h]
      · rw [h]
        rfl
    rw [reset]
    simp only [hbase']
    exact ⟨hplan'.trans hplan, Or.inr (congrArg Policy.fresh (hmanner.trans hgiven)), _, rfl⟩

/-- Options that can be used can be used with any policy, which changes nothing but itself. -/
lemma ofOptions_policy (h : ofOptions o = .ok e) :
    ∃ spec, ∀ p, ofOptions { o with policy := .policy p }
      = .ok ⟨{ o with policy := .policy p }, e.plan, (Scan.idle p).start spec⟩ := by
  obtain ⟨problems, hproblems, h⟩ := bind_eq_ok.mp h
  split at h
  · cases h
  · next hnone =>
    obtain ⟨ignoreCase, hcase, h⟩ := bind_eq_ok.mp h
    obtain ⟨spec, hspec, h⟩ := bind_eq_ok.mp h
    obtain ⟨plan, hplan, h⟩ := bind_eq_ok.mp h
    cases h
    rw [Decidable.not_not.mp hnone] at hproblems
    refine ⟨spec, fun p => bind_eq_ok.mpr ⟨[], Options.problems_policy p hproblems, ?_⟩⟩
    rw [if_neg (by simp)]
    exact bind_eq_ok.mpr ⟨ignoreCase, hcase, bind_eq_ok.mpr ⟨spec, hspec,
      bind_eq_ok.mpr ⟨plan, hplan, rfl⟩⟩⟩

/-- **A policy decides only what is raised and what is recorded.**  A caller that goes on after
errors until nothing is left gets the same results under every policy, and the policy is handed the
same faults, wherever they arise and wherever it stops the scan.  This holds from the start, and
again whenever the expansion is started over, with the record then empty. -/
theorem policies_agree {t : Tree} (ht : t.IsNamed) {d : Disturbance} (hd : d.IsSystem)
    (hsort : o.sorting.FailsBySystem) (he : ofOptions o = .ok e) :
    ∃ (answers : List Answer) (refusals : List MissingGroup) (incidents : List Incident),
      ∀ p : Policy, (∃ e, ofOptions { o with policy := .policy p } = .ok e) ∧
        ∀ e : Expansion, e.Begins (t.reader d) { o with policy := .policy p } →
          (e.scan.policy = p ∨ e.scan.policy = p.reset) ∧
            e.scan.RunsThrough (t.reader d) e.plan answers refusals incidents := by
  have hr : (t.reader d).IsFinite := Tree.reader_isFinite ht d
  have hsys : (t.reader d).FailsBySystem e.plan :=
    Tree.listed_failsBySystem hd (by rw [(ofOptions_ok he).1]; exact hsort)
  obtain ⟨spec, hpolicy⟩ := ofOptions_policy he
  -- what a scan has to do at the start is the same whatever it did before
  let ds := Deed.moved :: (spec.trip (t.reader d) e.plan).walk spec.components spec.rootPath []
  refine ⟨answersIn (t.reader d) e.plan (some spec) ds,
    ds.filterMap (·.refusal? (t.reader d) e.plan (some spec)), incidentsIn ds,
    fun p => ⟨⟨_, hpolicy p⟩, fun e' hbegins => ?_⟩⟩
  obtain ⟨hplan, hgiven, s, hscan⟩ := hbegins.scan_eq hr hsys fun e' he' => by
    rw [hpolicy p] at he'
    cases he'
    exact ⟨rfl, rfl⟩
  refine ⟨hgiven, ?_⟩
  have hs : (s.start spec).Coherent e.plan := Scan.coherent_start s spec
  have hthrough := Scan.runsThrough_agenda hr hsys hs
  rw [s.agenda_start spec] at hthrough
  rw [hplan, hscan]
  exact hthrough

/-- A comparison that fails on one path. -/
def refusing (path : String) : PathComparison := fun a b =>
  if a = path ∨ b = path then .error ⟨.permission, []⟩ else .ok (if a < b then -1 else 1)

lemma failsBySystem_refusing (path : String) :
    (Sorting.byComparison (refusing path)).FailsBySystem := by
  intro compare hcompare a b fault hfault
  cases hcompare
  unfold refusing at hfault
  split at hfault
  · cases hfault
    rfl
  · cases hfault

/-- A directory that cannot be opened, one that fails while it is read, and one whose names cannot
be put in order. -/
theorem policies_agree_disturbed :
    ∃ o e, o.path = .datum (.text "*/*") ∧ o.sort = .comparison (refusing "c/z") ∧
      ofOptions o = .ok e ∧
    ∃ t d, t = Tree.ofEntries [.path "a/x", .path "b/x", .path "c/y", .path "c/z", .path "d/x"] ∧
      d = ⟨[("a", .permission)], [("b", 0)], true⟩ ∧
    ∃ (answers : List Answer) (refusals : List MissingGroup) (incidents : List Incident),
      ∀ p : Policy, (∃ e, ofOptions { o with policy := .policy p } = .ok e) ∧
        ∀ e : Expansion, e.Begins (t.reader d) { o with policy := .policy p } →
          (e.scan.policy = p ∨ e.scan.policy = p.reset) ∧
            e.scan.RunsThrough (t.reader d) e.plan answers refusals incidents := by
  have hok : (ofOptions
      { path := .datum (.text "*/*"), sort := .comparison (refusing "c/z") }).isOk :=
    by decide +kernel
  cases he : ofOptions { path := .datum (.text "*/*"), sort := .comparison (refusing "c/z") } with
  | error problem =>
    rw [he] at hok
    cases hok
  | ok e =>
    exact ⟨_, e, rfl, rfl, he, _, _, rfl, rfl, policies_agree (Tree.isNamed_ofEntries _)
      (List.forall_mem_singleton.mpr rfl) (failsBySystem_refusing "c/z") he⟩

end Expansion

end PathExpansion
