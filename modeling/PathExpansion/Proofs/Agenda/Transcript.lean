import PathExpansion.Proofs.Agenda.Run

/-!
# Going on after errors

A caller need not give up when a scan raises an error: it can go on asking until there is no result
left.  What it gets on the way, results and errors, is a *transcript*, and the agenda of the scan
tells it in advance.  Only the errors of the policy, and the policy itself, depend on the policy.

* `Transcript`, `Scan.Exhausts` — asking for the next result until there is none, and going on after
  errors.
* `transcript`, `Ledger.after` — what deeds come to, and the ledger behind them.
* **`Scan.exhausts_transcript`** — a scan comes to an end, with the transcript of its agenda.
* `Transcript.answers`, `Transcript.stops`, `Transcript.refusals`, `Transcript.faults` — the results
  in a transcript, and its errors by where they come from; `answers_transcript`, `stops_transcript`,
  `refusals_transcript`, `faults_transcript` say what they are.
-/

namespace PathExpansion

/-- What a caller gets of one call after the other. -/
abbrev Transcript := List (Except ScanError Answer)

/-- **Asking a scan for its next result until there is none**, and going on after each error: what
the caller gets, and the scan that is left. -/
inductive Scan.Exhausts (r : Reader) (plan : Plan) : Scan → Transcript → Scan → Prop
  | done {s s' : Scan} (h : s.advance r plan = (s', .value none)) : Exhausts r plan s [] s'
  | answered {s m s' : Scan} {answer : Answer} {outcomes : Transcript}
      (h : s.advance r plan = (m, .value (some answer))) (hrest : Exhausts r plan m outcomes s') :
      Exhausts r plan s (.ok answer :: outcomes) s'
  | raised {s m s' : Scan} {error : ScanError} {outcomes : Transcript}
      (h : s.advance r plan = (m, .raised error)) (hrest : Exhausts r plan m outcomes s') :
      Exhausts r plan s (.error error :: outcomes) s'

/-- What a caller gets from a signal, if anything. -/
def Signal.result? : Signal → Option (Except ScanError Answer)
  | .running | .answered none => none
  | .answered (some answer) => some (.ok answer)
  | .raised error => some (.error error)

section

variable (r : Reader) (plan : Plan) (base : Option PathSpec)

/-- What a caller gets from deeds, in order. -/
def transcript : List Deed → Ledger → Transcript
  | [], _ => []
  | d :: ds, l =>
    (d.effect r plan base l).2.result?.toList ++ transcript ds (d.effect r plan base l).1

/-- The ledger behind deeds. -/
def Ledger.after (l : Ledger) (ds : List Deed) : Ledger :=
  ds.foldl (fun l d => (d.effect r plan base l).1) l

end

section

variable {r : Reader} {plan : Plan} {base : Option PathSpec}

/-- No deed is the end of a scan. -/
lemma Deed.effect_ne_end (r : Reader) (plan : Plan) (base : Option PathSpec) (d : Deed)
    (l : Ledger) :
    (d.effect r plan base l).2 ≠ .answered none := by
  cases d with
  | moved => exact Signal.noConfusion
  | opened path => exact Signal.noConfusion
  | failed incident =>
    rw [Deed.effect]
    cases (l.policy.handle incident).stop <;> exact Signal.noConfusion
  | arrived root path =>
    rw [Deed.effect, arrival]
    split_ifs
    · cases answerAt plan base root path <;> simp
    · exact Signal.noConfusion

/-- **Performing deeds takes the first entry off their transcript**, and leaves the other entries
and the ledger behind them as they would have been. -/
lemma perform_transcript (r : Reader) (plan : Plan) (base : Option PathSpec) (ds : List Deed)
    (l : Ledger) :
    (∃ m, perform r plan base ds l = (m, .running, []) ∧ transcript r plan base ds l = [] ∧
      l.after r plan base ds = m) ∨
    ∃ m signal ds' entry, perform r plan base ds l = (m, signal, ds') ∧
      signal.result? = some entry ∧ ds'.length < ds.length ∧
      transcript r plan base ds l = entry :: transcript r plan base ds' m ∧
      l.after r plan base ds = m.after r plan base ds' := by
  induction ds generalizing l with
  | nil => exact Or.inl ⟨l, rfl, rfl, rfl⟩
  | cons d ds ih =>
    have hend := d.effect_ne_end r plan base l
    have hafter : l.after r plan base (d :: ds)
        = (d.effect r plan base l).1.after r plan base ds := rfl
    rw [hafter, perform, transcript]
    rcases heffect : d.effect r plan base l with ⟨m, signal⟩
    rw [heffect] at hend
    cases signal with
    | running =>
      rcases ih m with hnone | ⟨n, signal, ds', entry, hperform, hentry, hlength, hrest⟩
      · exact Or.inl hnone
      · exact Or.inr ⟨n, signal, ds', entry, hperform, hentry, Nat.lt_succ_of_lt hlength, hrest⟩
    | answered answer =>
      cases answer with
      | none => exact absurd rfl hend
      | some answer =>
        exact Or.inr ⟨m, _, ds, .ok answer, rfl, rfl, Nat.lt_succ_self _, rfl, rfl⟩
    | raised error =>
      exact Or.inr ⟨m, _, ds, .error error, rfl, rfl, Nat.lt_succ_self _, rfl, rfl⟩

/-- **A scan comes to an end, with the transcript of its agenda**, whatever its policy does: each
call comes to something, and after finitely many there is nothing left. -/
theorem Scan.exhausts_transcript (hr : r.IsFinite) (hsys : r.FailsBySystem plan) {s : Scan}
    (hs : s.Coherent plan) :
    ∃ s', s.Exhausts r plan (transcript r plan s.base (s.agenda r plan) s.ledger) s' ∧
      s'.agenda r plan = [] ∧ s'.Coherent plan ∧
      s'.ledger = s.ledger.after r plan s.base (s.agenda r plan) := by
  generalize hlength : (s.agenda r plan).length = n
  induction n using Nat.strong_induction_on generalizing s with
  | _ n ih =>
    obtain ⟨houtcome, hledger, hagenda, hbase, hcoherent⟩ := advance_spec hr hsys hs
    rcases hadvance : s.advance r plan with ⟨m, outcome⟩
    rw [hadvance] at houtcome hledger hagenda hbase hcoherent
    simp only at houtcome hledger hagenda hbase hcoherent
    rcases perform_transcript r plan s.base (s.agenda r plan) s.ledger with
      ⟨l, hperform, htranscript, hafter⟩ |
      ⟨l, signal, ds, entry, hperform, hentry, hshorter, htranscript, hafter⟩
    · rw [hperform] at houtcome hledger hagenda
      rw [htranscript, hafter]
      exact ⟨m, .done (by rw [hadvance, houtcome]; rfl), hagenda, hcoherent, hledger⟩
    · rw [hperform] at houtcome hledger hagenda
      obtain ⟨s', hrest, hnil, hs', hledger'⟩ :=
        ih _ (by rw [← hlength, hagenda]; exact hshorter) hcoherent rfl
      rw [hagenda, hbase, hledger] at hrest hledger'
      rw [htranscript, hafter]
      refine ⟨s', ?_, hnil, hs', hledger'⟩
      match signal, hentry with
      | .answered (some answer), hentry =>
        cases hentry
        exact .answered (by rw [hadvance, houtcome]; rfl) hrest
      | .raised error, hentry =>
        cases hentry
        exact .raised (by rw [hadvance, houtcome]; rfl) hrest

end

/-! ## What a transcript holds -/

namespace Transcript

/-- The results in a transcript. -/
def answers (outcomes : Transcript) : List Answer := outcomes.filterMap Except.toOption

/-- The errors with which the policy stopped the scan. -/
def stops (outcomes : Transcript) : List PolicyStop :=
  outcomes.filterMap fun
    | .error (.policy stop) => some stop
    | _ => none

/-- The errors of deriving paths. -/
def refusals (outcomes : Transcript) : List MissingGroup :=
  outcomes.filterMap fun
    | .error (.missingGroup e) => some e
    | _ => none

/-- The errors that are not handed to the policy. -/
def faults (outcomes : Transcript) : List Fault :=
  outcomes.filterMap fun
    | .error (.fault f) => some f
    | _ => none

end Transcript

/-- The fault that a deed hands over. -/
def Deed.incident? : Deed → Option Incident
  | .failed incident => some incident
  | _ => none

/-- The faults that deeds hand over. -/
def incidentsIn (ds : List Deed) : List Incident := ds.filterMap Deed.incident?

/-- What a deed comes to without a policy: only arriving does. -/
def Deed.onArrival (r : Reader) (plan : Plan) (base : Option PathSpec) : Deed → Signal
  | .arrived root path => arrival r plan base root path
  | _ => .running

/-- The error of deriving paths that a deed comes to, if it does. -/
def Deed.refusal? (r : Reader) (plan : Plan) (base : Option PathSpec) : Deed → Option MissingGroup
  | .arrived root path =>
    match arrival r plan base root path with
    | .raised (.missingGroup e) => some e
    | _ => none
  | _ => none

/-- The errors with which a policy stops that is handed faults in a row. -/
def Policy.stops : Policy → List Incident → List PolicyStop
  | _, [] => []
  | p, i :: is => (p.handle i).stop.toList ++ (p.handle i).policy.stops is

/-- A policy that was handed faults in a row. -/
def Policy.handleAll (p : Policy) (is : List Incident) : Policy :=
  is.foldl (fun p i => (p.handle i).policy) p

section

variable {r : Reader} {plan : Plan} {base : Option PathSpec}

/-- Arriving comes to a result, to an error of deriving paths, or to nothing. -/
lemma arrival_cases (r : Reader) (plan : Plan) (base : Option PathSpec) (root : Root)
    (path : String) :
    arrival r plan base root path = .running ∨
      (∃ answer, arrival r plan base root path = .answered (some answer)) ∨
      ∃ e, arrival r plan base root path = .raised (.missingGroup e) := by
  rw [arrival]
  split_ifs
  · cases answerAt plan base root path with
    | ok answer => exact Or.inr (Or.inl ⟨answer, rfl⟩)
    | error e => exact Or.inr (Or.inr ⟨e, rfl⟩)
  · exact Or.inl rfl

/-- What handing over a fault comes to. -/
lemma result?_failed (incident : Incident) (l : Ledger) :
    ((Deed.failed incident).effect r plan base l).2.result?
      = (l.policy.handle incident).stop.map fun stop => .error (.policy stop) := by
  rw [Deed.effect]
  cases (l.policy.handle incident).stop <;> rfl

/-- **Entries that no policy has a part in come from arriving**: they do not depend on the
ledger. -/
lemma filterMap_transcript {α : Type} {pick : Except ScanError Answer → Option α}
    (hpick : ∀ stop, pick (.error (.policy stop)) = none) (ds : List Deed) (l : Ledger) :
    (transcript r plan base ds l).filterMap pick
      = ds.filterMap fun d => (d.onArrival r plan base).result?.bind pick := by
  induction ds generalizing l with
  | nil => rfl
  | cons d ds ih =>
    have hdeed : (d.effect r plan base l).2.result?.bind pick
        = (d.onArrival r plan base).result?.bind pick := by
      cases d with
      | failed incident =>
        rw [result?_failed]
        cases (l.policy.handle incident).stop with
        | none => rfl
        | some stop => exact hpick stop
      | _ => rfl
    rw [transcript, List.filterMap_append, ih, List.filterMap_cons, ← hdeed]
    cases (d.effect r plan base l).2.result? with
    | none => rfl
    | some entry =>
      rw [Option.toList_some, List.filterMap_cons, List.filterMap_nil, Option.bind_some]
      cases pick entry <;> rfl

/-- **The results of a transcript do not depend on the policy.** -/
lemma answers_transcript (ds : List Deed) (l : Ledger) :
    (transcript r plan base ds l).answers = answersIn r plan base ds := by
  rw [Transcript.answers, filterMap_transcript fun _ => rfl]
  refine List.filterMap_congr fun d _ => ?_
  cases d with
  | arrived root path =>
    rw [Deed.onArrival, Deed.answer?]
    rcases arrival_cases r plan base root path with h | ⟨answer, h⟩ | ⟨e, h⟩ <;> rw [h] <;> rfl
  | _ => rfl

/-- **The errors of deriving paths do not depend on the policy.** -/
lemma refusals_transcript (ds : List Deed) (l : Ledger) :
    (transcript r plan base ds l).refusals = ds.filterMap (·.refusal? r plan base) := by
  rw [Transcript.refusals, filterMap_transcript fun _ => rfl]
  refine List.filterMap_congr fun d _ => ?_
  cases d with
  | arrived root path =>
    rw [Deed.onArrival, Deed.refusal?]
    rcases arrival_cases r plan base root path with h | ⟨answer, h⟩ | ⟨e, h⟩ <;> rw [h] <;> rfl
  | _ => rfl

/-- Every error is one of the policy or one of deriving paths. -/
lemma faults_transcript (ds : List Deed) (l : Ledger) :
    (transcript r plan base ds l).faults = [] := by
  rw [Transcript.faults, filterMap_transcript fun _ => rfl, List.filterMap_eq_nil_iff]
  intro d _
  cases d with
  | arrived root path =>
    rw [Deed.onArrival]
    rcases arrival_cases r plan base root path with h | ⟨answer, h⟩ | ⟨e, h⟩ <;> rw [h] <;> rfl
  | _ => rfl

/-- **The errors of the policy are those with which it stops** when it is handed the faults in
order. -/
lemma stops_transcript (ds : List Deed) (l : Ledger) :
    (transcript r plan base ds l).stops = l.policy.stops (incidentsIn ds) := by
  induction ds generalizing l with
  | nil => rfl
  | cons d ds ih =>
    have hsplit : (transcript r plan base (d :: ds) l).stops
        = Transcript.stops (d.effect r plan base l).2.result?.toList
          ++ (transcript r plan base ds (d.effect r plan base l).1).stops := List.filterMap_append
    rw [hsplit, ih]
    cases d with
    | failed incident =>
      rw [result?_failed,
        show incidentsIn (.failed incident :: ds) = incident :: incidentsIn ds from rfl,
        Policy.stops]
      cases (l.policy.handle incident).stop <;> rfl
    | arrived root path =>
      rw [Deed.effect]
      rcases arrival_cases r plan base root path with h | ⟨answer, h⟩ | ⟨e, h⟩ <;> rw [h] <;> rfl
    | _ => rfl

/-- The policy behind deeds was handed their faults. -/
lemma policy_after (ds : List Deed) (l : Ledger) :
    (l.after r plan base ds).policy = l.policy.handleAll (incidentsIn ds) := by
  induction ds generalizing l with
  | nil => rfl
  | cons d ds ih => cases d <;> exact ih _

/-- The directories asked for behind deeds. -/
lemma opened_after (ds : List Deed) (l : Ledger) :
    (l.after r plan base ds).opened = l.openedAfter ds := by
  induction ds generalizing l with
  | nil => rfl
  | cons d ds ih =>
    have hafter : l.after r plan base (d :: ds)
        = (d.effect r plan base l).1.after r plan base ds := rfl
    rw [hafter, ih]
    cases d with
    | opened path => simp [Ledger.openedAfter, Deed.effect, Deed.openedPath?]
    | _ => rfl

end

end PathExpansion
