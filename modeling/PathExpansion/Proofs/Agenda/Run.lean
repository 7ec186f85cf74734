import PathExpansion.Proofs.Agenda.Length
import PathExpansion.Proofs.Agenda.Moves
import PathExpansion.Proofs.Agenda.Step

/-!
# Asking a scan for its results

One call repeats steps within a bound.  The agenda is shorter than the bound, so a call on a
coherent scan always comes to something, and what it comes to is what `perform` makes of the agenda.

* `repeatTimes` — a step repeated so many times at most; `repeatDoubling` comes to the same.
* **`Scan.advance_spec`** — one call performs the agenda until a deed comes to something.
* `Policy.NeverStops`, `Policy.Bears` — no fault stops a scan, or none of those that deeds hand
  over.
* `Plan.Renders` — no template stands in the way of a result.
* `answersIn` — the results of deeds.
* `Scan.Gives` — calling for the next result until there is none.
* **`Scan.gives_answersIn`** — that gives the results of the agenda, in order.
-/

namespace PathExpansion

/-! ## Repeated steps -/

section

variable {σ ρ : Type}

/-- A step repeated until it comes to something, `n` times at most. -/
def repeatTimes (step : σ → σ ⊕ ρ) : (n : ℕ) → σ → σ ⊕ ρ
  | 0, s => .inl s
  | n + 1, s =>
    match step s with
    | .inl s => repeatTimes step n s
    | .inr r => .inr r

lemma repeatTimes_add (step : σ → σ ⊕ ρ) (m n : ℕ) (s : σ) :
    repeatTimes step (m + n) s = match repeatTimes step m s with
      | .inl s => repeatTimes step n s
      | .inr r => .inr r := by
  induction m generalizing s with
  | zero => rw [Nat.zero_add, repeatTimes]
  | succ m ih =>
    rw [Nat.succ_add, repeatTimes, repeatTimes]
    cases step s with
    | inl s => exact ih s
    | inr r => rfl

lemma repeatStep_eq (step : σ → σ ⊕ ρ) (k : ℕ) (s : σ) :
    repeatStep step k s = repeatTimes step (2 ^ k) s := by
  induction k generalizing s with
  | zero =>
    rw [repeatStep, Nat.pow_zero, repeatTimes]
    cases step s <;> rfl
  | succ k ih =>
    rw [repeatStep, Nat.pow_succ, Nat.mul_two, repeatTimes_add, ih]
    cases repeatTimes step (2 ^ k) s with
    | inl s => exact ih s
    | inr r => rfl

/-- Portions that double make one less than a power of two. -/
lemma repeatDoubling_eq (step : σ → σ ⊕ ρ) (n k : ℕ) (s : σ) :
    repeatDoubling step n k s = repeatTimes step ((2 ^ n - 1) * 2 ^ k) s := by
  induction n generalizing k s with
  | zero => rw [repeatDoubling, Nat.pow_zero, Nat.sub_self, Nat.zero_mul, repeatTimes]
  | succ n ih =>
    have hsplit : (2 ^ (n + 1) - 1) * 2 ^ k = 2 ^ k + (2 ^ n - 1) * 2 ^ (k + 1) := by
      have hpos : 1 ≤ 2 ^ n := Nat.one_le_two_pow
      have hle : 2 ^ n * 2 ^ k ≥ 2 ^ k := Nat.le_mul_of_pos_left _ hpos
      rw [Nat.sub_mul, Nat.sub_mul, Nat.pow_succ, Nat.pow_succ, ← Nat.mul_assoc]
      have hswap : 2 ^ n * 2 * 2 ^ k = 2 ^ n * 2 ^ k * 2 := by rw [Nat.mul_right_comm]
      omega
    rw [repeatDoubling, hsplit, repeatTimes_add, repeatStep_eq]
    cases repeatTimes step (2 ^ k) s with
    | inl s => exact ih (k + 1) s
    | inr r => rfl

end

/-! ## One call -/

/-- What a signal comes to for a caller.  If a scan has run through its agenda, nothing is left. -/
def Signal.outcome : Signal → Outcome (Option Answer)
  | .running => .value none
  | .answered answer => .value answer
  | .raised error => .raised error

section

variable {r : Reader} {plan : Plan} {s : Scan}

/-- **What a call leaves behind**, and what it comes to, if it performs the agenda of a scan. -/
structure Scan.Called (r : Reader) (plan : Plan) (s : Scan)
    (result : Scan × Outcome (Option Answer)) : Prop where
  outcome : result.2 = (perform r plan s.base (s.agenda r plan) s.ledger).2.1.outcome
  ledger : result.1.ledger = (perform r plan s.base (s.agenda r plan) s.ledger).1
  agenda : result.1.agenda r plan = (perform r plan s.base (s.agenda r plan) s.ledger).2.2
  base : result.1.base = s.base
  coherent : result.1.Coherent plan

namespace Scan

lemma agenda_of_finished (hs : s.Coherent plan) (hphase : s.frame.phase = .finished) :
    s.agenda r plan = [] := by
  rw [agenda_eq, hs.finished hphase, Frame.agenda, hphase]
  rfl

/-- A scan with nothing on its agenda is over. -/
lemma isFinished_of_agenda (hr : r.IsFinite) (hsys : r.FailsBySystem plan) (hs : s.Coherent plan)
    (hagenda : s.agenda r plan = []) : s.isFinished := by
  by_cases hphase : s.frame.phase = .finished
  · simp [isFinished, hphase, hs.finished hphase]
  · have hshorter := (turn_carriesOut hr hsys hs hphase).shorter
    rw [hagenda] at hshorter
    exact absurd hshorter (Nat.not_lt_zero _)

/-- Repeating the step of a scan often enough. -/
lemma repeatTimes_called (hr : r.IsFinite) (hsys : r.FailsBySystem plan) (n : ℕ)
    (hs : s.Coherent plan) (hlength : (s.agenda r plan).length < n) :
    ∃ result, repeatTimes (towardsNext r plan) n s = .inr result ∧ s.Called r plan result := by
  induction n generalizing s with
  | zero => exact absurd hlength (Nat.not_lt_zero _)
  | succ n ih =>
    rw [repeatTimes, towardsNext]
    by_cases hphase : s.frame.phase = .finished
    · obtain ⟨s', hturn, hframe, hstack, hbase, hledger⟩ :=
        turn_finished r plan hphase
      have hs' : s'.Coherent plan := hs.congr hframe hstack
      have hagenda := agenda_of_finished (r := r) hs hphase
      have hagenda' := agenda_of_finished (r := r) hs' (by rw [hframe]; exact hphase)
      rw [hturn]
      refine ⟨_, rfl, ?_, ?_, ?_, hbase, hs'⟩
      · rw [hagenda]; rfl
      · rw [hagenda]; exact hledger
      · rw [hagenda]; exact hagenda'
    · have hturn := turn_carriesOut hr hsys hs hphase
      have hs' := hs.turn (r := r)
      obtain ⟨hperform, hshorter, hbase⟩ := hturn
      rcases hstep : s.turn r plan with ⟨s', signal⟩
      rw [hstep] at hperform hshorter hbase hs'
      cases signal with
      | running =>
        have hless : (s'.agenda r plan).length < n :=
          Nat.lt_of_lt_of_le hshorter (Nat.le_of_lt_succ hlength)
        obtain ⟨result, hrepeat, hcalled⟩ := ih hs' hless
        refine ⟨result, hrepeat, ?_, ?_, ?_, hcalled.base.trans hbase, hcalled.coherent⟩
        · rw [hperform, hcalled.outcome, hbase]
        · rw [hperform, hcalled.ledger, hbase]
        · rw [hperform, hcalled.agenda, hbase]
      | answered answer =>
        refine ⟨_, rfl, ?_, ?_, ?_, hbase, hs'⟩ <;> rw [hperform]
        rfl
      | raised error =>
        refine ⟨_, rfl, ?_, ?_, ?_, hbase, hs'⟩ <;> rw [hperform]
        rfl

/-- The bound on a call is never spent: its steps come to something before. -/
lemma advance_called (hr : r.IsFinite) (hsys : r.FailsBySystem plan) (hs : s.Coherent plan) :
    (∃ n, repeatTimes (towardsNext r plan) n s = .inr (s.advance r plan)) ∧
      s.Called r plan (s.advance r plan) := by
  have hlength := s.length_agenda_le plan hr
  obtain ⟨result, hrepeat, hcalled⟩ := repeatTimes_called hr hsys (2 ^ s.patience r - 1) hs
    (by omega)
  have hadvance : s.advance r plan = result := by
    rw [advance, repeatDoubling_eq, Nat.pow_zero, Nat.mul_one, hrepeat]
  rw [hadvance]
  exact ⟨⟨_, hrepeat⟩, hcalled⟩

/-- **One call performs the agenda until a deed comes to something.** -/
theorem advance_spec (hr : r.IsFinite) (hsys : r.FailsBySystem plan) (hs : s.Coherent plan) :
    s.Called r plan (s.advance r plan) := (advance_called hr hsys hs).2

end Scan

/-! ## All calls -/

/-- **A policy that never stops a scan**, whatever it has recorded. -/
def Policy.NeverStops (p : Policy) : Prop :=
  ∀ record i, ({ p with record := record }.handle i).stop = none

lemma Policy.NeverStops.stop_eq {p : Policy} (h : p.NeverStops) (i : Incident) :
    (p.handle i).stop = none := h p.record i

lemma Policy.NeverStops.handle {p : Policy} (h : p.NeverStops) (i : Incident) :
    (p.handle i).policy.NeverStops := by
  intro record j
  rw [p.handle_manner i]
  exact h record j

/-- None of the faults that deeds will hand over stops the scan. -/
def Policy.Bears : Policy → List Deed → Prop
  | _, [] => True
  | p, .failed incident :: ds =>
    (p.handle incident).stop = none ∧ (p.handle incident).policy.Bears ds
  | p, _ :: ds => p.Bears ds

lemma Policy.NeverStops.bears {p : Policy} (h : p.NeverStops) (ds : List Deed) : p.Bears ds := by
  induction ds generalizing p with
  | nil => trivial
  | cons d ds ih =>
    cases d with
    | failed incident => exact ⟨h.stop_eq incident, ih (h.handle incident)⟩
    | _ => exact ih h

/-- Where nothing fails, any policy will do. -/
lemma Policy.bears_of_forall (p : Policy) {ds : List Deed}
    (h : ∀ d ∈ ds, ∀ incident, d ≠ .failed incident) : p.Bears ds := by
  induction ds with
  | nil => trivial
  | cons d ds ih =>
    rw [List.forall_mem_cons] at h
    cases d with
    | failed incident => exact absurd rfl (h.1 incident)
    | _ => exact ih h.2

/-- The templates refer to no group that the pattern of the construction does not have. -/
def Plan.Renders (plan : Plan) (base : Option PathSpec) : Prop :=
  ∀ templates, plan.templates = some templates → ∀ spec : PathSpec,
    missingGroup? templates (base.getD spec).matcher = none

/-- The result that a deed comes to, if it does. -/
def Deed.answer? (r : Reader) (plan : Plan) (base : Option PathSpec) : Deed → Option Answer
  | .arrived root path =>
    match arrival r plan base root path with
    | .answered answer => answer
    | _ => none
  | _ => none

/-- The results that deeds come to. -/
def answersIn (r : Reader) (plan : Plan) (base : Option PathSpec) (ds : List Deed) : List Answer :=
  ds.filterMap (·.answer? r plan base)

/-- The directories asked for so far, and those that deeds will ask for; latest first. -/
def Ledger.openedAfter (l : Ledger) (ds : List Deed) : List String :=
  (ds.filterMap Deed.openedPath?).reverse ++ l.opened

/-- The policy after the faults that deeds will hand over. -/
def Policy.after (p : Policy) (ds : List Deed) : Policy :=
  ds.foldl (fun p d => match d with
    | .failed incident => (p.handle incident).policy
    | _ => p) p

/-- Arriving comes to a result or to nothing. -/
lemma arrival_eq {base : Option PathSpec} (h : plan.Renders base) (root : Root) (path : String) :
    arrival r plan base root path = .running ∨
      ∃ answer, arrival r plan base root path = .answered (some answer) := by
  unfold arrival
  split
  · unfold answerAt
    cases htemplates : plan.templates with
    | none => exact Or.inr ⟨_, rfl⟩
    | some templates =>
      simp only [derivePaths, h templates htemplates]
      exact Or.inr ⟨_, rfl⟩
  · exact Or.inl rfl

/-- Deeds of which the first result has been taken: nothing that was to come is lost, of results,
directories or faults. -/
structure Deed.FirstTaken (r : Reader) (plan : Plan) (base : Option PathSpec) (ds : List Deed)
    (l : Ledger) (ds' : List Deed) (m : Ledger) : Prop where
  answers : answersIn r plan base ds' = (answersIn r plan base ds).tail
  finished : answersIn r plan base ds = [] → ds' = []
  bears : m.policy.Bears ds'
  neverStops : l.policy.NeverStops → m.policy.NeverStops
  opened : m.openedAfter ds' = l.openedAfter ds
  policy : m.policy.after ds' = l.policy.after ds

/-- A deed without result may be put in front. -/
lemma Deed.FirstTaken.cons {base : Option PathSpec} {d : Deed} {ds ds' : List Deed}
    {l m n : Ledger} (hanswer : d.answer? r plan base = none)
    (hpolicy : l.policy.NeverStops → m.policy.NeverStops)
    (hopened : m.openedAfter ds = l.openedAfter (d :: ds))
    (hafter : m.policy.after ds = l.policy.after (d :: ds))
    (h : Deed.FirstTaken r plan base ds m ds' n) :
    Deed.FirstTaken r plan base (d :: ds) l ds' n := by
  have hanswers : answersIn r plan base (d :: ds) = answersIn r plan base ds := by
    unfold answersIn
    rw [List.filterMap_cons_none hanswer]
  exact ⟨by rw [hanswers]; exact h.answers, by rw [hanswers]; exact h.finished, h.bears,
    fun hl => h.neverStops (hpolicy hl), h.opened.trans hopened, h.policy.trans hafter⟩

/-- What the first of some results comes to. -/
def firstSignal : Option Answer → Signal
  | none => .running
  | some answer => .answered (some answer)

/-- **Performing deeds takes their first result**, where nothing stops it. -/
lemma perform_firstTaken {base : Option PathSpec} (hrenders : plan.Renders base) (ds : List Deed)
    (l : Ledger) (hbears : l.policy.Bears ds) :
    ∃ m ds', perform r plan base ds l = (m, firstSignal (answersIn r plan base ds).head?, ds') ∧
      Deed.FirstTaken r plan base ds l ds' m := by
  induction ds generalizing l with
  | nil => exact ⟨l, [], rfl, rfl, fun _ => rfl, trivial, id, rfl, rfl⟩
  | cons d ds ih =>
    -- a deed without result leaves everything to the others
    have hskip : ∀ k : Ledger, d.effect r plan base l = (k, .running) →
        d.answer? r plan base = none → k.policy.Bears ds →
        (l.policy.NeverStops → k.policy.NeverStops) →
        k.openedAfter ds = l.openedAfter (d :: ds) →
        k.policy.after ds = l.policy.after (d :: ds) →
        ∃ m ds', perform r plan base (d :: ds) l
            = (m, firstSignal (answersIn r plan base (d :: ds)).head?, ds') ∧
          Deed.FirstTaken r plan base (d :: ds) l ds' m := by
      intro k heffect hanswer hk hpolicy hopened hafter
      obtain ⟨m, ds', hperform, htaken⟩ := ih k hk
      refine ⟨m, ds', ?_, htaken.cons hanswer hpolicy hopened hafter⟩
      rw [perform, heffect, answersIn, List.filterMap_cons_none hanswer]
      exact hperform
    cases d with
    | moved => exact hskip l rfl rfl hbears id rfl rfl
    | opened path =>
      refine hskip { l with opened := path :: l.opened } rfl rfl hbears id ?_ rfl
      simp [Ledger.openedAfter, Deed.openedPath?]
    | failed incident =>
      refine hskip { l with policy := (l.policy.handle incident).policy } ?_ rfl
        hbears.2 (fun hl => hl.handle incident) rfl rfl
      simp only [Deed.effect, hbears.1]
    | arrived root path =>
      rcases arrival_eq (r := r) hrenders root path with harrival | ⟨answer, harrival⟩
      · refine hskip l ?_ ?_ hbears id rfl rfl
        · rw [Deed.effect, harrival]
        · rw [Deed.answer?, harrival]
      · have hanswer : (Deed.arrived root path).answer? r plan base = some answer := by
          rw [Deed.answer?, harrival]
        have hanswers : answersIn r plan base (.arrived root path :: ds)
            = answer :: answersIn r plan base ds := List.filterMap_cons_some hanswer
        refine ⟨l, ds, ?_, ?_⟩
        · rw [hanswers, perform, Deed.effect, harrival]
          rfl
        · refine ⟨by rw [hanswers]; rfl, fun h => ?_, hbears, id, rfl, rfl⟩
          rw [hanswers] at h
          cases h

/-- What a call comes to if nothing stops it: the first result of the agenda is taken. -/
lemma Scan.advance_firstTaken (hr : r.IsFinite) (hsys : r.FailsBySystem plan)
    (hs : s.Coherent plan) (hbears : s.policy.Bears (s.agenda r plan))
    (hrenders : plan.Renders s.base) :
    ∃ s', s.advance r plan = (s', .value (answersIn r plan s.base (s.agenda r plan)).head?) ∧
      Deed.FirstTaken r plan s.base (s.agenda r plan) s.ledger (s'.agenda r plan) s'.ledger ∧
      s'.Coherent plan ∧ s'.base = s.base := by
  obtain ⟨m, ds, hperform, htaken⟩ :=
    perform_firstTaken (r := r) hrenders (s.agenda r plan) s.ledger hbears
  obtain ⟨houtcome, hledger, hagenda, hbase, hcoherent⟩ := advance_spec hr hsys hs
  rw [hperform] at houtcome hledger hagenda
  refine ⟨(s.advance r plan).1, Prod.ext rfl (houtcome.trans ?_), ?_, hcoherent, hbase⟩
  · cases (answersIn r plan s.base (s.agenda r plan)).head? <;> rfl
  · rw [hagenda, hledger]
    exact htaken

/-- **Calling a scan for its next result until there is none**: the results it gives, and the scan
that is left. -/
inductive Scan.Gives (r : Reader) (plan : Plan) : Scan → List Answer → Scan → Prop
  | done {s s' : Scan} (h : s.advance r plan = (s', .value none)) : Gives r plan s [] s'
  | more {s m s' : Scan} {answer : Answer} {answers : List Answer}
      (h : s.advance r plan = (m, .value (some answer))) (hrest : Gives r plan m answers s') :
      Gives r plan s (answer :: answers) s'

/-- **A scan gives the results of its agenda, in order**, and has nothing to do then. -/
theorem Scan.gives_answersIn (hr : r.IsFinite) (hsys : r.FailsBySystem plan) (hs : s.Coherent plan)
    (hbears : s.policy.Bears (s.agenda r plan)) (hrenders : plan.Renders s.base) :
    ∃ s', s.Gives r plan (answersIn r plan s.base (s.agenda r plan)) s' ∧
      s'.agenda r plan = [] ∧ s'.Coherent plan ∧ s'.base = s.base ∧
      s'.ledger.opened = s.ledger.openedAfter (s.agenda r plan) ∧
      s'.policy = s.policy.after (s.agenda r plan) := by
  generalize hanswers : answersIn r plan s.base (s.agenda r plan) = answers
  induction answers generalizing s with
  | nil =>
    obtain ⟨s', hadvance, htaken, hs', hbase⟩ :=
      advance_firstTaken hr hsys hs hbears hrenders
    obtain ⟨_, hfinished, _, _, hopened, hafter⟩ := htaken
    rw [hanswers] at hadvance
    have hagenda := hfinished hanswers
    rw [hagenda] at hopened hafter
    exact ⟨s', .done hadvance, hagenda, hs', hbase, hopened, hafter⟩
  | cons answer answers ih =>
    obtain ⟨m, hadvance, htaken, hm, hbase⟩ := advance_firstTaken hr hsys hs hbears hrenders
    rw [hanswers] at hadvance
    have htail := htaken.answers
    rw [hanswers] at htail
    obtain ⟨s', hgives, hagenda, hs', hbase', hopened, hafter⟩ :=
      ih hm htaken.bears (by rw [hbase]; exact hrenders) (by rw [hbase]; exact htail)
    exact ⟨s', .more hadvance hgives, hagenda, hs', hbase'.trans hbase,
      hopened.trans htaken.opened, hafter.trans htaken.policy⟩

end

end PathExpansion
