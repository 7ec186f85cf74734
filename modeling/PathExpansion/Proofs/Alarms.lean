import PathExpansion.Proofs.Exclusion
import PathExpansion.Proofs.Restarts

/-!
# No false alarms

A file, a link that leads nowhere or round in a circle, a link that is not followed, a directory
that is met again below itself: all of them end a descent before anything tries to list them.  So if
nothing is wrong with a filesystem, a scan asks for directories that are there and for nothing else,
and its error policy never hears of anything.

* `Reader.KeepsWord` — what it calls a directory can be listed to the end; `Tree.reader_keepsWord`.
* `Deed.IsCalm` — a deed that opens what is a directory, or hands no fault over.
* `Trip.IsCalm` — a descent with such deeds only; **`Trip.isCalm_walk`**.
* `perform_calm` — what comes of performing them.
* `Expansion.IsCalm` — an expansion that has nothing else left to do, whatever is asked of it.
* **`Expansion.views_calm`** — it raises no alarm.
-/

namespace PathExpansion

/-! ## What a reader vouches for -/

/-- **A reader that keeps its word** for scans with some plan: what it calls a directory can be
listed to the end, in the order that is wanted, and is a directory with a slash behind it too. -/
structure Reader.KeepsWord (r : Reader) (plan : Plan) : Prop where
  root : ∀ spec : PathSpec, r.isDirectory (orDot spec.rootPath)
  append_slash : ∀ {path}, r.isDirectory path → r.isDirectory (path ++ "/")
  lists : ∀ {path}, isEnterable path → r.isDirectory (orDot path) →
    ∃ names, r.listed plan path = .ok ⟨names, none⟩ ∧ ∀ name ∈ names, IsName name

/-- If a path may be entered, it is one of a directory. -/
def Reader.Vouches (r : Reader) (path : String) : Prop :=
  isEnterable path → r.isDirectory (orDot path)

/-- **A deed that raises no alarm**: what it opens is a directory, and it hands no fault over. -/
def Deed.IsCalm (r : Reader) : Deed → Prop
  | .opened path => r.isDirectory path
  | .failed _ => False
  | _ => True

namespace Trip

/-- **A descent that raises no alarm** wherever it comes to: at a path that can be entered, or, if
nothing has to be found inside, at any. -/
def IsCalm (t : Trip) (deep : Bool) (next : Descent) : Prop :=
  ∀ ⦃path visited⦄, (isEnterable path || !deep) → t.reader.Vouches path →
    ∀ d ∈ next path visited, d.IsCalm t.reader

variable {t : Trip} {deep : Bool} {next : Descent} {path name : String} {visited : Visited}

lemma isCalm_arrive (t : Trip) : t.IsCalm false t.arrive := by
  intro path visited _ _ d hd
  rw [List.mem_singleton.mp hd]
  trivial

section

variable (hr : t.reader.KeepsWord t.plan)

include hr

/-- A name that leads nowhere, or where one may not go, leads to a path that cannot be entered. -/
lemma vouches_of_extend (hname : IsName name) {descent : Bool} {p : String × Visited}
    (h : t.extend path visited name descent = some p) : t.reader.Vouches p.1 := by
  intro henter
  rcases extend_place h with hp | ⟨hp, hdir⟩
  · rw [hp, isEnterable_append hname] at henter
    cases henter
  · rw [hp, orDot_append_slash]
    exact hr.append_slash hdir

lemma IsCalm.literal (h : t.IsCalm deep next) (hname : IsName name) (descent : Bool) :
    t.IsCalm true (t.literal name descent deep next) := by
  intro path visited _ _
  rw [Trip.literal, List.forall_mem_cons]
  refine ⟨trivial, ?_⟩
  cases hextend : t.extend path visited name descent with
  | none => exact List.forall_mem_nil _
  | some p =>
    simp only
    split_ifs with hleaf
    · exact List.forall_mem_nil _
    · refine h ?_ (vouches_of_extend hr hname hextend)
      simpa [Bool.or_comm, imp_iff_or_not] using hleaf

lemma IsCalm.listing {next : String → Descent}
    (h : ∀ name, IsName name → t.IsCalm true (next name)) (wanted : String → Bool) :
    t.IsCalm true (t.listing wanted next) := by
  intro path visited hpath hvouch
  have henter : isEnterable path := by simpa using hpath
  obtain ⟨names, hlisted, hnames⟩ := hr.lists henter (hvouch henter)
  have hall : ∀ d ∈ Trip.names wanted next names path visited, d.IsCalm t.reader := by
    rw [Trip.names, List.forall_mem_flatMap]
    intro name hname
    rw [List.forall_mem_cons]
    exact ⟨trivial, h name (hnames name (List.mem_of_mem_filter hname)) hpath hvouch⟩
  rw [Trip.listing, hlisted]
  simp only [List.forall_mem_cons, List.forall_mem_append]
  exact ⟨hvouch henter, ⟨hall, List.forall_mem_nil _⟩, trivial, List.forall_mem_nil _⟩

/-! ### Level by level -/

/-- The directories of a level: each can be entered, and is one. -/
def AreDirectories (t : Trip) (dirs : List (String × Visited)) : Prop :=
  ∀ p ∈ dirs, isEnterable p.1 ∧ t.reader.Vouches p.1

lemma vouches_of_mem_reached {names : List String} (hnames : ∀ name ∈ names, IsName name)
    {p : String × Visited} (hp : p ∈ t.reached names path visited) : t.reader.Vouches p.1 := by
  obtain ⟨name, hname, hextend⟩ := List.mem_filterMap.mp hp
  exact vouches_of_extend hr (hnames name (List.mem_of_mem_filter hname)) hextend

lemma IsCalm.visit (h : t.IsCalm deep next) {p : String × Visited} (henter : isEnterable p.1)
    (hvouch : t.reader.Vouches p.1) : ∀ d ∈ t.visit deep next p, d.IsCalm t.reader := by
  obtain ⟨names, hlisted, hnames⟩ := hr.lists henter (hvouch henter)
  have hall : ∀ d ∈ t.found deep next names p.1 p.2, d.IsCalm t.reader := by
    rw [Trip.found, List.forall_mem_flatMap]
    intro q hq
    obtain ⟨hreached, hwanted⟩ := List.mem_filter.mp hq
    rw [List.forall_mem_cons]
    exact ⟨trivial, h hwanted (vouches_of_mem_reached hr hnames hreached)⟩
  rw [Trip.visit, hlisted]
  simp only [List.forall_mem_cons, List.forall_mem_append]
  exact ⟨hvouch henter, hall, List.forall_mem_nil _⟩

lemma AreDirectories.subdirectories {dirs : List (String × Visited)} (h : t.AreDirectories dirs) :
    t.AreDirectories (dirs.flatMap t.subdirectories) := by
  intro q hq
  obtain ⟨p, hp, hq⟩ := List.mem_flatMap.mp hq
  obtain ⟨henter, hvouch⟩ := h p hp
  obtain ⟨names, hlisted, hnames⟩ := hr.lists henter (hvouch henter)
  rw [Trip.subdirectories, hlisted] at hq
  obtain ⟨hreached, henter⟩ := List.mem_filter.mp hq
  exact ⟨henter, vouches_of_mem_reached hr hnames hreached⟩

lemma IsCalm.levels (h : t.IsCalm deep next) (n : ℕ) {dirs : List (String × Visited)}
    (hdirs : t.AreDirectories dirs) : ∀ d ∈ t.levels deep next n dirs, d.IsCalm t.reader := by
  induction n generalizing dirs with
  | zero => exact List.forall_mem_nil _
  | succ n ih =>
    rw [Trip.levels, List.forall_mem_append, List.forall_mem_flatMap]
    exact ⟨fun p hp => h.visit hr (hdirs p hp).1 (hdirs p hp).2, ih (hdirs.subdirectories hr)⟩

/-! ### Ellipses -/

omit hr in
lemma IsCalm.combine {under : Descent} (h : t.IsCalm deep next) (hunder : t.IsCalm true under) :
    t.IsCalm deep (t.combine next under) := by
  intro path visited hpath hvouch
  have hhere : ∀ d ∈ next path (t.entered path visited), d.IsCalm t.reader := h hpath hvouch
  have hbelow : ∀ d ∈ (if isEnterable path then under path (t.entered path visited) else []),
      d.IsCalm t.reader := by
    split_ifs with henter
    · exact hunder (by rw [henter]; rfl) hvouch
    · exact List.forall_mem_nil _
  rw [Trip.combine]
  cases t.plan.order <;> simp only [List.forall_mem_cons, List.forall_mem_append]
  case insideOut => exact ⟨⟨trivial, hbelow⟩, hhere⟩
  case normal | breadthFirst => exact ⟨⟨trivial, hhere⟩, trivial, hbelow⟩

lemma IsCalm.nested (h : t.IsCalm deep next) (n : ℕ) : t.IsCalm deep (t.nested deep next n) := by
  induction n with
  | zero => exact h.combine fun _ _ _ _ => List.forall_mem_nil _
  | succ n ih => exact h.combine (IsCalm.listing hr (fun name hname => ih.literal hr hname true) _)

lemma IsCalm.byLevel (h : t.IsCalm deep next) (bare : Bool) (n : ℕ) :
    t.IsCalm deep (t.byLevel deep bare next n) := by
  intro path visited hpath hvouch
  have hdirs : t.AreDirectories
      (if isEnterable path then [(path, t.entered path visited)] else []) := by
    intro p hp
    split_ifs at hp with henter
    · rw [List.mem_singleton.mp hp]
      exact ⟨henter, hvouch⟩
    · cases hp
  have hhere : ∀ d ∈ (if bare then [] else next path (t.entered path visited)),
      d.IsCalm t.reader := by
    split_ifs
    · exact List.forall_mem_nil _
    · exact h hpath hvouch
  rw [Trip.byLevel]
  simp only [List.forall_mem_cons, List.forall_mem_append]
  exact ⟨⟨⟨trivial, hhere⟩, h.levels hr n hdirs⟩, trivial, List.forall_mem_nil _⟩

/-- **Whole descents raise no alarm.** -/
theorem isCalm_walk {components : List Component}
    (hnames : ∀ name descent, .literal name descent ∈ components → IsName name) :
    t.IsCalm (needsDirectory components) (t.walk components) := by
  induction components with
  | nil => exact isCalm_arrive t
  | cons c rest ih =>
    have hrest := ih fun name descent h => hnames name descent (List.mem_cons_of_mem c h)
    cases c with
    | literal name descent =>
      exact hrest.literal hr (hnames name descent List.mem_cons_self) descent
    | wildcard w => exact IsCalm.listing hr (fun name hname => hrest.literal hr hname w.descent) _
    | ellipsis =>
      rw [Trip.walk, Trip.ellipsis]
      cases t.plan.order
      case breadthFirst => exact hrest.byLevel hr _ _
      case normal | insideOut => exact hrest.nested hr _

end

end Trip

/-! ## Performing deeds -/

/-- A signal that is no alarm: it goes on, hands something out, or misses a group of a pattern. -/
def Signal.IsCalm (signal : Signal) : Prop :=
  ∀ error, signal = .raised error → ∃ missing, error = .missingGroup missing

lemma isCalm_running : Signal.IsCalm .running := fun error h => by cases h

section

variable {r : Reader} (plan : Plan) (base : Option PathSpec)

lemma isCalm_arrival (r : Reader) (root : Root) (path : String) :
    (arrival r plan base root path).IsCalm := by
  rw [arrival]
  split_ifs
  · cases answerAt plan base root path with
    | ok answer => exact fun error h => by cases h
    | error missing => exact fun error h => by cases h; exact ⟨missing, rfl⟩
  · exact fun error h => by cases h

/-- What calm deeds leave when they are performed: the policy has heard of nothing, what was opened
on the way is a directory, and what is left to do is calm. -/
structure Deed.CalmlyDone (r : Reader) (l : Ledger)
    (done : Ledger × Signal × List Deed) : Prop where
  policy : done.1.policy = l.policy
  opened : ∀ path ∈ done.1.opened, path ∈ l.opened ∨ r.isDirectory path
  signal : done.2.1.IsCalm
  deeds : ∀ d ∈ done.2.2, d.IsCalm r

/-- **Performing calm deeds raises no alarm.** -/
lemma perform_calm {ds : List Deed} (h : ∀ d ∈ ds, d.IsCalm r) (l : Ledger) :
    Deed.CalmlyDone r l (perform r plan base ds l) := by
  induction ds generalizing l with
  | nil => exact ⟨rfl, fun path hpath => Or.inl hpath, isCalm_running, h⟩
  | cons d ds ih =>
    obtain ⟨hd, hds⟩ := List.forall_mem_cons.mp h
    cases d with
    | moved => exact ih hds l
    | opened path =>
      obtain ⟨hpolicy, hopened, hsignal, hdeeds⟩ := ih hds { l with opened := path :: l.opened }
      refine ⟨hpolicy, fun q hq => ?_, hsignal, hdeeds⟩
      rcases hopened q hq with hq | hq
      · rcases List.mem_cons.mp hq with rfl | hq
        · exact Or.inr hd
        · exact Or.inl hq
      · exact Or.inr hq
    | failed incident => exact hd.elim
    | arrived root path =>
      have hcalm := isCalm_arrival plan base r root path
      rw [perform, Deed.effect]
      cases harrival : arrival r plan base root path with
      | running => exact ih hds l
      | _ =>
        rw [harrival] at hcalm
        exact ⟨rfl, fun q hq => Or.inl hq, hcalm, hds⟩

end

/-! ## Expansions -/

/-- All names in a specification are names. -/
def PathSpec.IsNamed (spec : PathSpec) : Prop :=
  ∀ name descent, .literal name descent ∈ spec.components → IsName name

/-- No slash is hidden in the path of a request. -/
def Request.IsSlashFree : Request → Prop
  | .call (.append path _ _) | .call (.prepend path _ _) => path.toPathInput.IsSlashFree
  | _ => True

/-- A response that is no alarm: a result, the end, an error of the caller's own patterns. -/
def Response.IsCalm : Response → Prop
  | .reply .done | .reply (.refused _) | .reply (.outcome (.value _))
  | .reply (.outcome (.raised (.missingGroup _))) => True
  | _ => False

lemma Signal.IsCalm.response {signal : Signal} (h : signal.IsCalm) :
    Response.IsCalm (.reply (.outcome signal.outcome)) := by
  cases signal with
  | raised error =>
    obtain ⟨missing, rfl⟩ := h error rfl
    trivial
  | _ => trivial

namespace Scan

variable {r : Reader} {plan : Plan} {s : Scan}

/-- A root raises no alarm. -/
lemma isCalm_rootAgenda (hr : r.KeepsWord plan) (base : Option PathSpec) (root : Root)
    (hspec : (root.spec base).IsNamed) : ∀ d ∈ rootAgenda r plan base root, d.IsCalm r := by
  have hroot := (root.spec base).isEnterable_rootPath
  rw [rootAgenda, Frame.agenda, Frame.initial, List.forall_mem_cons]
  exact ⟨trivial, Trip.isCalm_walk (t := ⟨r, plan, (root.spec base).follow, root⟩) hr hspec
    (by rw [hroot]; rfl) fun _ => hr.root _⟩

/-- The pattern of results decides nothing about where a scan goes. -/
lemma agenda_setMatcher (s : Scan) (matcher : Pattern) :
    (s.setMatcher matcher).agenda r plan = s.agenda r plan := by
  rw [agenda, agenda, agendaOf, agendaOf]
  refine List.flatMap_congr fun f _ => ?_
  rw [specOf.eq_def, specOf.eq_def, setMatcher]
  cases f.root with
  | queued spec => rfl
  | construction => cases s.base <;> rfl

end Scan

namespace Expansion

/-- **An expansion that raises no alarm**: nothing else is left to do, or to begin with again. -/
structure IsCalm (r : Reader) (policy : Policy) (e : Expansion) : Prop where
  keepsWord : r.KeepsWord e.plan
  systemic : r.FailsBySystem e.plan
  coherent : e.scan.Coherent e.plan
  base : ∃ spec, e.scan.base = some spec ∧ spec.IsNamed
  deeds : ∀ d ∈ e.scan.agenda r e.plan, d.IsCalm r
  policy : e.scan.policy = policy ∨ e.scan.policy = policy.reset

variable {r : Reader} {e : Expansion} {o : Options} {policy : Policy}

/-- What comes of a request: nothing that is an alarm, and what was opened for it is a directory. -/
structure CalmlyAnswered (r : Reader) (policy : Policy) (e e' : Expansion) (response : Response) :
    Prop where
  left : e'.IsCalm r policy
  response : response.IsCalm
  opened : ∀ path ∈ e'.scan.ledger.opened, path ∈ e.scan.ledger.opened ∨ r.isDirectory path

lemma IsCalm.next (hr : r.IsFinite) (h : e.IsCalm r policy) :
    CalmlyAnswered r policy e (e.next r).1 (.reply (.outcome (e.next r).2)) := by
  obtain ⟨houtcome, hledger, hagenda, hbase, hcoherent⟩ :=
    Scan.advance_spec hr h.systemic h.coherent
  obtain ⟨hpolicy, hopened, hsignal, hdeeds⟩ :=
    perform_calm e.plan e.scan.base h.deeds e.scan.ledger
  rw [← hledger] at hpolicy hopened
  rw [← hagenda] at hdeeds
  have hkept : (e.next r).1.scan.policy = e.scan.policy := hpolicy
  refine ⟨⟨h.keepsWord, h.systemic, hcoherent, hbase ▸ h.base, hdeeds, ?_⟩, ?_, hopened⟩
  · rw [hkept]
    exact h.policy
  · exact houtcome ▸ hsignal.response

/-- A further path is of names. -/
lemma isNamed_compileRoot {path absolute follow : Setting} {spec : PathSpec}
    (hpath : path.toPathInput.IsSlashFree) (h : e.compileRoot path absolute follow = .ok spec) :
    spec.IsNamed := by
  rw [compileRoot] at h
  exact fun _ _ => PathSpec.isName_of_compile hpath h

lemma IsCalm.append (h : e.IsCalm r policy) {spec : PathSpec} (hspec : spec.IsNamed) :
    CalmlyAnswered r policy e { e with scan := e.scan.append spec } (.reply .done) := by
  refine ⟨⟨h.keepsWord, h.systemic, h.coherent.append spec, ?_, ?_, ?_⟩, trivial,
    fun path hpath => ?_⟩
  · rw [Scan.base_append]
    exact h.base
  · simp only [Scan.agenda_append h.coherent, List.forall_mem_append]
    exact ⟨h.deeds, Scan.isCalm_rootAgenda h.keepsWord e.scan.base (.queued spec) hspec⟩
  · rw [Scan.policy_append]
    exact h.policy
  · rw [Scan.ledger_append] at hpath
    exact Or.inl hpath

lemma IsCalm.prepend (h : e.IsCalm r policy) {spec : PathSpec} (hspec : spec.IsNamed) :
    CalmlyAnswered r policy e { e with scan := e.scan.prepend spec } (.reply .done) := by
  refine ⟨⟨h.keepsWord, h.systemic, h.coherent.prepend spec, ?_, ?_, ?_⟩, trivial,
    fun path hpath => ?_⟩
  · rw [Scan.base_prepend]
    exact h.base
  · simp only [Scan.agenda_prepend h.coherent, List.forall_mem_append]
    exact ⟨Scan.isCalm_rootAgenda h.keepsWord e.scan.base (.queued spec) hspec, h.deeds⟩
  · rw [Scan.policy_prepend]
    exact h.policy
  · rw [Scan.ledger_prepend] at hpath
    exact Or.inl hpath

lemma IsCalm.reset (h : e.IsCalm r policy) : CalmlyAnswered r policy e e.reset (.reply .done) := by
  obtain ⟨spec, hbase, hspec⟩ := h.base
  rw [reset_of_some hbase]
  refine ⟨⟨h.keepsWord, h.systemic, Scan.coherent_start _ spec, ⟨spec, rfl, hspec⟩, ?_, ?_⟩,
    trivial, fun path hpath => Or.inl hpath⟩
  · have hroot := Scan.isCalm_rootAgenda h.keepsWord (some spec) .construction hspec
    rw [Scan.agenda_start]
    exact hroot
  · right
    rcases h.policy with hpolicy | hpolicy
    · exact congrArg Policy.reset hpolicy
    · have hreset := congrArg Policy.reset hpolicy
      exact hreset

lemma IsCalm.setMatcher (h : e.IsCalm r policy) (matcher : Pattern) :
    CalmlyAnswered r policy e { e with scan := e.scan.setMatcher matcher } (.reply .done) := by
  obtain ⟨spec, hbase, hspec⟩ := h.base
  refine ⟨⟨h.keepsWord, h.systemic, h.coherent.setMatcher matcher,
    ⟨{ spec with matcher := matcher }, ?_, hspec⟩, ?_, h.policy⟩, trivial,
    fun path hpath => Or.inl hpath⟩
  · exact congrArg (Option.map fun spec => { spec with matcher := matcher }) hbase
  · rw [Scan.agenda_setMatcher]
    exact h.deeds

/-- **A request raises no alarm**, and leaves nothing that will. -/
lemma IsCalm.request (hr : r.IsFinite) (h : e.IsCalm r policy) {q : Request} (hq : q.IsSlashFree)
    (hall : q ≠ .all) : CalmlyAnswered r policy e (e.request r q) (e.response r q) := by
  cases q with
  | call c =>
    cases c with
    | next => exact h.next hr
    | append path absolute follow =>
      rw [Expansion.request, Expansion.response, call, Expansion.append]
      cases hcompile : e.compileRoot path absolute follow with
      | error problem => exact ⟨h, trivial, fun path hpath => Or.inl hpath⟩
      | ok spec => exact h.append (isNamed_compileRoot hq hcompile)
    | prepend path absolute follow =>
      rw [Expansion.request, Expansion.response, call, Expansion.prepend]
      cases hcompile : e.compileRoot path absolute follow with
      | error problem => exact ⟨h, trivial, fun path hpath => Or.inl hpath⟩
      | ok spec => exact h.prepend (isNamed_compileRoot hq hcompile)
    | close =>
      exact ⟨⟨h.keepsWord, h.systemic, Scan.coherent_close e.scan, h.base, List.forall_mem_nil _,
        h.policy⟩, trivial, fun path hpath => Or.inl hpath⟩
  | all => exact absurd rfl hall
  | setMatch pattern =>
    rw [Expansion.request, Expansion.response, setMatch]
    cases pattern.toPatternInput.compile e.plan.ignoreCase with
    | error problem => exact ⟨h, trivial, fun path hpath => Or.inl hpath⟩
    | ok matcher => exact h.setMatcher matcher
  | reset => exact h.reset

lemma IsCalm.quiet (h : e.IsCalm r policy) : e.quiet.IsCalm r policy :=
  ⟨h.keepsWord, h.systemic, h.coherent.congr rfl rfl, h.base, h.deeds, h.policy⟩

/-- Requests in a row raise no alarm. -/
lemma IsCalm.views (hr : r.IsFinite) (h : e.IsCalm r policy) {requests : List Request}
    (hrequests : ∀ q ∈ requests, q.IsSlashFree ∧ q ≠ .all) :
    ∀ v ∈ e.views (requests.map (r, ·)),
      v.response.IsCalm ∧ ∀ path ∈ v.opened, r.isDirectory path := by
  induction requests generalizing e with
  | nil => exact List.forall_mem_nil _
  | cons q requests ih =>
    obtain ⟨hq, hrest⟩ := List.forall_mem_cons.mp hrequests
    obtain ⟨hleft, hresponse, hopened⟩ := h.quiet.request hr hq.1 hq.2
    rw [List.map_cons, Expansion.views, List.forall_mem_cons]
    refine ⟨⟨hresponse, fun path hpath => ?_⟩, ih hleft hrest⟩
    -- nothing had been asked for since the log was taken
    have hlog : path ∈ (e.quiet.request r q).scan.ledger.opened := by
      obtain ⟨event, hevent, hopen⟩ := List.mem_filterMap.mp hpath
      exact List.mem_filterMap.mpr ⟨event, List.mem_reverse.mp hevent, hopen⟩
    exact (hopened path hlog).resolve_left List.not_mem_nil

lemma IsCalm.afterRequests (hr : r.IsFinite) (h : e.IsCalm r policy) {requests : List Request}
    (hrequests : ∀ q ∈ requests, q.IsSlashFree ∧ q ≠ .all) :
    (e.afterRequests (requests.map (r, ·))).IsCalm r policy := by
  induction requests generalizing e with
  | nil => exact h
  | cons q requests ih =>
    obtain ⟨hq, hrest⟩ := List.forall_mem_cons.mp hrequests
    exact ih (h.request hr hq.1 hq.2).left hrest

end Expansion

/-! ## Trees -/

/-- A tree in which no directory fails keeps its word. -/
lemma Tree.reader_keepsWord {t : Tree} (ht : t.IsNamed) {d : Disturbance}
    (hd : d.IsQuiet) {plan : Plan}
    (hsort : plan.sorting.NeverRaises) : (t.reader d).KeepsWord plan where
  root spec := by
    obtain ⟨_, hdirectory, hresolves⟩ := t.leadsTo_root spec
    exact isDirectoryPath_iff.mpr ⟨[], hresolves, hdirectory⟩
  append_slash {path} hpath := by
    obtain ⟨place, hplace, hdirectory⟩ := isDirectoryPath_iff.mp hpath
    exact isDirectoryPath_iff.mpr ⟨place, resolve_append_slash hplace hdirectory, hdirectory⟩
  lists {path} henter hpath := by
    obtain ⟨place, hplace, hdirectory⟩ := isDirectoryPath_iff.mp hpath
    have hleads : t.LeadsTo path place := ⟨henter, hdirectory, hplace⟩
    have hopen : (t.reader d).openDirectory (orDot path) = .ok ⟨_, none⟩ := hleads.openPath_eq hd
    obtain ⟨names, hlisted, _⟩ := Reader.listed_of_opened hsort hopen
    exact ⟨names, hlisted, fun name hname => (reader_isFinite ht d).isName hlisted hname⟩

namespace Expansion

/-- **No false alarms.**  As long as nothing is wrong with a tree, whatever links are in it, an
expansion of a path asks only for directories that are there, whatever else is asked of it.  Its
policy never hears of anything, is as it was given or forgot its record when the expansion was
started over, and nothing that is left to do will hand it a fault; and no error comes of asking but
one of the caller's patterns. -/
theorem views_calm {t : Tree} (ht : t.IsNamed) {d : Disturbance} (hd : d.IsQuiet) {o : Options}
    {e : Expansion} (he : ofOptions o = .ok e) (hpath : o.path.toPathInput.IsSlashFree)
    (hsort : o.sorting.NeverRaises) {requests : List Request}
    (hrequests : ∀ q ∈ requests, q.IsSlashFree ∧ q ≠ .all) :
    (∀ v ∈ e.views (requests.map (t.reader d, ·)),
      v.response.IsCalm ∧ ∀ path ∈ v.opened, t.isDirectoryPath path) ∧
    let left := e.afterRequests (requests.map (t.reader d, ·))
    (left.scan.policy = o.errorPolicy ∨ left.scan.policy = o.errorPolicy.reset) ∧
      ∀ incident, .failed incident ∉ left.scan.agenda (t.reader d) left.plan := by
  obtain ⟨hsorting, _, spec, hcompile, hscan⟩ := ofOptions_compiled he
  have hplan : e.plan.sorting.NeverRaises := by
    rw [hsorting]
    exact hsort
  have hr : (t.reader d).IsFinite := Tree.reader_isFinite ht d
  have hword : (t.reader d).KeepsWord e.plan := Tree.reader_keepsWord ht hd hplan
  have hspec : spec.IsNamed := fun _ _ => PathSpec.isName_of_compile hpath hcompile
  have hcalm : e.IsCalm (t.reader d) o.errorPolicy := by
    refine ⟨hword, Tree.reader_failsBySystem hd.isSystem hplan, ?_, ⟨spec, ?_, hspec⟩,
      ?_, Or.inl ?_⟩
    · rw [hscan]
      exact Scan.coherent_start _ spec
    · rw [hscan]
      rfl
    · rw [hscan, Scan.agenda_start]
      exact Scan.isCalm_rootAgenda hword (some spec) .construction hspec
    · rw [hscan]
      rfl
  have hleft := hcalm.afterRequests hr hrequests
  exact ⟨hcalm.views hr hrequests, hleft.policy, fun incident hmem => hleft.deeds _ hmem⟩

/-- A tree with a file, a link back to the root, two links that lead to each other, one that leads
nowhere and one to a file; an expansion is interrupted by another path, and started over. -/
theorem views_calm_links :
    ∃ (t : Tree) (o : Options) (e : Expansion) (requests : List Request),
      t = .ofEntries [.path "a/f", .link "a/up" "/", .link "b" "c", .link "c" "b",
        .link "gone" "nowhere", .link "g" "a/f"] ∧
      o = { path := .datum (.text ".///*/f"), follow := .datum (.truth true) } ∧
      ofOptions o = .ok e ∧
      requests = [.call .next, .call (.prepend (.datum (.text "b/*")) .nothing .nothing),
        .call .next, .reset, .call (.append (.datum (.text "gone///")) .nothing .nothing),
        .call .next, .call .next] ∧
      (∀ v ∈ e.views (requests.map (t.reader .none, ·)),
        v.response.IsCalm ∧ ∀ path ∈ v.opened, t.isDirectoryPath path) ∧
      let left := e.afterRequests (requests.map (t.reader .none, ·))
      (left.scan.policy = o.errorPolicy ∨ left.scan.policy = o.errorPolicy.reset) ∧
        ∀ incident, .failed incident ∉ left.scan.agenda (t.reader .none) left.plan := by
  let o : Options := { path := .datum (.text ".///*/f"), follow := .datum (.truth true) }
  let requests : List Request :=
    [.call .next, .call (.prepend (.datum (.text "b/*")) .nothing .nothing), .call .next, .reset,
      .call (.append (.datum (.text "gone///")) .nothing .nothing), .call .next, .call .next]
  have hrequests : ∀ q ∈ requests, q.IsSlashFree ∧ q ≠ .all := by
    simp only [requests, List.forall_mem_cons]
    exact ⟨⟨trivial, Request.noConfusion⟩, ⟨trivial, Request.noConfusion⟩,
      ⟨trivial, Request.noConfusion⟩, ⟨trivial, Request.noConfusion⟩,
        ⟨trivial, Request.noConfusion⟩,
      ⟨trivial, Request.noConfusion⟩, ⟨trivial, Request.noConfusion⟩, List.forall_mem_nil _⟩
  have hok : (ofOptions o).isOk = true := by decide +kernel
  cases he : ofOptions o with
  | error problem =>
    rw [he] at hok
    cases hok
  | ok e =>
    exact ⟨_, o, e, requests, rfl, rfl, he, rfl, views_calm (Tree.isNamed_ofEntries _) ⟨rfl, rfl⟩ he
      trivial (fun _ h => by cases h) hrequests⟩

end Expansion

end PathExpansion
