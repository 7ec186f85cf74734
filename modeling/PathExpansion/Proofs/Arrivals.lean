import PathExpansion.Proofs.Alarms

/-!
# Where a descent arrives

A descent puts names behind a path: one for each component that is a name or a glob, and as many as
there are for an ellipsis.  So the names of a path at which it arrives are divided among the
components, whatever is left out and whether or not links are followed.  The pattern made from the
same components finds each such path, unless a line break is in the way of an ellipsis; a scan with
that pattern gives all that it arrives at.

* `Deed.IsFor`, `Trip.isOwn_walk` — a descent arrives for the root of its trip.
* `arrivalsIn` — the existing paths at which deeds arrive.
* `Trip.exists_share` — the names that one component puts behind a path.
* **`Trip.exists_division`** — the names of a path at which a descent arrives are divided among its
  components.
* **`PathSpec.gives_arrivals`** — a scan whose pattern is its own gives all that it arrives at.
-/

namespace PathExpansion

/-! ## The root of a descent -/

/-- A deed of some root: if it arrives, then for that root. -/
def Deed.IsFor (root : Root) : Deed → Prop
  | .arrived root' _ => root' = root
  | _ => True

namespace Trip

/-- **A descent for the root of a trip.** -/
def IsOwn (t : Trip) (next : Descent) : Prop :=
  ∀ path visited, ∀ d ∈ next path visited, d.IsFor t.root

variable {t : Trip} {deep : Bool} {next : Descent}

lemma isFor_readFault (root : Root) (path : String) (fault : Option Fault) :
    ∀ d ∈ Deed.readFault path fault, d.IsFor root := by
  cases fault with
  | none => exact List.forall_mem_nil _
  | some fault => exact List.forall_mem_singleton.mpr trivial

lemma IsOwn.literal (h : t.IsOwn next) (name : String) (descent deep : Bool) :
    t.IsOwn (t.literal name descent deep next) := by
  intro path visited
  rw [Trip.literal, List.forall_mem_cons]
  refine ⟨trivial, ?_⟩
  cases t.extend path visited name descent with
  | none => exact List.forall_mem_nil _
  | some p =>
    simp only
    split_ifs
    · exact List.forall_mem_nil _
    · exact h p.1 p.2

lemma isOwn_listing {next : String → Descent} (h : ∀ name, t.IsOwn (next name))
    (wanted : String → Bool) : t.IsOwn (t.listing wanted next) := by
  intro path visited
  rw [Trip.listing, List.forall_mem_cons]
  refine ⟨trivial, ?_⟩
  cases t.reader.listed t.plan path with
  | error fault => exact List.forall_mem_singleton.mpr trivial
  | ok l =>
    simp only [List.forall_mem_append, names, List.forall_mem_flatMap, List.forall_mem_cons]
    exact ⟨⟨fun name _ => ⟨trivial, h name path visited⟩, isFor_readFault t.root path l.fault⟩,
      trivial, List.forall_mem_nil _⟩

lemma IsOwn.combine {under : Descent} (h : t.IsOwn next) (hunder : t.IsOwn under) :
    t.IsOwn (t.combine next under) := by
  intro path visited
  have hbelow : ∀ d ∈ (if isEnterable path then under path (t.entered path visited) else []),
      d.IsFor t.root := by
    split_ifs
    · exact hunder _ _
    · exact List.forall_mem_nil _
  rw [Trip.combine]
  cases t.plan.order with
  | insideOut =>
    simp only [List.cons_append, List.forall_mem_cons, List.forall_mem_append]
    exact ⟨trivial, hbelow, h _ _⟩
  | normal | breadthFirst =>
    simp only [List.cons_append, List.forall_mem_cons, List.forall_mem_append]
    exact ⟨trivial, h _ _, trivial, hbelow⟩

lemma IsOwn.nested (h : t.IsOwn next) (deep : Bool) (n : ℕ) : t.IsOwn (t.nested deep next n) := by
  induction n with
  | zero => exact h.combine fun _ _ => List.forall_mem_nil _
  | succ n ih => exact h.combine (isOwn_listing (fun name => ih.literal name true deep) _)

lemma IsOwn.visit (h : t.IsOwn next) (deep : Bool) (d : String × Visited) :
    ∀ e ∈ t.visit deep next d, e.IsFor t.root := by
  rw [Trip.visit, List.forall_mem_cons]
  refine ⟨trivial, ?_⟩
  cases t.reader.listed t.plan d.1 with
  | error fault => exact List.forall_mem_singleton.mpr trivial
  | ok l =>
    simp only [found, List.forall_mem_append, List.forall_mem_flatMap, List.forall_mem_cons]
    exact ⟨fun p _ => ⟨trivial, h p.1 p.2⟩, isFor_readFault t.root d.1 l.fault⟩

lemma IsOwn.levels (h : t.IsOwn next) (deep : Bool) (n : ℕ) (dirs : List (String × Visited)) :
    ∀ e ∈ t.levels deep next n dirs, e.IsFor t.root := by
  induction n generalizing dirs with
  | zero => exact List.forall_mem_nil _
  | succ n ih =>
    rw [Trip.levels]
    simp only [List.forall_mem_append, List.forall_mem_flatMap]
    exact ⟨fun d _ => h.visit deep d, ih _⟩

lemma IsOwn.byLevel (h : t.IsOwn next) (deep bare : Bool) (n : ℕ) :
    t.IsOwn (t.byLevel deep bare next n) := by
  intro path visited
  have hhere : ∀ d ∈ (if bare then [] else next path (t.entered path visited)),
      d.IsFor t.root := by
    split_ifs
    · exact List.forall_mem_nil _
    · exact h _ _
  rw [Trip.byLevel]
  simp only [List.forall_mem_cons, List.forall_mem_append]
  exact ⟨⟨⟨trivial, hhere⟩, h.levels deep n _⟩, trivial, List.forall_mem_nil _⟩

/-- Whole descents are for the root of their trip. -/
lemma isOwn_walk (components : List Component) : t.IsOwn (t.walk components) := by
  induction components with
  | nil => exact fun path visited => List.forall_mem_singleton.mpr rfl
  | cons c rest ih =>
    cases c with
    | literal name descent => exact ih.literal name descent _
    | wildcard w => exact isOwn_listing (fun name => ih.literal name w.descent _) _
    | ellipsis =>
      rw [Trip.walk, Trip.ellipsis]
      cases t.plan.order with
      | breadthFirst => exact ih.byLevel _ _ _
      | normal | insideOut => exact ih.nested _ _

end Trip

/-! ## Arrivals -/

/-- The existing path at which a deed arrives. -/
def Deed.arrival? (r : Reader) : Deed → Option String
  | .arrived _ path => if r.isPresent path then some path else none
  | _ => none

/-- **The existing paths at which deeds arrive**, in order. -/
def arrivalsIn (r : Reader) (ds : List Deed) : List String := ds.filterMap (·.arrival? r)

section

variable {r : Reader}

@[simp] lemma arrivalsIn_moved (ds : List Deed) :
    arrivalsIn r (.moved :: ds) = arrivalsIn r ds := rfl

@[simp] lemma arrivalsIn_append (ds ds' : List Deed) :
    arrivalsIn r (ds ++ ds') = arrivalsIn r ds ++ arrivalsIn r ds' := List.filterMap_append

/-- If a pattern finds all paths at which a construction arrives, they are the paths that are
found. -/
lemma filterMap_sightsIn_of_finds {spec : PathSpec} {ds : List Deed}
    (hown : ∀ d ∈ ds, d.IsFor .construction)
    (hfinds : ∀ path ∈ arrivalsIn r ds, spec.matcher.finds path) :
    (sightsIn r (some spec) ds).filterMap Sight.path? = arrivalsIn r ds := by
  rw [sightsIn, List.filterMap_filterMap]
  refine List.filterMap_congr fun d hd => ?_
  cases d with
  | arrived root path =>
    obtain rfl : root = .construction := hown _ hd
    rw [Deed.sight?, Deed.arrival?]
    cases hpresent : r.isPresent path with
    | false => rw [Bool.and_false]; rfl
    | true =>
      have harrival : (Deed.arrived .construction path).arrival? r = some path := if_pos hpresent
      have hfound : (Root.construction.spec (some spec)).matcher.finds path = true :=
        hfinds path (List.mem_filterMap.mpr ⟨_, hd, harrival⟩)
      rw [hfound]
      rfl
  | _ => rfl

end

/-! ## The names of one component -/

/-- No name that a reader lists has a line break. -/
def Reader.ListsLines (r : Reader) : Prop :=
  ∀ ⦃path l⦄, r.openDirectory path = .ok l → ∀ name ∈ l.names, '\n' ∉ name.toList

lemma joinNames_singleton (name : String) (slash : Bool) :
    joinNames [name] slash = name ++ if slash then "/" else "" := by
  rw [joinNames_of_ne_nil (List.cons_ne_nil name []), String.intercalate_singleton]

lemma joinNames_cons {names : List String} (h : names ≠ []) (name : String) (slash : Bool) :
    joinNames (name :: names) slash = name ++ "/" ++ joinNames names slash := by
  rw [← List.singleton_append, joinNames_append fun hnil => absurd hnil h,
    joinNames_singleton, if_pos rfl]

namespace Trip

variable {t : Trip} {path name : String} {visited : Visited} {deep descent : Bool}
  {q : String × Visited}

/-- **A path is behind another by some names**: they follow it, and if it can be entered, a slash
follows each of them. -/
def IsBehind (path : String) (names : List String) (q : String) : Prop :=
  (∃ slash, q = path ++ joinNames names slash) ∧
    (isEnterable q → q = path ++ joinNames names true)

lemma isBehind_nil (path : String) : IsBehind path [] path := by
  simp [IsBehind]

lemma isBehind_of_mem_step (hname : IsName name) (hq : q ∈ t.step name descent deep path visited) :
    IsBehind path [name] q.1 := by
  have hextend := Option.mem_toList.mp (List.mem_of_mem_filter hq)
  simp only [IsBehind, joinNames_singleton]
  rcases extend_place hextend with hplace | ⟨hplace, -⟩
  · rw [hplace]
    refine ⟨⟨false, by simp⟩, fun henter => ?_⟩
    rw [isEnterable_append hname] at henter
    cases henter
  · rw [hplace, String.append_assoc]
    exact ⟨⟨true, rfl⟩, fun _ => rfl⟩

/-- Names behind names. -/
lemma IsBehind.trans {names others : List String} {p q : String} (h : IsBehind path names p)
    (hp : isEnterable p) (hothers : others ≠ []) (hq : IsBehind p others q) :
    IsBehind path (names ++ others) q := by
  obtain ⟨⟨slash, hslash⟩, henter⟩ := hq
  have hnames := h.2 hp
  refine ⟨⟨slash, ?_⟩, fun hq => ?_⟩
  · rw [hslash, hnames, String.append_assoc, joinNames_append fun hnil => absurd hnil hothers]
  · rw [henter hq, hnames, String.append_assoc, joinNames_append fun _ => rfl]

section

variable (hr : t.reader.IsFinite)

include hr

lemma exists_of_mem_steps {wanted : String → Bool}
    (hq : q ∈ t.steps wanted descent deep path visited) :
    ∃ l name, t.reader.listed t.plan path = .ok l ∧ name ∈ l.names ∧ wanted name ∧
      IsBehind path [name] q.1 := by
  rw [steps] at hq
  cases hl : t.reader.listed t.plan path with
  | error fault =>
    rw [hl] at hq
    cases hq
  | ok l =>
    rw [hl] at hq
    obtain ⟨name, hname, hq⟩ := List.mem_flatMap.mp hq
    obtain ⟨hmem, hwanted⟩ := List.mem_filter.mp hname
    exact ⟨l, name, rfl, hmem, hwanted, isBehind_of_mem_step (hr.isName hl hmem) hq⟩

variable (hlines : t.reader.ListsLines)

include hlines

omit hr in
lemma newline_not_mem_of_listed {l : Listing} (hl : t.reader.listed t.plan path = .ok l)
    (hname : name ∈ l.names) : '\n' ∉ name.toList := by
  obtain ⟨l', hl', hperm⟩ := Reader.listed_perm hl
  exact hlines hl' name (hperm.subset hname)

/-- Below some directories one comes by names without a line break. -/
lemma exists_of_mem_depths {n : ℕ} {dirs : List (String × Visited)}
    (hq : q ∈ t.depths deep n dirs) :
    ∃ d ∈ dirs, ∃ names, names ≠ [] ∧ (∀ name ∈ names, '\n' ∉ name.toList) ∧
      IsBehind d.1 names q.1 := by
  induction n generalizing dirs with
  | zero => cases hq
  | succ n ih =>
    rw [depths, List.mem_append] at hq
    rcases hq with hq | hq
    · obtain ⟨d, hd, hq⟩ := List.mem_flatMap.mp hq
      obtain ⟨l, name, hl, hname, -, hbehind⟩ := exists_of_mem_steps hr hq
      exact ⟨d, hd, [name], List.cons_ne_nil name [],
        List.forall_mem_singleton.mpr (newline_not_mem_of_listed hlines hl hname), hbehind⟩
    · obtain ⟨p, hp, names, hne, hnames, hbehind⟩ := ih hq
      obtain ⟨d, hd, hp⟩ := List.mem_flatMap.mp hp
      rw [subdirectories_eq true] at hp
      obtain ⟨hp, henter⟩ := List.mem_filter.mp hp
      obtain ⟨l, name, hl, hname, -, hfirst⟩ := exists_of_mem_steps hr hp
      refine ⟨d, hd, [name] ++ names, List.cons_ne_nil name names, ?_,
        hfirst.trans henter hne hbehind⟩
      exact List.forall_mem_cons.mpr ⟨newline_not_mem_of_listed hlines hl hname, hnames⟩

/-- **The names that a component puts behind a path** are such as it stands for; those of an
ellipsis have no line break. -/
lemma exists_share {c : Component} (hname : ∀ name descent, c = .literal name descent → IsName name)
    (hq : q ∈ t.leads deep c path visited) :
    ∃ share, c.takes share ∧ (c = .ellipsis → ∀ name ∈ share, '\n' ∉ name.toList) ∧
      IsBehind path share q.1 := by
  cases c with
  | literal name descent =>
    exact ⟨[name], beq_self_eq_true [name], Component.noConfusion,
      isBehind_of_mem_step (hname name descent rfl) hq⟩
  | wildcard w =>
    obtain ⟨l, name, -, -, hwanted, hbehind⟩ := exists_of_mem_steps hr hq
    exact ⟨[name], (Bool.and_eq_true_iff.mp hwanted).2, Component.noConfusion, hbehind⟩
  | ellipsis =>
    rcases List.mem_cons.mp hq with rfl | hq
    · exact ⟨[], rfl, fun _ => List.forall_mem_nil _, isBehind_nil path⟩
    · obtain ⟨d, hd, names, -, hnames, hbehind⟩ := exists_of_mem_depths hr hlines hq
      split_ifs at hd
      · rw [List.mem_singleton.mp hd] at hbehind
        exact ⟨names, rfl, fun _ => hnames, hbehind⟩
      · cases hd

end

/-- Where something has to be found inside, a component leads to what can be entered. -/
lemma enterable_of_mem_depths {n : ℕ} {dirs : List (String × Visited)}
    (hq : q ∈ t.depths deep n dirs) : isEnterable q.1 || !deep := by
  induction n generalizing dirs with
  | zero => cases hq
  | succ n ih =>
    rw [depths, List.mem_append] at hq
    rcases hq with hq | hq
    · obtain ⟨d, -, hq⟩ := List.mem_flatMap.mp hq
      exact enterable_of_mem_steps hq
    · exact ih hq

lemma enterable_of_mem_leads {c : Component} (hpath : isEnterable path)
    (hq : q ∈ t.leads deep c path visited) : isEnterable q.1 || !deep := by
  cases c with
  | literal name descent => exact enterable_of_mem_step hq
  | wildcard w => exact enterable_of_mem_steps hq
  | ellipsis =>
    rcases List.mem_cons.mp hq with rfl | hq
    · rw [hpath, Bool.true_or]
    · exact enterable_of_mem_depths hq

lemma isEnterable_of_mem_leads {c : Component} (hpath : isEnterable path)
    (hq : q ∈ t.leads true c path visited) : isEnterable q.1 := by
  have henter := enterable_of_mem_leads hpath hq
  rwa [Bool.not_true, Bool.or_false] at henter

/-! ## Whole descents -/

/-- One component more: its share is in front of what the others have been given. -/
lemma IsBehind.exists_division {c : Component} {rest : List Component} {share names : List String}
    {shares : List (List String)} {slash : Bool} {p : String} (hbehind : IsBehind path share p)
    (htakes : c.takes share) (hshare : c = .ellipsis → ∀ name ∈ share, '\n' ∉ name.toList)
    (hdivision : IsDivision rest names shares) (hunbroken : Unbroken rest shares)
    (hlast : rest.getLast? ≠ some .ellipsis) (henter : rest = [] ∨ isEnterable p) :
    ∃ names' shares' slash', IsDivision (c :: rest) names' shares' ∧
      Unbroken (c :: rest) shares' ∧
      p ++ joinNames names slash = path ++ joinNames names' slash' := by
  have hall : IsDivision (c :: rest) (share ++ names) (share :: shares) :=
    ⟨.cons htakes hdivision.taken, by rw [List.flatten_cons, hdivision.whole]⟩
  have hlines : Unbroken (c :: rest) (share :: shares) := by
    rw [Unbroken, List.zip_cons_cons, List.forall_mem_cons]
    exact ⟨hshare, hunbroken⟩
  by_cases hempty : rest = []
  · subst hempty
    obtain ⟨⟨slash', hslash'⟩, -⟩ := hbehind
    obtain rfl : names = [] := by
      rw [← hdivision.whole]
      cases hdivision.taken
      rfl
    exact ⟨_, _, slash', hall, hlines, by
      rw [joinNames_nil, String.append_empty, hslash', List.append_nil]⟩
  · have hne := hdivision.ne_nil hempty hlast
    have hbetween := hbehind.2 (henter.resolve_left hempty)
    refine ⟨_, _, slash, hall, hlines, ?_⟩
    rw [hbetween, String.append_assoc, joinNames_append fun hnil => absurd hnil hne]

/-- **The names of a path at which a descent arrives are divided among its components.** -/
theorem exists_division (hr : t.reader.IsFinite) (hnoted : t.Noted) (hlines : t.reader.ListsLines)
    {components : List Component}
    (hnames : ∀ name descent, .literal name descent ∈ components → IsName name)
    (hlast : components.getLast? ≠ some .ellipsis) (hpath : components = [] ∨ isEnterable path)
    {x : String} (hx : x ∈ arrivalsIn t.reader (t.walk components path visited)) :
    ∃ names shares slash, IsDivision components names shares ∧ Unbroken components shares ∧
      x = path ++ joinNames names slash := by
  induction components generalizing path visited with
  | nil =>
    have hpresent : (if t.reader.isPresent path then some path else none) = some x := by
      obtain ⟨d, hd, hx⟩ := List.mem_filterMap.mp hx
      rw [List.mem_singleton.mp hd] at hx
      exact hx
    obtain rfl := Option.some.inj (Option.ite_none_right_eq_some.mp hpresent).2
    exact ⟨[], [], false, ⟨.nil, rfl⟩, fun p hp => absurd hp List.not_mem_nil, by simp⟩
  | cons c rest ih =>
    have henter := hpath.resolve_left (List.cons_ne_nil c rest)
    have hbare : t.plan.order = .breadthFirst → c = .ellipsis → rest ≠ [] := by
      rintro - rfl rfl
      exact hlast rfl
    have hlast' := getLast?_ne_of_cons hlast
    -- the path that the first component leads to
    have hcons := (filterMap_walk_cons rfl (fun _ => rfl) (fun _ => rfl) hr hnoted hbare path
      visited).subset hx
    obtain ⟨q, hq, hx⟩ := List.mem_flatMap.mp hcons
    obtain ⟨share, htakes, hshare, hbehind⟩ := exists_share hr hlines
      (fun name descent h => hnames name descent (h ▸ List.mem_cons_self)) hq
    have hqpath : rest = [] ∨ isEnterable q.1 := by
      refine or_iff_not_imp_left.mpr fun hempty => ?_
      rw [needsDirectory_of_getLast? hempty hlast'] at hq
      exact isEnterable_of_mem_leads henter hq
    -- and what is behind it
    obtain ⟨names, shares, slash, hdivision, hunbroken, rfl⟩ :=
      ih (fun name descent h => hnames name descent (List.mem_cons_of_mem c h)) hlast' hqpath hx
    exact hbehind.exists_division htakes hshare hdivision hunbroken hlast' hqpath

end Trip

/-! ## Scans -/

/-- Names without a line break are listed without one. -/
lemma Tree.reader_listsLines {t : Tree}
    (hnewline : ∀ n ∈ t.nodes, ∀ name ∈ n.1, '\n' ∉ name.toList) (d : Disturbance) :
    (t.reader d).ListsLines := by
  intro path l hl name hname
  obtain ⟨place, -, -, hsub⟩ := exists_place_of_openPath hl
  have hplace : ∀ name ∈ t.names place, '\n' ∉ name.toList := by
    intro name hname
    obtain ⟨n, hn, hin⟩ := List.mem_filterMap.mp hname
    exact hnewline n hn name (by rw [nameIn_eq_some.mp hin]; exact List.mem_cons_self)
  have hmem := hsub.subset hname
  split_ifs at hmem
  · rcases List.mem_cons.mp hmem with rfl | hmem
    · decide
    · rcases List.mem_cons.mp hmem with rfl | hmem
      · decide
      · exact hplace name hmem
  · exact hplace name hmem

/-- **A scan whose pattern finds all that it arrives at gives all of it**, if nothing fails in the
tree. -/
lemma PathSpec.gives_arrivals_of_finds {t : Tree} (ht : t.IsNamed) {d : Disturbance}
    (hd : d.IsQuiet) {plan : Plan} (hsort : plan.sorting.NeverRaises) {spec : PathSpec}
    (hnames : ∀ name descent, .literal name descent ∈ spec.components → IsName name)
    (hfinds : ∀ x ∈ arrivalsIn (t.reader d) ((spec.trip (t.reader d) plan).walk spec.components
      spec.rootPath []), spec.matcher.finds x)
    (hfits : plan.Fits spec.matcher) (s : Scan) :
    ∃ s', (s.start spec).Gives (t.reader d) plan
      ((arrivalsIn (t.reader d) ((spec.trip (t.reader d) plan).walk spec.components spec.rootPath
        [])).map (plan.answer spec.matcher)) s' ∧ s'.isFinished := by
  set walk := (spec.trip (t.reader d) plan).walk spec.components spec.rootPath [] with hwalk
  have hcalm : ∀ deed ∈ walk, deed.IsCalm (t.reader d) :=
    Trip.isCalm_walk (t := spec.trip (t.reader d) plan) (Tree.reader_keepsWord ht hd hsort) hnames
      (by rw [spec.isEnterable_rootPath]; rfl)
      fun _ => (Tree.reader_keepsWord ht hd hsort).root spec
  have hbears : s.policy.Bears walk :=
    s.policy.bears_of_forall fun deed hdeed incident hfailed => by
      have h := hcalm deed hdeed
      rw [hfailed] at h
      exact h
  obtain ⟨s', hgives, hfinished, -⟩ := s.start_shows (Tree.reader_isFinite ht d)
    (Tree.reader_failsBySystem hd.isSystem hsort) spec hfits hbears
  rw [filterMap_sightsIn_of_finds (Trip.isOwn_walk _ _ _) hfinds] at hgives
  exact ⟨s', hgives, hfinished⟩

/-- **A scan with the pattern made from its components gives all that it arrives at**, if no name
has a line break and the last component is no ellipsis. -/
theorem PathSpec.gives_arrivals {t : Tree} (ht : t.IsNamed)
    (hnewline : ∀ n ∈ t.nodes, ∀ name ∈ n.1, '\n' ∉ name.toList) {d : Disturbance} (hd : d.IsQuiet)
    {plan : Plan} (hsort : plan.sorting.NeverRaises) {path : PathSpec.PathInput}
    (hpath : path.IsSlashFree) {absolute : Option Bool} {follow : Bool} {spec : PathSpec}
    (hspec : PathSpec.compile plan.ignoreCase path absolute none follow = .ok spec)
    (hlast : spec.components.getLast? ≠ some .ellipsis)
    (hfits : plan.Fits spec.matcher) (s : Scan) :
    ∃ s', (s.start spec).Gives (t.reader d) plan
      ((arrivalsIn (t.reader d) ((spec.trip (t.reader d) plan).walk spec.components spec.rootPath
        [])).map (plan.answer spec.matcher)) s' ∧ s'.isFinished := by
  have hnames : ∀ name descent, .literal name descent ∈ spec.components → IsName name :=
    fun name descent hmem => isName_of_compile hpath hspec hmem
  refine gives_arrivals_of_finds ht hd hsort hnames (fun x hx => ?_) hfits s
  obtain ⟨names, shares, slash, hdivision, hunbroken, rfl⟩ :=
    Trip.exists_division (t := spec.trip (t.reader d) plan) (Tree.reader_isFinite ht d)
      (Trip.noted_of_slash fun _ => (t.identifies_reader d).append_slash)
      (Tree.reader_listsLines hnewline d) hnames hlast (Or.inr spec.isEnterable_rootPath) hx
  exact finds_division hspec hdivision hunbroken fun h => absurd h hlast

end PathExpansion
