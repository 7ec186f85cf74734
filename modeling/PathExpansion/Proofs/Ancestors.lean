import PathExpansion.Proofs.Exclusion

/-!
# Each path once, and directories in order

A path with one ellipsis at most leads to each result in one way only: what stands before the
ellipsis takes up the first names, what stands behind it the last, and the ellipsis those in
between.  So no result comes twice, whatever the components on either side match.  A directory comes
before what is below it, or after, as the order of the walk has it.

* `WalkOrder.Permits` — which of two places may come first.
* `Trip.OneDown` — the paths that one component leads to, each by another name.
* `Trip.Spreads`, `Trip.IsExact`, `Trip.IsGradual` — where a descent arrives, and in what order;
  `Trip.spreads_walk`, `Trip.isGradual_walk`.
* **`Scan.gives_once`** — a scan gives no path twice, and directories in order.
-/

namespace PathExpansion

/-! ## Places in order -/

/-- **One place may come before another** in the order of a walk: a directory does not come after
what is below it, or not before it if contents come first.  No place comes before itself. -/
def WalkOrder.Permits : WalkOrder → Place → Place → Prop
  | .insideOut, p, q => ¬ p <:+ q
  | _, p, q => ¬ q <:+ p

namespace WalkOrder

variable {order : WalkOrder} {p q a b : Place}

lemma permits_of_length_lt (horder : order ≠ .insideOut) (h : p.length < q.length) :
    order.Permits p q := by
  cases order with
  | insideOut => exact absurd rfl horder
  | _ => exact fun hsuffix => absurd hsuffix.length_le (Nat.not_le.mpr h)

lemma permits_insideOut (h : q.length < p.length) : insideOut.Permits p q :=
  fun hsuffix => absurd hsuffix.length_le (Nat.not_le.mpr h)

lemma not_permits_self : ¬ order.Permits p p := by
  cases order <;> exact not_not_intro (List.suffix_refl p)

/-- The order of a place and one below it is settled. -/
lemma not_permits_of_suffix (order : WalkOrder) (h : p <:+ q) :
    if order = .insideOut then ¬ order.Permits p q else ¬ order.Permits q p := by
  cases order <;> exact not_not_intro h

/-- What is below different places of one depth is apart. -/
lemma permits_of_apart (hlength : p.length = q.length) (hne : p ≠ q) (hp : p <:+ a) (hq : q <:+ b) :
    order.Permits a b := by
  have happart : ∀ {p q a b : Place}, p.length = q.length → p ≠ q → p <:+ a → q <:+ b →
      ¬ b <:+ a := by
    intro p q a b hlength hne hp hq hba
    have hsuffix : p <:+ q := List.suffix_of_suffix_length_le hp (hq.trans hba) hlength.le
    exact hne (hsuffix.eq_of_length hlength)
  cases order with
  | insideOut => exact happart hlength.symm hne.symm hq hp
  | _ => exact happart hlength hne hp hq

end WalkOrder

/-- The place that a deed arrives at. -/
def Deed.place? : Deed → Option Place
  | .arrived _ path => some (Tree.placeOf path)
  | _ => none

/-- The places that deeds arrive at, in turn. -/
def placesIn (ds : List Deed) : List Place := ds.filterMap Deed.place?

@[simp] lemma placesIn_nil : placesIn [] = [] := rfl

@[simp] lemma placesIn_moved (ds : List Deed) : placesIn (.moved :: ds) = placesIn ds := rfl

@[simp] lemma placesIn_append (ds ds' : List Deed) :
    placesIn (ds ++ ds') = placesIn ds ++ placesIn ds' := List.filterMap_append

namespace Trip

/-- The place of a path on the way. -/
def placeOn (p : String × Visited) : Place := Tree.placeOf p.1

/-- Where a descent may come to: any path that may be entered, and any at all if nothing has to be
found inside. -/
def Admits (deep : Bool) (path : String) : Prop := isEnterable path || !deep

/-! ## One name down -/

/-- **Paths that lead one name down** from another, each by another name. -/
structure OneDown (deep : Bool) (path : String) (ps : List (String × Visited)) : Prop where
  admitted : ∀ p ∈ ps, Admits deep p.1
  places : ∃ names : List String, names.Nodup ∧
    (ps.map placeOn).Sublist (names.map (· :: Tree.placeOf path))

/-- **Paths to different places of one depth.** -/
structure AreLevel (deep : Bool) (depth : ℕ) (ps : List (String × Visited)) : Prop where
  admitted : ∀ p ∈ ps, Admits deep p.1
  depth_eq : ∀ p ∈ ps, (placeOn p).length = depth
  nodup : (ps.map placeOn).Nodup

variable {t : Trip} {deep : Bool} {depth k : ℕ} {next : Descent} {path : String} {visited : Visited}
  {ps : List (String × Visited)}

lemma OneDown.suffix (h : OneDown deep path ps) {p : String × Visited} (hp : p ∈ ps) :
    ∃ name, placeOn p = name :: Tree.placeOf path := by
  obtain ⟨names, _, hsub⟩ := h.places
  obtain ⟨name, _, hname⟩ := List.mem_map.mp (hsub.subset (List.mem_map_of_mem hp))
  exact ⟨name, hname.symm⟩

lemma OneDown.areLevel (h : OneDown deep path ps) :
    AreLevel deep ((Tree.placeOf path).length + 1) ps := by
  refine ⟨h.admitted, fun p hp => ?_, ?_⟩
  · obtain ⟨name, hname⟩ := h.suffix hp
    rw [hname, List.length_cons]
  · obtain ⟨names, hnames, hsub⟩ := h.places
    exact hsub.nodup (hnames.map fun a b hab => (List.cons.inj hab).1)

/-- What is one name down from each of several directories. -/
lemma AreLevel.flatMap {deep' : Bool} {down : String × Visited → List (String × Visited)}
    (h : AreLevel deep' depth ps) (hdown : ∀ p ∈ ps, OneDown deep p.1 (down p)) :
    AreLevel deep (depth + 1) (ps.flatMap down) := by
  refine ⟨fun q hq => ?_, fun q hq => ?_, ?_⟩
  · obtain ⟨p, hp, hq⟩ := List.mem_flatMap.mp hq
    exact (hdown p hp).admitted q hq
  · obtain ⟨p, hp, hq⟩ := List.mem_flatMap.mp hq
    obtain ⟨name, hname⟩ := (hdown p hp).suffix hq
    rw [hname, List.length_cons]
    exact congrArg (· + 1) (h.depth_eq p hp)
  · rw [List.map_flatMap, List.nodup_flatMap]
    refine ⟨fun p hp => (hdown p hp).areLevel.nodup, ?_⟩
    refine (List.pairwise_map.mp h.nodup).imp_of_mem fun {p p'} hp hp' hne => ?_
    intro place hplace hplace'
    obtain ⟨q, hq, rfl⟩ := List.mem_map.mp hplace
    obtain ⟨q', hq', heq⟩ := List.mem_map.mp hplace'
    obtain ⟨name, hname⟩ := (hdown p hp).suffix hq
    obtain ⟨name', hname'⟩ := (hdown p' hp').suffix hq'
    rw [hname, hname'] at heq
    exact hne (List.cons.inj heq).2.symm

section

variable (hr : t.reader.IsFinite)
  (hlistings : ∀ path l, t.reader.openDirectory path = .ok l → l.names.Nodup)

lemma step_places (henter : isEnterable path) {name : String} (hname : IsName name)
    (descent deep : Bool) (visited : Visited) :
    ((t.step name descent deep path visited).map placeOn).Sublist [name :: Tree.placeOf path] := by
  have hplace : ∀ p, t.extend path visited name descent = some p →
      placeOn p = name :: Tree.placeOf path := by
    intro p hp
    rw [placeOn]
    rcases extend_place hp with h | ⟨h, _⟩
    · rw [h, Tree.placeOf_append_name henter hname]
    · rw [h, Tree.placeOf_append_slash, Tree.placeOf_append_name henter hname]
  refine (List.filter_sublist.map placeOn).trans ?_
  cases hextend : t.extend path visited name descent with
  | none => exact List.nil_sublist _
  | some p => simp [hplace p hextend]

lemma oneDown_step (henter : isEnterable path) {name : String} (hname : IsName name)
    (descent : Bool) :
    OneDown deep path (t.step name descent deep path visited) :=
  ⟨fun _ hp => enterable_of_mem_step hp, [name], List.nodup_singleton name,
    step_places henter hname descent deep visited⟩

include hr

/-- The names of a listing lead to their places, in the order in which they are listed. -/
lemma steps_places (henter : isEnterable path) {l : Listing}
    (hl : t.reader.listed t.plan path = .ok l) (wanted : String → Bool) (descent : Bool) :
    ((t.steps wanted descent deep path visited).map placeOn).Sublist
      ((l.names.filter wanted).map (· :: Tree.placeOf path)) := by
  have hnames : ∀ name ∈ l.names.filter wanted, IsName name := fun name hname =>
    hr.isName hl (List.mem_of_mem_filter hname)
  rw [steps, hl]
  simp only
  generalize l.names.filter wanted = names at hnames
  induction names with
  | nil => exact List.Sublist.slnil
  | cons name names ih =>
    obtain ⟨hname, hrest⟩ := List.forall_mem_cons.mp hnames
    rw [List.flatMap_cons, List.map_append]
    exact (step_places henter hname descent deep visited).append (ih hrest)

include hlistings

lemma oneDown_steps (henter : isEnterable path) (wanted : String → Bool) (descent : Bool) :
    OneDown deep path (t.steps wanted descent deep path visited) := by
  refine ⟨fun p hp => enterable_of_mem_steps hp, ?_⟩
  cases hl : t.reader.listed t.plan path with
  | error fault =>
    rw [steps, hl]
    exact ⟨[], List.nodup_nil, List.nil_sublist _⟩
  | ok l =>
    obtain ⟨l', hopen, hperm⟩ := Reader.listed_perm hl
    have hnodup : l.names.Nodup := hperm.nodup_iff.mpr (hlistings _ l' hopen)
    exact ⟨l.names.filter wanted, hnodup.filter wanted, steps_places hr henter hl wanted descent⟩

end

/-! ## Where a descent arrives -/

/-- **A descent that spreads out**: it arrives at or below the place that it comes from, so many
names down at least, and in the order of the walk. -/
structure Spreads (t : Trip) (deep : Bool) (k : ℕ) (next : Descent) : Prop where
  below : ∀ ⦃path visited⦄, Admits deep path → ∀ q ∈ placesIn (next path visited),
    Tree.placeOf path <:+ q ∧ (Tree.placeOf path).length + k ≤ q.length
  ordered : ∀ ⦃path visited⦄, Admits deep path →
    (placesIn (next path visited)).Pairwise t.plan.order.Permits

/-- It arrives so many names down, neither more nor less. -/
def IsExact (deep : Bool) (k : ℕ) (next : Descent) : Prop :=
  ∀ ⦃path visited⦄, Admits deep path → ∀ q ∈ placesIn (next path visited),
    q.length = (Tree.placeOf path).length + k

/-- It arrives at places that are further and further down. -/
def IsGradual (deep : Bool) (next : Descent) : Prop :=
  ∀ ⦃path visited⦄, Admits deep path →
    (placesIn (next path visited)).Pairwise fun p q => p.length ≤ q.length

lemma IsExact.isGradual (h : IsExact deep k next) : IsGradual deep next := by
  intro path visited hpath
  refine List.pairwise_of_forall_mem_list fun p hp q hq => ?_
  rw [h hpath p hp, h hpath q hq]

/-- What is found behind different places of one depth is in order. -/
lemma Spreads.flatMap (h : t.Spreads deep k next) (hps : AreLevel deep depth ps) :
    (ps.flatMap fun p => placesIn (next p.1 p.2)).Pairwise t.plan.order.Permits := by
  rw [List.pairwise_flatMap]
  refine ⟨fun p hp => h.ordered (hps.admitted p hp), ?_⟩
  refine (List.pairwise_map.mp hps.nodup).imp_of_mem fun {p p'} hp hp' hne => ?_
  intro q hq q' hq'
  have hlength : (placeOn p).length = (placeOn p').length :=
    (hps.depth_eq p hp).trans (hps.depth_eq p' hp').symm
  exact WalkOrder.permits_of_apart hlength hne (h.below (hps.admitted p hp) q hq).1
    (h.below (hps.admitted p' hp') q' hq').1

section

variable {descent : Descent} {heads : String → Visited → List (String × Visited)}
  (hplaces : ∀ path visited,
    placesIn (descent path visited) = (heads path visited).flatMap fun p => placesIn (next p.1 p.2))
  (hheads : ∀ path visited, isEnterable path → OneDown deep path (heads path visited))

include hplaces hheads

/-- One name down, and on. -/
lemma Spreads.oneDown (h : t.Spreads deep k next) : t.Spreads true (k + 1) descent := by
  refine ⟨fun path visited hpath q hq => ?_, fun path visited hpath => ?_⟩
  · have henter : isEnterable path := by simpa [Admits] using hpath
    rw [hplaces] at hq
    obtain ⟨p, hp, hq⟩ := List.mem_flatMap.mp hq
    obtain ⟨name, hname⟩ := (hheads path visited henter).suffix hp
    obtain ⟨hsuffix, hlength⟩ := h.below ((hheads path visited henter).admitted p hp) q hq
    rw [placeOn] at hname
    rw [hname] at hsuffix hlength
    rw [List.length_cons] at hlength
    exact ⟨(List.suffix_cons name _).trans hsuffix, by omega⟩
  · have henter : isEnterable path := by simpa [Admits] using hpath
    rw [hplaces]
    exact h.flatMap (hheads path visited henter).areLevel

lemma IsExact.oneDown (h : IsExact deep k next) : IsExact true (k + 1) descent := by
  intro path visited hpath q hq
  have henter : isEnterable path := by simpa [Admits] using hpath
  rw [hplaces] at hq
  obtain ⟨p, hp, hq⟩ := List.mem_flatMap.mp hq
  obtain ⟨name, hname⟩ := (hheads path visited henter).suffix hp
  have hlength := h ((hheads path visited henter).admitted p hp) q hq
  rw [placeOn] at hname
  rw [hname, List.length_cons] at hlength
  omega

end

section

variable (hr : t.reader.IsFinite)
  (hlistings : ∀ path l, t.reader.openDirectory path = .ok l → l.names.Nodup)

lemma placesIn_literal (name : String) (descent deep : Bool) (next : Descent) (path : String)
    (visited : Visited) :
    placesIn (t.literal name descent deep next path visited)
      = (t.step name descent deep path visited).flatMap fun p => placesIn (next p.1 p.2) :=
  filterMap_literal rfl name descent deep next

lemma placesIn_listing (wanted : String → Bool) (descent deep : Bool) (next : Descent)
    (path : String) (visited : Visited) :
    placesIn (t.listing wanted (fun name => t.literal name descent deep next) path visited)
      = (t.steps wanted descent deep path visited).flatMap fun p => placesIn (next p.1 p.2) :=
  filterMap_listing rfl (fun _ => rfl) wanted descent deep next

include hr hlistings

/-! ### Level by level -/

lemma oneDown_subdirectories {d : String × Visited} (henter : isEnterable d.1) :
    OneDown true d.1 (t.subdirectories d) := by
  have hdown : OneDown true d.1 (t.steps (!isDotName ·) true true d.1 d.2) :=
    oneDown_steps hr hlistings henter _ true
  obtain ⟨_, names, hnodup, hsub⟩ := hdown
  rw [subdirectories_eq true]
  refine ⟨fun p hp => ?_, names, hnodup, (List.filter_sublist.map placeOn).trans hsub⟩
  rw [Admits, (List.mem_filter.mp hp).2]
  rfl

/-- **What is found at all depths** below directories that are all so many names deep is in order,
and further and further down. -/
lemma Spreads.depths (horder : t.plan.order = .breadthFirst) (h : t.Spreads deep k next)
    (hexact : IsExact deep k next) {place : Place} (n : ℕ) {dirs : List (String × Visited)}
    (hdirs : AreLevel true depth dirs) (hbelow : ∀ d ∈ dirs, place <:+ placeOn d) :
    (∀ q ∈ (t.depths deep n dirs).flatMap fun p => placesIn (next p.1 p.2),
      place <:+ q ∧ depth + 1 + k ≤ q.length) ∧
    ((t.depths deep n dirs).flatMap fun p => placesIn (next p.1 p.2)).Pairwise
      fun p q => t.plan.order.Permits p q ∧ p.length ≤ q.length := by
  induction n generalizing depth dirs with
  | zero => exact ⟨List.forall_mem_nil _, List.Pairwise.nil⟩
  | succ n ih =>
    have henter : ∀ d ∈ dirs, isEnterable d.1 := fun d hd => by
      simpa [Admits] using hdirs.admitted d hd
    set heads : String × Visited → List (String × Visited) :=
      fun d => t.steps (!isDotName ·) true deep d.1 d.2 with hheads
    have hdown : ∀ d ∈ dirs, OneDown deep d.1 (heads d) := fun d hd =>
      oneDown_steps hr hlistings (henter d hd) _ true
    have hlevel : AreLevel deep (depth + 1) (dirs.flatMap heads) := hdirs.flatMap hdown
    have hsub : AreLevel true (depth + 1) (dirs.flatMap t.subdirectories) :=
      hdirs.flatMap fun d hd => oneDown_subdirectories hr hlistings (henter d hd)
    have hsubBelow : ∀ d ∈ dirs.flatMap t.subdirectories, place <:+ placeOn d := by
      intro d hd
      obtain ⟨above, habove, hd⟩ := List.mem_flatMap.mp hd
      obtain ⟨name, hname⟩ :=
        (oneDown_subdirectories hr hlistings (henter above habove)).suffix hd
      rw [hname]
      exact (hbelow above habove).trans (List.suffix_cons name _)
    have hhere : ∀ q ∈ (dirs.flatMap heads).flatMap fun p => placesIn (next p.1 p.2),
        place <:+ q ∧ q.length = depth + 1 + k := by
      intro q hq
      obtain ⟨p, hp, hq⟩ := List.mem_flatMap.mp hq
      have hlength := hexact (hlevel.admitted p hp) q hq
      rw [show (Tree.placeOf p.1).length = depth + 1 from hlevel.depth_eq p hp] at hlength
      obtain ⟨d, hd, hp'⟩ := List.mem_flatMap.mp hp
      obtain ⟨name, hname⟩ := (hdown d hd).suffix hp'
      have hsuffix : placeOn p <:+ q := (h.below (hlevel.admitted p hp) q hq).1
      rw [hname] at hsuffix
      exact ⟨((hbelow d hd).trans (List.suffix_cons name _)).trans hsuffix, hlength⟩
    obtain ⟨hdeeper, hordered⟩ := ih hsub hsubBelow
    rw [Trip.depths, List.flatMap_append]
    constructor
    · rw [List.forall_mem_append]
      refine ⟨fun q hq => ⟨(hhere q hq).1, (hhere q hq).2.ge⟩, fun q hq => ⟨(hdeeper q hq).1, ?_⟩⟩
      have := (hdeeper q hq).2
      omega
    · rw [List.pairwise_append]
      refine ⟨?_, hordered, fun p hp q hq => ?_⟩
      · refine (h.flatMap hlevel).imp_of_mem fun {p q} hp hq hpermits => ⟨hpermits, ?_⟩
        rw [(hhere p hp).2, (hhere q hq).2]
      · have hlength : p.length < q.length := by
          rw [(hhere p hp).2]
          exact Nat.lt_of_lt_of_le (Nat.add_lt_add_right (Nat.lt_succ_self _) k) (hdeeper q hq).2
        refine ⟨WalkOrder.permits_of_length_lt ?_ hlength, hlength.le⟩
        rw [horder]
        exact WalkOrder.noConfusion

omit hr hlistings in
/-- The directory where an ellipsis begins, if it is one. -/
lemma areLevel_start (path : String) (visited : Visited) :
    AreLevel true (Tree.placeOf path).length (if isEnterable path then [(path, visited)] else []) ∧
      ∀ d ∈ (if isEnterable path then [(path, visited)] else []),
        Tree.placeOf path <:+ placeOn d := by
  split_ifs with henter
  · simp only [List.forall_mem_singleton]
    refine ⟨⟨?_, ?_, List.nodup_singleton _⟩, List.suffix_refl _⟩
    · rw [List.forall_mem_singleton, Admits, henter]
      rfl
    · rw [List.forall_mem_singleton]
      rfl
  · exact ⟨⟨List.forall_mem_nil _, List.forall_mem_nil _, List.nodup_nil⟩, List.forall_mem_nil _⟩

/-- An ellipsis that goes level by level. -/
lemma Spreads.byLevel (horder : t.plan.order = .breadthFirst) (h : t.Spreads deep k next)
    (hexact : IsExact deep k next) (bare : Bool) (n : ℕ) :
    t.Spreads deep k (t.byLevel deep bare next n) ∧
    IsGradual deep (t.byLevel deep bare next n) := by
  -- what is found without a level is one name less down than what is found with one
  have hparts : ∀ path visited, ∃ here deeper : List Place,
      placesIn (t.byLevel deep bare next n path visited) = here ++ deeper ∧
      here.Sublist (placesIn (next path (t.entered path visited))) ∧
      (∀ q ∈ deeper, Tree.placeOf path <:+ q ∧ (Tree.placeOf path).length + 1 + k ≤ q.length) ∧
      deeper.Pairwise fun p q => t.plan.order.Permits p q ∧ p.length ≤ q.length := by
    intro path visited
    have hlevels : ∀ dirs, placesIn (t.levels deep next n dirs)
        = (t.depths deep n dirs).flatMap fun p => placesIn (next p.1 p.2) :=
      filterMap_levels rfl (fun _ => rfl) (fun _ => rfl) deep next n
    obtain ⟨hstart, hbelow⟩ := areLevel_start path (t.entered path visited)
    refine ⟨if bare then [] else placesIn (next path (t.entered path visited)), _, ?_, ?_,
      h.depths hr hlistings horder hexact n hstart hbelow⟩
    · rw [Trip.byLevel]
      simp only [List.cons_append, placesIn_moved, placesIn_append, placesIn_nil, hlevels,
        List.append_nil]
      cases bare <;> rfl
    · cases bare with
      | true => exact List.nil_sublist _
      | false => exact List.Sublist.refl _
  refine ⟨⟨fun path visited hpath q hq => ?_, fun path visited hpath => ?_⟩,
    fun path visited hpath => ?_⟩
  · obtain ⟨here, deeper, hplaces, hsub, hdeeper, _⟩ := hparts path visited
    rw [hplaces] at hq
    rcases List.mem_append.mp hq with hq | hq
    · exact h.below hpath q (hsub.subset hq)
    · have := (hdeeper q hq).2
      exact ⟨(hdeeper q hq).1, by omega⟩
  · obtain ⟨here, deeper, hplaces, hsub, hdeeper, hordered⟩ := hparts path visited
    rw [hplaces, List.pairwise_append]
    refine ⟨(h.ordered hpath).sublist hsub, hordered.imp And.left, fun p hp q hq => ?_⟩
    have hp' := hexact hpath p (hsub.subset hp)
    have hq' := (hdeeper q hq).2
    exact WalkOrder.permits_of_length_lt (by rw [horder]; exact WalkOrder.noConfusion) (by omega)
  · obtain ⟨here, deeper, hplaces, hsub, hdeeper, hordered⟩ := hparts path visited
    rw [hplaces, List.pairwise_append]
    refine ⟨(hexact.isGradual hpath).sublist hsub, hordered.imp And.right, fun p hp q hq => ?_⟩
    have hp' := hexact hpath p (hsub.subset hp)
    have hq' := (hdeeper q hq).2
    omega

/-! ### Directory by directory -/

omit hr hlistings in
/-- The remainder of an ellipsis at a path, and what is further down, are in order. -/
lemma Spreads.combine (h : t.Spreads deep k next) (hexact : IsExact deep k next) {under : Descent}
    (hunder : t.Spreads true (k + 1) under) : t.Spreads deep k (t.combine next under) := by
  have hparts : ∀ path visited, Admits deep path → ∃ deeper : List Place,
      (placesIn (t.combine next under path visited)
        = if t.plan.order = .insideOut then deeper ++ placesIn (next path (t.entered path visited))
          else placesIn (next path (t.entered path visited)) ++ deeper) ∧
      (∀ q ∈ deeper, Tree.placeOf path <:+ q ∧ (Tree.placeOf path).length + (k + 1) ≤ q.length) ∧
      deeper.Pairwise t.plan.order.Permits := by
    intro path visited hpath
    refine ⟨placesIn (if isEnterable path then under path (t.entered path visited) else []), ?_, ?_⟩
    · rw [Trip.combine]
      cases t.plan.order <;> simp
    · split_ifs with henter
      · have hadmits : Admits true path := by rw [Admits, henter]; rfl
        exact ⟨hunder.below hadmits, hunder.ordered hadmits⟩
      · exact ⟨List.forall_mem_nil _, List.Pairwise.nil⟩
  refine ⟨fun path visited hpath q hq => ?_, fun path visited hpath => ?_⟩
  · obtain ⟨deeper, hplaces, hdeeper, _⟩ := hparts path visited hpath
    have hmem : q ∈ placesIn (next path (t.entered path visited)) ∨ q ∈ deeper := by
      rw [hplaces] at hq
      split_ifs at hq
      · exact (List.mem_append.mp hq).symm
      · exact List.mem_append.mp hq
    rcases hmem with hq | hq
    · exact h.below hpath q hq
    · have := (hdeeper q hq).2
      exact ⟨(hdeeper q hq).1, by omega⟩
  · obtain ⟨deeper, hplaces, hdeeper, hordered⟩ := hparts path visited hpath
    have hlonger : ∀ p ∈ placesIn (next path (t.entered path visited)), ∀ q ∈ deeper,
        p.length < q.length := by
      intro p hp q hq
      have hp' := hexact hpath p hp
      have hq' := (hdeeper q hq).2
      omega
    rw [hplaces]
    split_ifs with horder
    · refine List.pairwise_append.mpr ⟨hordered, h.ordered hpath, fun q hq p hp => ?_⟩
      rw [horder]
      exact WalkOrder.permits_insideOut (hlonger p hp q hq)
    · exact List.pairwise_append.mpr ⟨h.ordered hpath, hordered,
        fun p hp q hq => WalkOrder.permits_of_length_lt horder (hlonger p hp q hq)⟩

/-- An ellipsis that gives a directory next to its contents. -/
lemma Spreads.nested (h : t.Spreads deep k next) (hexact : IsExact deep k next) (n : ℕ) :
    t.Spreads deep k (t.nested deep next n) := by
  induction n with
  | zero =>
    exact h.combine hexact ⟨fun _ _ _ => List.forall_mem_nil _, fun _ _ _ => List.Pairwise.nil⟩
  | succ n ih =>
    refine h.combine hexact ?_
    exact ih.oneDown (placesIn_listing _ true deep _) fun path visited henter =>
      oneDown_steps hr hlistings henter _ true

/-! ### Whole descents -/

omit hr hlistings in
lemma spreads_arrive (t : Trip) : t.Spreads false 0 t.arrive ∧ IsExact false 0 t.arrive := by
  have hplaces : ∀ path visited, placesIn (t.arrive path visited) = [Tree.placeOf path] :=
    fun _ _ => rfl
  refine ⟨⟨fun path visited _ => ?_, fun path visited _ => ?_⟩, fun path visited _ => ?_⟩
  · rw [hplaces, List.forall_mem_singleton]
    exact ⟨List.suffix_refl _, le_rfl⟩
  · rw [hplaces]
    exact List.pairwise_singleton _ _
  · rw [hplaces, List.forall_mem_singleton]
    rfl

/-- **A descent with one ellipsis at most spreads out**; without one, it arrives equally far down
everywhere. -/
theorem spreads_walk {components : List Component}
    (hnames : ∀ name descent, .literal name descent ∈ components → IsName name)
    (hone : components.countP Component.isEllipsis ≤ 1) :
    ∃ k, t.Spreads (needsDirectory components) k (t.walk components) ∧
      (components.countP Component.isEllipsis = 0 →
        IsExact (needsDirectory components) k (t.walk components)) := by
  induction components with
  | nil => exact ⟨0, (spreads_arrive t).1, fun _ => (spreads_arrive t).2⟩
  | cons c rest ih =>
    have hrest : ∀ name descent, .literal name descent ∈ rest → IsName name :=
      fun name descent h => hnames name descent (List.mem_cons_of_mem c h)
    cases c with
    | literal name descent =>
      obtain ⟨k, hspreads, hexact⟩ := ih hrest hone
      have hheads : ∀ path visited, isEnterable path → OneDown (needsDirectory rest) path
          (t.step name descent (needsDirectory rest) path visited) := fun path visited henter =>
        oneDown_step henter (hnames name descent List.mem_cons_self) descent
      have hplaces := t.placesIn_literal name descent (needsDirectory rest) (t.walk rest)
      exact ⟨k + 1, hspreads.oneDown hplaces hheads,
        fun hnone => (hexact hnone).oneDown hplaces hheads⟩
    | wildcard w =>
      obtain ⟨k, hspreads, hexact⟩ := ih hrest hone
      have hheads : ∀ path visited, isEnterable path → OneDown (needsDirectory rest) path
          (t.steps w.wants w.descent (needsDirectory rest) path visited) :=
        fun path visited henter => oneDown_steps hr hlistings henter w.wants w.descent
      have hplaces := t.placesIn_listing w.wants w.descent (needsDirectory rest) (t.walk rest)
      exact ⟨k + 1, hspreads.oneDown hplaces hheads,
        fun hnone => (hexact hnone).oneDown hplaces hheads⟩
    | ellipsis =>
      rw [List.countP_cons_of_pos rfl] at hone
      have hnone : rest.countP Component.isEllipsis = 0 := by omega
      obtain ⟨k, hspreads, hexact⟩ := ih hrest (by omega)
      rw [needsDirectory_ellipsis, walk, ellipsis]
      refine ⟨k, ?_, fun h => by rw [List.countP_cons_of_pos rfl] at h; cases h⟩
      cases horder : t.plan.order with
      | breadthFirst => exact (hspreads.byLevel hr hlistings horder (hexact hnone) _ _).1
      | normal => exact hspreads.nested hr hlistings (hexact hnone) _
      | insideOut => exact hspreads.nested hr hlistings (hexact hnone) _

/-- **Level by level, a descent goes further and further down** if nothing but names stands before
its ellipsis. -/
theorem isGradual_walk (horder : t.plan.order = .breadthFirst) {components : List Component}
    (hnames : ∀ name descent, .literal name descent ∈ components → IsName name)
    (hone : components.countP Component.isEllipsis ≤ 1)
    (hfront : ∀ c ∈ components.takeWhile (!·.isEllipsis), ∃ name descent,
      c = .literal name descent) :
    IsGradual (needsDirectory components) (t.walk components) := by
  induction components with
  | nil => exact (spreads_arrive t).2.isGradual
  | cons c rest ih =>
    have hrest : ∀ name descent, .literal name descent ∈ rest → IsName name :=
      fun name descent h => hnames name descent (List.mem_cons_of_mem c h)
    cases c with
    | literal name descent =>
      have hgradual := ih hrest hone fun c hc => hfront c (List.mem_cons_of_mem _ hc)
      intro path visited hpath
      rw [walk, placesIn_literal, step]
      cases t.extend path visited name descent with
      | none => exact List.Pairwise.nil
      | some p =>
        simp only [Option.toList_some, List.filter_cons, List.filter_nil]
        split_ifs with hadmits
        · rw [List.flatMap_singleton]
          exact hgradual hadmits
        · exact List.Pairwise.nil
    | wildcard w =>
      obtain ⟨name, descent, hc⟩ := hfront (.wildcard w) List.mem_cons_self
      cases hc
    | ellipsis =>
      rw [List.countP_cons_of_pos rfl] at hone
      obtain ⟨k, hspreads, hexact⟩ := t.spreads_walk hr hlistings hrest (by omega)
      rw [needsDirectory_ellipsis, walk, ellipsis, horder]
      exact (hspreads.byLevel hr hlistings horder (hexact (by omega)) _ _).2

end

end Trip

/-! ## Results -/

/-- The places of the paths that are found, in turn, are among those that are arrived at. -/
lemma places_sublist (r : Reader) (base : Option PathSpec) (ds : List Deed) :
    (((sightsIn r base ds).filterMap Sight.path?).map Tree.placeOf).Sublist (placesIn ds) := by
  induction ds with
  | nil => exact List.Sublist.slnil
  | cons d ds ih =>
    cases d with
    | arrived root path =>
      rw [sightsIn, List.filterMap_cons, Deed.sight?]
      split_ifs
      · exact ih.cons_cons _
      · exact ih.cons _
    | _ => exact ih

/-- Of two items in a row of which one may not come first, the other does. -/
lemma pair_sublist {α : Type} {R : α → α → Prop} {as : List α} (h : as.Pairwise R) {a b : α}
    (ha : a ∈ as) (hb : b ∈ as) (hne : a ≠ b) (hba : ¬ R b a) : [a, b].Sublist as := by
  induction as with
  | nil => cases ha
  | cons c as ih =>
    obtain ⟨hfirst, hrest⟩ := List.pairwise_cons.mp h
    rcases List.mem_cons.mp ha with rfl | ha'
    · have hmem : b ∈ as := (List.mem_cons.mp hb).resolve_left hne.symm
      exact (List.singleton_sublist.mpr hmem).cons_cons a
    · rcases List.mem_cons.mp hb with rfl | hb'
      · exact absurd (hfirst a ha') hba
      · exact (ih hrest ha' hb').cons c

/-- A directory that is a path begins with is one above it. -/
lemma placeOf_suffix {p q : String} (hslash : p.toList.getLast? = some '/')
    (h : p.toList <+: q.toList) :
    Tree.placeOf p <:+ Tree.placeOf q := by
  obtain ⟨rest, hrest⟩ := h
  have henter : isEnterable p := by simp [isEnterable, hslash]
  have hq : q = p ++ String.ofList rest := by
    rw [← String.toList_inj, String.toList_append, String.toList_ofList, hrest]
  rw [hq, Tree.placeOf_append henter]
  exact List.suffix_append _ _

namespace Scan

/-- **Each path once, and directories in order.**  A scan of a path with one ellipsis at most, in a
filesystem that lists no name twice, gives no path twice, whatever is linked where and whatever
cannot be read.  A directory comes before what is below it, or after it if contents come first.
Level by level, the paths get longer and longer, if nothing but names stands before the ellipsis. -/
theorem gives_once {r : Reader} (hr : r.IsFinite)
    (hlistings : ∀ path l, r.openDirectory path = .ok l → l.names.Nodup) {plan : Plan}
    (hsys : r.FailsBySystem plan) {path : PathSpec.PathInput} (hpath : path.IsSlashFree)
    {absolute : Option Bool} {matching : Option PatternInput} {follow : Bool} {spec : PathSpec}
    (hspec : PathSpec.compile plan.ignoreCase path absolute matching follow = .ok spec)
    (hone : spec.components.countP Component.isEllipsis ≤ 1)
    (hfits : plan.Fits spec.matcher) (s : Scan) (hpolicy : s.policy.NeverStops) :
    ∃ (results : List String) (s' : Scan),
      (s.start spec).Gives r plan (results.map (plan.answer spec.matcher)) s' ∧ s'.isFinished ∧
      results.Nodup ∧
      (∀ p ∈ results, ∀ q ∈ results, p.toList.getLast? = some '/' → p.toList <+: q.toList → p ≠ q →
        (if plan.order = .insideOut then [q, p] else [p, q]).Sublist results) ∧
      (plan.order = .breadthFirst →
        (∀ c ∈ spec.components.takeWhile (!·.isEllipsis), ∃ name descent,
          c = .literal name descent) →
        results.Pairwise fun p q => (Tree.placeOf p).length ≤ (Tree.placeOf q).length) := by
  have hnames : ∀ name descent, .literal name descent ∈ spec.components → IsName name :=
    fun name descent hmem => PathSpec.isName_of_compile hpath hspec hmem
  have hroot : Trip.Admits (needsDirectory spec.components) spec.rootPath := by
    rw [Trip.Admits, spec.isEnterable_rootPath, Bool.true_or]
  set deeds := (spec.trip r plan).walk spec.components spec.rootPath [] with hdeeds
  set results := (sightsIn r (some spec) deeds).filterMap Sight.path? with hresults
  have hsub : (results.map Tree.placeOf).Sublist (placesIn deeds) :=
    places_sublist r (some spec) deeds
  obtain ⟨s', hgives, hfinished, _⟩ := s.start_shows hr hsys spec hfits (hpolicy.bears _)
  obtain ⟨k, hspreads, _⟩ := (spec.trip r plan).spreads_walk hr hlistings hnames hone
  have hordered : results.Pairwise fun p q =>
      plan.order.Permits (Tree.placeOf p) (Tree.placeOf q) :=
    List.pairwise_map.mp ((hspreads.ordered hroot).sublist hsub)
  refine ⟨results, s', hgives, hfinished, ?_, fun p hp q hq hslash hprefix hne => ?_,
    fun horder hfront => ?_⟩
  · refine hordered.imp fun {p q} hpermits heq => ?_
    rw [heq] at hpermits
    exact WalkOrder.not_permits_self hpermits
  · have hsettled := plan.order.not_permits_of_suffix (placeOf_suffix hslash hprefix)
    split_ifs at hsettled ⊢
    · exact pair_sublist hordered hq hp hne.symm hsettled
    · exact pair_sublist hordered hp hq hne hsettled
  · have hgradual : (results.map Tree.placeOf).Pairwise fun p q => p.length ≤ q.length :=
      ((spec.trip r plan).isGradual_walk hr hlistings horder hnames hone hfront hroot).sublist hsub
    exact (List.pairwise_map (f := Tree.placeOf)).mp hgradual

/-- A tree with links that lead back and round in a circle, a directory that cannot be opened and
one that fails while it is read, walked in each order from a name on. -/
theorem gives_once_links :
    ∃ spec, PathSpec.compile false (.text "a///*b") none none true = .ok spec ∧
      spec.components.countP Component.isEllipsis ≤ 1 ∧
      (∀ c ∈ spec.components.takeWhile (!·.isEllipsis), ∃ name descent, c = .literal name descent) ∧
      ∀ (order : WalkOrder) (s : Scan), s.policy.NeverStops →
        let r := (Tree.ofEntries [.path "a/b/c/b", .path "a/ab/b", .link "a/b/up" "/a",
          .link "b" "b", .path "a/cb/"]).reader ⟨[("a/cb", .permission)], [("a/ab", 2)], true⟩
        let plan : Plan := ⟨order, .byName, none, none, false⟩
        ∃ (results : List String) (s' : Scan),
          (s.start spec).Gives r plan (results.map (plan.answer spec.matcher)) s' ∧ s'.isFinished ∧
          results.Nodup ∧
          (∀ p ∈ results, ∀ q ∈ results, p.toList.getLast? = some '/' → p.toList <+: q.toList →
            p ≠ q → (if order = .insideOut then [q, p] else [p, q]).Sublist results) ∧
          (order = .breadthFirst →
            (∀ c ∈ spec.components.takeWhile (!·.isEllipsis), ∃ name descent,
              c = .literal name descent) →
            results.Pairwise fun p q => (Tree.placeOf p).length ≤ (Tree.placeOf q).length) := by
  obtain ⟨spec, hspec, htest⟩ := PathSpec.exists_compile false true (.text "a///*b") none
    (fun spec => decide (spec.components.countP Component.isEllipsis ≤ 1 ∧
      spec.components.takeWhile (!·.isEllipsis) = [.literal "a" false])) (by decide +kernel)
  obtain ⟨hone, hfront⟩ := of_decide_eq_true htest
  refine ⟨spec, hspec, hone, ?_, fun order s hpolicy => ?_⟩
  · rw [hfront, List.forall_mem_singleton]
    exact ⟨"a", false, rfl⟩
  · have hslash : PathSpec.PathInput.IsSlashFree (.text "a///*b") := trivial
    have hplan : Sorting.NeverRaises (Plan.mk order .byName none none false).sorting :=
      fun _ h => by cases h
    have hfits : (Plan.mk order .byName none none false).Fits spec.matcher := fun _ h => by cases h
    intro r plan
    have hlistings : ∀ path l, r.openDirectory path = .ok l → l.names.Nodup := fun path l =>
      Tree.nodup_of_openPath (by decide +kernel) (by decide +kernel)
    have hsystem : Disturbance.IsSystem ⟨[("a/cb", .permission)], [("a/ab", 2)], true⟩ := by
      intro row hrow
      rw [List.mem_singleton.mp hrow]
      rfl
    exact gives_once (Tree.reader_isFinite (Tree.isNamed_ofEntries _) _) hlistings
      (Tree.reader_failsBySystem hsystem hplan) hslash hspec hone hfits s hpolicy

end Scan

end PathExpansion
