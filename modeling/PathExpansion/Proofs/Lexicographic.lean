import PathExpansion.Proofs.Ancestors
import PathExpansion.Proofs.ListingOrder

/-!
# Sorted listings, sorted results

If the names of each directory are wanted in order, the results of a scan are in order as a whole.
The order is not that of the paths as texts, since a slash is not the least of all characters; it is
that of their names, one by one.  A directory comes before what is below it, or after if contents
come first, and that is all that the order of the walk decides.

A row of paths that one directory leads to is in order of their last names, and what is found behind
each of them is below it; so it stays apart from what is found behind the others, however deep that
is.

* `namesOf`, `WalkOrder.Ranks` — the names of a path, and which of two paths comes first.
* `Trip.IsRow` — paths that lead one name down, in order of that name.
* `Trip.Climbs`, `Trip.ClimbsBelow` — descents that arrive in order, at a path and below it.
* `Trip.climbs_walk` — without an ellipsis but for one at the end, descents do.
* **`Scan.answers_in_order`** — so the results of a scan are in order.
-/

namespace PathExpansion

/-! ## Names in order -/

/-- The names of a path, outermost first. -/
def namesOf (path : String) : List String := (Tree.placeOf path).reverse

/-- **Names come before other names** in the order of a walk: at the first place where they differ
by code points, and what is above something before it, or behind it if contents come first. -/
def WalkOrder.Ranks (order : WalkOrder) : List String → List String → Prop
  | [], [] => False
  | [], _ :: _ => order ≠ .insideOut
  | _ :: _, [] => order = .insideOut
  | a :: as, b :: bs => a < b ∨ a = b ∧ order.Ranks as bs

namespace WalkOrder

variable {order : WalkOrder} {as bs : List String} {a b : String} {p q place : Place}

/-- If contents do not come first, this is the lexicographic order. -/
lemma ranks_iff_lt (horder : order ≠ .insideOut) : order.Ranks as bs ↔ as < bs := by
  induction as generalizing bs with
  | nil =>
    cases bs with
    | nil => simp [Ranks]
    | cons b bs => simp [Ranks, horder]
  | cons a as ih =>
    cases bs with
    | nil => simp [Ranks, horder]
    | cons b bs => rw [Ranks, ih, List.cons_lt_cons_iff]

/-- What names have in common at the front does not matter. -/
lemma Ranks.append_left (h : order.Ranks as bs) (cs : List String) :
    order.Ranks (cs ++ as) (cs ++ bs) := by
  induction cs with
  | nil => exact h
  | cons c cs ih => exact Or.inr ⟨rfl, ih⟩

/-- What is below different names of one directory is in the order of these names. -/
lemma ranks_of_lt (hab : a < b) (hp : a :: place <:+ p) (hq : b :: place <:+ q) :
    order.Ranks p.reverse q.reverse := by
  obtain ⟨u, rfl⟩ := hp
  obtain ⟨v, rfl⟩ := hq
  have hranks : order.Ranks (a :: u.reverse) (b :: v.reverse) := Or.inl hab
  simpa using hranks.append_left place.reverse

/-- A place comes before what is below it, -/
lemma ranks_below (horder : order ≠ .insideOut) (hq : a :: place <:+ q) :
    order.Ranks place.reverse q.reverse := by
  obtain ⟨v, rfl⟩ := hq
  have hranks : order.Ranks [] (a :: v.reverse) := horder
  simpa using hranks.append_left place.reverse

/-- or behind it. -/
lemma ranks_insideOut (hq : a :: place <:+ q) : insideOut.Ranks q.reverse place.reverse := by
  obtain ⟨v, rfl⟩ := hq
  have hranks : insideOut.Ranks (a :: v.reverse) [] := rfl
  simpa using hranks.append_left place.reverse

end WalkOrder

/-- Names in order are in strict order if none of them comes twice. -/
lemma pairwise_sortNames {names : List String} (h : names.Nodup) :
    (sortNames false names).Pairwise (· < ·) := by
  have hsorted : (names.mergeSort nameLe).Pairwise fun a b => nameLe a b = true := by
    refine List.pairwise_mergeSort (fun a b c hab hbc => ?_) (fun a b => ?_) names
    · exact nameLe_iff.mpr ((nameLe_iff.mp hab).trans (nameLe_iff.mp hbc))
    · rw [Bool.or_eq_true, nameLe_iff, nameLe_iff]
      exact le_total a b
  have hnodup : (names.mergeSort nameLe).Nodup := (List.mergeSort_perm names nameLe).nodup_iff.mpr h
  exact hsorted.imp₂ (fun a b hle hne => lt_of_le_of_ne (nameLe_iff.mp hle) hne) hnodup

namespace Trip

/-! ## Rows -/

/-- **Paths that lead one name down** from another, in order of that name. -/
structure IsRow (deep : Bool) (path : String) (ps : List (String × Visited)) : Prop where
  admitted : ∀ p ∈ ps, Admits deep p.1
  places : ∃ names : List String, names.Pairwise (· < ·) ∧
    (ps.map placeOn).Sublist (names.map (· :: Tree.placeOf path))

variable {t : Trip} {deep : Bool} {next : Descent} {path : String} {visited : Visited}
  {ps : List (String × Visited)}

lemma isRow_step (henter : isEnterable path) {name : String} (hname : IsName name)
    (descent : Bool) :
    IsRow deep path (t.step name descent deep path visited) :=
  ⟨fun _ hp => enterable_of_mem_step hp, [name], List.pairwise_singleton _ name,
    step_places henter hname descent deep visited⟩

lemma IsRow.exists_name (h : IsRow deep path ps) {p : String × Visited} (hp : p ∈ ps) :
    ∃ name, placeOn p = name :: Tree.placeOf path := by
  obtain ⟨names, _, hsub⟩ := h.places
  obtain ⟨name, _, hname⟩ := List.mem_map.mp (hsub.subset (List.mem_map_of_mem hp))
  exact ⟨name, hname.symm⟩

lemma IsRow.pairwise (h : IsRow deep path ps) :
    ps.Pairwise fun p p' => ∃ a b, a < b ∧ placeOn p = a :: Tree.placeOf path ∧
      placeOn p' = b :: Tree.placeOf path := by
  obtain ⟨names, hnames, hsub⟩ := h.places
  have hplaces : (names.map (· :: Tree.placeOf path)).Pairwise fun x y => ∃ a b, a < b ∧
      x = a :: Tree.placeOf path ∧ y = b :: Tree.placeOf path :=
    List.pairwise_map.mpr (hnames.imp fun hab => ⟨_, _, hab, rfl, rfl⟩)
  exact List.pairwise_map.mp (hplaces.sublist hsub)

/-! ## Descents in order -/

/-- **A descent that climbs**: it arrives at the path that it comes from or below it, and in
order. -/
structure Climbs (t : Trip) (deep : Bool) (next : Descent) : Prop where
  below : ∀ ⦃path visited⦄, Admits deep path → ∀ q ∈ placesIn (next path visited),
    Tree.placeOf path <:+ q
  ordered : ∀ ⦃path visited⦄, Admits deep path →
    (placesIn (next path visited)).Pairwise fun p q => t.plan.order.Ranks p.reverse q.reverse

/-- A descent that climbs from a directory, and does not arrive at it. -/
structure ClimbsBelow (t : Trip) (next : Descent) : Prop where
  below : ∀ ⦃path visited⦄, isEnterable path → ∀ q ∈ placesIn (next path visited),
    ∃ name, name :: Tree.placeOf path <:+ q
  ordered : ∀ ⦃path visited⦄, isEnterable path →
    (placesIn (next path visited)).Pairwise fun p q => t.plan.order.Ranks p.reverse q.reverse

lemma ClimbsBelow.climbs (h : t.ClimbsBelow next) : t.Climbs true next := by
  have henter : ∀ {path}, Admits true path → isEnterable path := fun hpath => by
    simpa [Admits] using hpath
  refine ⟨fun path visited hpath q hq => ?_, fun path visited hpath => h.ordered (henter hpath)⟩
  obtain ⟨name, hname⟩ := h.below (henter hpath) q hq
  exact (List.suffix_cons name _).trans hname

/-- **Going on from a row** keeps what is found behind each path of it apart. -/
lemma Climbs.row (h : t.Climbs deep next) {descent : Descent}
    {heads : String → Visited → List (String × Visited)}
    (hplaces : ∀ path visited,
      placesIn (descent path visited)
        = (heads path visited).flatMap fun p => placesIn (next p.1 p.2))
    (hheads : ∀ path visited, isEnterable path → IsRow deep path (heads path visited)) :
    t.ClimbsBelow descent := by
  refine ⟨fun path visited henter q hq => ?_, fun path visited henter => ?_⟩
  · have hrow := hheads path visited henter
    rw [hplaces] at hq
    obtain ⟨p, hp, hq⟩ := List.mem_flatMap.mp hq
    obtain ⟨name, hname⟩ := hrow.exists_name hp
    refine ⟨name, ?_⟩
    rw [← hname]
    exact h.below (hrow.admitted p hp) q hq
  · have hrow := hheads path visited henter
    rw [hplaces, List.pairwise_flatMap]
    refine ⟨fun p hp => h.ordered (hrow.admitted p hp), ?_⟩
    refine hrow.pairwise.imp_of_mem fun {p p'} hp hp' hlt q hq q' hq' => ?_
    obtain ⟨a, b, hab, ha, hb⟩ := hlt
    have hq := h.below (hrow.admitted p hp) q hq
    have hq' := h.below (hrow.admitted p' hp') q' hq'
    rw [placeOn] at ha hb
    rw [ha] at hq
    rw [hb] at hq'
    exact WalkOrder.ranks_of_lt hab hq hq'

/-- An ellipsis at the end gives the path itself, and what is below. -/
lemma ClimbsBelow.combine {under : Descent} (h : t.ClimbsBelow under) :
    t.Climbs false (t.combine t.arrive under) := by
  have hparts : ∀ path visited, ∃ deeper : List Place,
      (placesIn (t.combine t.arrive under path visited)
        = if t.plan.order = .insideOut then deeper ++ [Tree.placeOf path]
          else [Tree.placeOf path] ++ deeper) ∧
      (∀ q ∈ deeper, ∃ name, name :: Tree.placeOf path <:+ q) ∧
      deeper.Pairwise fun p q => t.plan.order.Ranks p.reverse q.reverse := by
    intro path visited
    refine ⟨placesIn (if isEnterable path then under path (t.entered path visited) else []), ?_, ?_⟩
    · have harrive : placesIn (t.arrive path (t.entered path visited)) = [Tree.placeOf path] := rfl
      rw [Trip.combine, ← harrive]
      cases t.plan.order <;> simp
    · split_ifs with henter
      · exact ⟨h.below henter, h.ordered henter⟩
      · exact ⟨List.forall_mem_nil _, List.Pairwise.nil⟩
  refine ⟨fun path visited _ q hq => ?_, fun path visited _ => ?_⟩
  · obtain ⟨deeper, hplaces, hdeeper, _⟩ := hparts path visited
    have hmem : q = Tree.placeOf path ∨ q ∈ deeper := by
      rw [hplaces] at hq
      split_ifs at hq
      · exact (List.mem_append.mp hq).symm.imp_left List.mem_singleton.mp
      · exact (List.mem_append.mp hq).imp_left List.mem_singleton.mp
    rcases hmem with rfl | hq
    · exact List.suffix_refl _
    · obtain ⟨name, hname⟩ := hdeeper q hq
      exact (List.suffix_cons name _).trans hname
  · obtain ⟨deeper, hplaces, hdeeper, hordered⟩ := hparts path visited
    have hsingle := List.pairwise_singleton
      (fun p q : Place => t.plan.order.Ranks p.reverse q.reverse) (Tree.placeOf path)
    rw [hplaces]
    split_ifs with horder
    · refine List.pairwise_append.mpr ⟨hordered, hsingle, fun q hq p hp => ?_⟩
      obtain ⟨name, hname⟩ := hdeeper q hq
      rw [List.mem_singleton.mp hp, horder]
      exact WalkOrder.ranks_insideOut hname
    · refine List.pairwise_append.mpr ⟨hsingle, hordered, fun p hp q hq => ?_⟩
      obtain ⟨name, hname⟩ := hdeeper q hq
      rw [List.mem_singleton.mp hp]
      exact WalkOrder.ranks_below horder hname

lemma climbs_arrive (t : Trip) : t.Climbs false t.arrive := by
  have hplaces : ∀ path visited, placesIn (t.arrive path visited) = [Tree.placeOf path] :=
    fun _ _ => rfl
  refine ⟨fun path visited _ => ?_, fun path visited _ => ?_⟩
  · rw [hplaces, List.forall_mem_singleton]
  · rw [hplaces]
    exact List.pairwise_singleton _ _

section

variable (hr : t.reader.IsFinite)
  (hlistings : ∀ path l, t.reader.openDirectory path = .ok l → l.names.Nodup)
  (hsorting : t.plan.sorting = .byName) (hcase : t.plan.ignoreCase = false)

include hr hlistings hsorting hcase

/-- **A sorted listing leads to a row.** -/
lemma isRow_steps (henter : isEnterable path) (wanted : String → Bool) (descent : Bool) :
    IsRow deep path (t.steps wanted descent deep path visited) := by
  refine ⟨fun p hp => enterable_of_mem_steps hp, ?_⟩
  cases hl : t.reader.listed t.plan path with
  | error fault =>
    rw [steps, hl]
    exact ⟨[], List.Pairwise.nil, List.nil_sublist _⟩
  | ok l =>
    have hnames : l.names.Pairwise (· < ·) := by
      obtain ⟨l', hopen, _⟩ := Reader.listed_perm hl
      rw [Reader.listed, hopen, hsorting, hcase] at hl
      simp only [Sorting.isEager, if_true] at hl
      cases hfault : l'.fault with
      | some fault => simp [hfault] at hl
      | none =>
        simp only [hfault, Sorting.arrange, Except.map, Except.ok.injEq] at hl
        subst hl
        exact pairwise_sortNames (hlistings _ l' hopen)
    exact ⟨l.names.filter wanted, hnames.filter wanted, steps_places hr henter hl wanted descent⟩

/-- An ellipsis at the end, in the orders that go to the bottom first. -/
lemma climbs_nested (n : ℕ) : t.Climbs false (t.nested false t.arrive n) := by
  induction n with
  | zero =>
    exact ClimbsBelow.combine ⟨fun _ _ _ => List.forall_mem_nil _, fun _ _ _ => List.Pairwise.nil⟩
  | succ n ih =>
    refine ClimbsBelow.combine ?_
    exact ih.row (placesIn_listing _ true false _) fun path visited henter =>
      isRow_steps hr hlistings hsorting hcase henter _ true

/-- **A descent climbs** that has no ellipsis, or one as its last component. -/
theorem climbs_walk (horder : t.plan.order ≠ .breadthFirst) {components : List Component}
    (hnames : ∀ name descent, .literal name descent ∈ components → IsName name)
    (hlast : ∀ c ∈ components.dropLast, c ≠ .ellipsis) :
    t.Climbs (needsDirectory components) (t.walk components) := by
  induction components with
  | nil => exact t.climbs_arrive
  | cons c rest ih =>
    have hrest : t.Climbs (needsDirectory rest) (t.walk rest) := by
      refine ih (fun name descent h => hnames name descent (List.mem_cons_of_mem c h)) ?_
      cases rest with
      | nil => exact List.forall_mem_nil _
      | cons d rest => exact fun e he => hlast e (List.mem_cons_of_mem c he)
    cases c with
    | literal name descent =>
      refine (hrest.row (t.placesIn_literal name descent _ _) fun path visited henter => ?_).climbs
      exact isRow_step henter (hnames name descent List.mem_cons_self) descent
    | wildcard w =>
      refine (hrest.row (t.placesIn_listing w.wants w.descent _ _)
        fun path visited henter => ?_).climbs
      exact isRow_steps hr hlistings hsorting hcase henter w.wants w.descent
    | ellipsis =>
      cases rest with
      | nil =>
        rw [walk, ellipsis_eq_nested horder]
        exact climbs_nested hr hlistings hsorting hcase _
      | cons d rest => exact absurd rfl (hlast .ellipsis List.mem_cons_self)

end

end Trip

/-! ## Results in order -/

/-- The path of a result, without those derived from it. -/
def Answer.first : Answer → String
  | .path p => p
  | .derived ps => ps.headD ""

/-- What a path comes to has it first. -/
lemma first_answerAt {plan : Plan} {base : Option PathSpec} {root : Root} {path : String}
    {answer : Answer} (h : answerAt plan base root path = .ok answer) : answer.first = path := by
  rw [answerAt] at h
  split at h
  · cases h
    rfl
  · next templates _ =>
    rw [derivePaths] at h
    split at h
    · cases h
    · cases h
      rfl

/-- The places of results, in turn, are among those that are arrived at. -/
lemma places_answersIn (r : Reader) (plan : Plan) (base : Option PathSpec) (ds : List Deed) :
    ((answersIn r plan base ds).map fun a => Tree.placeOf a.first).Sublist (placesIn ds) := by
  induction ds with
  | nil => exact List.Sublist.slnil
  | cons d ds ih =>
    cases d with
    | arrived root path =>
      rw [answersIn, List.filterMap_cons, Deed.answer?, arrival]
      split_ifs
      · cases hanswer : answerAt plan base root path with
        | error e => exact ih.cons _
        | ok answer =>
          simp only [List.map_cons, first_answerAt hanswer]
          exact ih.cons_cons _
      · exact ih.cons _
    | _ => exact ih

namespace Scan

/-- **Sorted listings give sorted results.**  If names are wanted in order, with regard to case, a
scan of a path with no ellipsis, or with one as its last component, gives its results in
lexicographic order of their names, each path before what is below it; with contents first, behind
it.  Links, whether or not they are followed, errors and derived paths change nothing about that. -/
theorem answers_in_order {r : Reader} (hr : r.IsFinite)
    (hlistings : ∀ path l, r.openDirectory path = .ok l → l.names.Nodup) {plan : Plan}
    (hsys : r.FailsBySystem plan) (hsorting : plan.sorting = .byName)
    (hcase : plan.ignoreCase = false)
    {path : PathSpec.PathInput} (hpath : path.IsSlashFree) {absolute : Option Bool}
    {matching : Option PatternInput} {follow : Bool} {spec : PathSpec}
    (hspec : PathSpec.compile plan.ignoreCase path absolute matching follow = .ok spec)
    (hlast : ∀ c ∈ spec.components.dropLast, c ≠ .ellipsis) (s : Scan) :
    ∃ answers, (s.start spec).Answers r plan answers ∧
      (plan.order = .normal → (answers.map fun a => namesOf a.first).Pairwise (· < ·)) ∧
      (plan.order = .insideOut →
        (answers.map fun a => namesOf a.first).Pairwise WalkOrder.insideOut.Ranks) := by
  set deeds := (spec.trip r plan).walk spec.components spec.rootPath [] with hdeeds
  have hnames : ∀ name descent, .literal name descent ∈ spec.components → IsName name :=
    fun name descent hmem => PathSpec.isName_of_compile hpath hspec hmem
  have hroot : Trip.Admits (needsDirectory spec.components) spec.rootPath := by
    rw [Trip.Admits, spec.isEnterable_rootPath, Bool.true_or]
  have hordered : plan.order ≠ .breadthFirst →
      ((answersIn r plan (some spec) deeds).map fun a => namesOf a.first).Pairwise
        plan.order.Ranks := by
    intro horder
    have hclimbs := (spec.trip r plan).climbs_walk hr hlistings hsorting hcase horder hnames hlast
    have hplaces : (placesIn deeds).Pairwise fun p q => plan.order.Ranks p.reverse q.reverse :=
      hclimbs.ordered hroot
    have hanswers := hplaces.sublist (places_answersIn r plan (some spec) deeds)
    rw [List.pairwise_map] at hanswers ⊢
    exact hanswers
  refine ⟨answersIn r plan (some spec) deeds, answers_start hr hsys s spec, fun horder => ?_,
    fun horder => ?_⟩
  · have hne : WalkOrder.normal ≠ .insideOut := WalkOrder.noConfusion
    rw [horder] at hordered
    exact (hordered WalkOrder.noConfusion).imp (WalkOrder.ranks_iff_lt hne).mp
  · rw [horder] at hordered
    exact hordered WalkOrder.noConfusion

/-- Names with a character that comes before the slash, below a directory that is met again by a
link. -/
theorem answers_in_order_hyphen :
    ∃ spec, PathSpec.compile false (.text "a*/*///") none none true = .ok spec ∧
      (∀ c ∈ spec.components.dropLast, c ≠ .ellipsis) ∧
      ∀ (order : WalkOrder) (s : Scan),
        let t := Tree.ofEntries [.path "a/b/c", .path "a-b/d", .link "a/up" "/a", .path "a/B"]
        let r := t.reader ⟨[], [], true⟩
        let plan : Plan := ⟨order, .byName, none, none, false⟩
        ∃ answers, (s.start spec).Answers r plan answers ∧
          (order = .normal → (answers.map fun a => namesOf a.first).Pairwise (· < ·)) ∧
          (order = .insideOut →
            (answers.map fun a => namesOf a.first).Pairwise WalkOrder.insideOut.Ranks) := by
  obtain ⟨spec, hspec, htest⟩ := PathSpec.exists_compile false true (.text "a*/*///") none
    (fun spec => decide (∀ c ∈ spec.components.dropLast, c ≠ .ellipsis)) (by decide +kernel)
  have hlast := of_decide_eq_true htest
  refine ⟨spec, hspec, hlast, fun order s => ?_⟩
  have hslash : PathSpec.PathInput.IsSlashFree (.text "a*/*///") := trivial
  have hplan : Sorting.NeverRaises (Plan.mk order .byName none none false).sorting :=
    fun _ h => by cases h
  have hsystem : Disturbance.IsSystem ⟨[], [], true⟩ := fun _ h => absurd h List.not_mem_nil
  intro t r plan
  have hlistings : ∀ path l, r.openDirectory path = .ok l → l.names.Nodup := by
    intro path l (hl : t.openPath ⟨[], [], true⟩ path = .ok l)
    exact Tree.nodup_of_openPath (by decide +kernel) (by decide +kernel) hl
  exact answers_in_order (Tree.reader_isFinite (Tree.isNamed_ofEntries _) _) hlistings
    (Tree.reader_failsBySystem hsystem hplan) rfl rfl hslash hspec hlast s

end Scan

end PathExpansion
