import Mathlib.Data.List.Infix
import PathExpansion.Proofs.Meaning
import PathExpansion.Proofs.Orders

/-!
# Leaving out is filtering

A pattern of paths to leave out is asked about every path that a name is put behind, on each of the
routes by which a scan goes down.  What it finds is cut off with everything below.  To a caller it
is as if the scan had gone everywhere, and those of its paths had been dropped then that have a
place on the way which the pattern finds.

* `waypoints` — the places on the way to a path, itself included.
* `Pattern.spares` — the pattern finds none of them; `Pattern.spares_append`, going down by a name.
* `Trip.excluding`, `Trip.extend_excluding` — the one place where paths are left out, and what is
  left of its result.
* `Trip.Prunes` — a descent that leaves out, and one that does not.
* `Trip.Prunes.literal`, `Trip.Prunes.listing`, `Trip.prunes_nested`, `Trip.prunes_byLevel` — the
  routes on which a name is put behind a path.
* **`Trip.prunes_walk`** — they make up whole descents.
* **`Scan.shows_filter`** — a scan that leaves out shows what is left of one that does not.
-/

namespace PathExpansion

/-! ## Places on the way -/

/-- **The places on the way to a path**, itself included: what stands before a slash in it, and all
of it, if that is not empty and has no slash at its end. -/
def waypoints (path : String) : List String :=
  (path.toList.inits.map String.ofList).filter fun q =>
    !isEnterable q && (q == path || (q.toList ++ ['/']).isPrefixOf path.toList)

lemma mem_waypoints {q path : String} :
    q ∈ waypoints path ↔
      isEnterable q = false ∧ (q = path ∨ q.toList ++ ['/'] <+: path.toList) := by
  have hprefix : (q = path ∨ q.toList ++ ['/'] <+: path.toList) → q.toList <+: path.toList := by
    rintro (rfl | h)
    · exact List.prefix_refl _
    · exact (List.prefix_append _ _).trans h
  rw [waypoints, List.mem_filter, List.mem_map]
  simp only [List.mem_inits, Bool.and_eq_true, Bool.not_eq_true', Bool.or_eq_true, beq_iff_eq,
    List.isPrefixOf_iff_prefix]
  constructor
  · exact And.right
  · exact fun h => ⟨⟨q.toList, hprefix h.2, String.ofList_toList⟩, h⟩

namespace Pattern

variable {X : Pattern} {path name : String}

/-- The pattern finds no place on the way to a path. -/
def spares (X : Pattern) (path : String) : Bool := (waypoints path).all (!X.finds ·)

lemma spares_iff : X.spares path ↔ ∀ q ∈ waypoints path, X.finds q = false := by
  simp [spares]

/-- A slash behind a path is no further place. -/
lemma spares_append_slash (X : Pattern) (path : String) :
    X.spares (path ++ "/") = X.spares path := by
  have hmem : ∀ q, q ∈ waypoints (path ++ "/") ↔ q ∈ waypoints path := by
    intro q
    have hprefix : q.toList ++ ['/'] <+: (path ++ "/").toList
        ↔ q = path ∨ q.toList ++ ['/'] <+: path.toList := by
      rw [String.toList_append, show "/".toList = ['/'] by simp, List.prefix_concat_iff,
        List.append_left_inj, String.toList_inj]
    rw [mem_waypoints, mem_waypoints, hprefix]
    refine and_congr_right fun hq => or_iff_right ?_
    rintro rfl
    rw [isEnterable_append_slash] at hq
    cases hq
  rw [Bool.eq_iff_iff, spares_iff, spares_iff]
  simp only [hmem]

/-- Going down by a name leads to one place more. -/
lemma spares_append (hpath : isEnterable path) (hname : IsName name) :
    X.spares (path ++ name) = (X.spares path && !X.finds (path ++ name)) := by
  have hmem : ∀ q, q ∈ waypoints (path ++ name) ↔ q ∈ waypoints path ∨ q = path ++ name := by
    intro q
    -- a slash in the longer path is one in the shorter, since the name has none
    have hprefix : q.toList ++ ['/'] <+: (path ++ name).toList ↔
        q.toList ++ ['/'] <+: path.toList := by
      rw [String.toList_append]
      refine ⟨fun h => ?_, fun h => h.trans (List.prefix_append _ _)⟩
      rcases List.prefix_or_prefix_of_prefix h (List.prefix_append path.toList name.toList) with
        h' | ⟨t, ht⟩
      · exact h'
      · rw [← ht, List.prefix_append_right_inj] at h
        rcases List.eq_nil_or_concat' t with rfl | ⟨t, c, rfl⟩
        · rw [← ht, List.append_nil]
        · rw [← List.append_assoc] at ht
          have hslash : c = '/' := List.singleton_injective (List.append_inj' ht rfl).2
          exact absurd (h.subset (by simp [hslash])) hname.2
    rw [mem_waypoints, mem_waypoints, hprefix]
    have hself : ∀ q, isEnterable q = false → q ≠ path := by
      rintro q hq rfl
      rw [hpath] at hq
      cases hq
    constructor
    · rintro ⟨hq, rfl | h⟩
      · exact Or.inr rfl
      · exact Or.inl ⟨hq, Or.inr h⟩
    · rintro (⟨hq, rfl | h⟩ | rfl)
      · exact absurd rfl (hself q hq)
      · exact ⟨hq, Or.inr h⟩
      · exact ⟨isEnterable_append hname, Or.inl rfl⟩
  rw [Bool.eq_iff_iff, Bool.and_eq_true, Bool.not_eq_true', spares_iff, spares_iff]
  simp only [hmem, or_imp, forall_and, forall_eq]

/-- There is no place on the way to where a path starts. -/
lemma spares_rootPath (spec : PathSpec) : X.spares spec.rootPath := by
  rw [PathSpec.rootPath]
  split <;> rfl

end Pattern

/-- What is seen has no place on the way that a pattern finds.  There is none on the way to the
current directory, whose name stands for no path. -/
def Sight.isSpared (X : Pattern) : Sight → Bool
  | listed directory => directory == "." || X.spares directory
  | found path => X.spares path

lemma Sight.isSpared_listed {X : Pattern} {path : String} (h : isEnterable path) :
    (Sight.listed (orDot path)).isSpared X = X.spares path := by
  rw [isSpared]
  by_cases hempty : path = ""
  · subst hempty
    rfl
  · have hdot : path ≠ "." := by
      rintro rfl
      exact absurd h (by decide)
    rw [orDot, if_neg hempty, beq_eq_false_iff_ne.mpr hdot, Bool.false_or]

/-! ## Descents -/

namespace Trip

/-- The same trip with a pattern of paths to leave out. -/
def excluding (t : Trip) (X : Pattern) : Trip :=
  { t with plan := { t.plan with exclude := some X } }

variable {t : Trip}

/-- **Going down by a name**: what is left out is what is not spared of where the name leads. -/
lemma extend_excluding (X : Pattern) (hexclude : t.plan.exclude = none) {path name : String}
    (hpath : isEnterable path) (hname : IsName name) (visited : Visited) (descent : Bool) :
    (t.extend path visited name descent).filter (fun p => X.spares p.1)
      = if X.spares path then (t.excluding X).extend path visited name descent else none := by
  obtain ⟨p, hp, hplace⟩ : ∃ p, t.extend path visited name descent = some p ∧
      (p.1 = path ++ name ∨ p.1 = path ++ name ++ "/") := by
    simp only [extend, hexclude, Option.any_none, Bool.false_eq_true, if_false]
    split_ifs <;> simp
  have hpruned : (t.excluding X).extend path visited name descent
      = if X.finds (path ++ name) then none else t.extend path visited name descent := by
    simp only [extend, hexclude, Option.any_none, Bool.false_eq_true, if_false]
    rfl
  have hspares : X.spares p.1 = (X.spares path && !X.finds (path ++ name)) := by
    rw [← Pattern.spares_append hpath hname]
    rcases hplace with h | h
    · rw [h]
    · rw [h, X.spares_append_slash]
  rw [hpruned, hp, Option.filter_some, hspares]
  cases X.spares path <;> cases X.finds (path ++ name) <;> rfl

/-- So it is with where one step leads, -/
lemma step_excluding (X : Pattern) (hexclude : t.plan.exclude = none) {path name : String}
    (hpath : isEnterable path) (hname : IsName name) (visited : Visited) (descent deep : Bool) :
    (t.step name descent deep path visited).filter (fun p => X.spares p.1)
      = if X.spares path then (t.excluding X).step name descent deep path visited else [] := by
  have hextend := congrArg Option.toList (extend_excluding X hexclude hpath hname visited descent)
  rw [Option.toList_filter] at hextend
  rw [step, step, List.filter_comm, hextend]
  cases X.spares path <;> rfl

/-- and with where the names in a directory do, which are the same. -/
lemma steps_excluding (X : Pattern) (hr : t.reader.IsFinite) (hexclude : t.plan.exclude = none)
    {path : String} (hpath : isEnterable path) (visited : Visited) (wanted : String → Bool)
    (descent deep : Bool) :
    (t.steps wanted descent deep path visited).filter (fun p => X.spares p.1)
      = if X.spares path then (t.excluding X).steps wanted descent deep path visited else [] := by
  have hlisted : (t.excluding X).reader.listed (t.excluding X).plan path
      = t.reader.listed t.plan path := rfl
  rw [steps, steps, hlisted]
  cases hl : t.reader.listed t.plan path with
  | error fault => exact (ite_self []).symm
  | ok l =>
    have hnames : ∀ name ∈ l.names.filter wanted,
        (t.step name descent deep path visited).filter (fun p => X.spares p.1)
          = if X.spares path then (t.excluding X).step name descent deep path visited else [] :=
      fun name hname => step_excluding X hexclude hpath
        (hr.isName hl (List.mem_of_mem_filter hname)) visited descent deep
    simp only [List.filter_flatMap]
    rw [List.flatMap_congr hnames]
    cases X.spares path with
    | true => rfl
    | false => exact List.flatMap_eq_nil_iff.mpr fun _ _ => rfl

lemma subdirectories_excluding (X : Pattern) (hr : t.reader.IsFinite)
    (hexclude : t.plan.exclude = none) {d : String × Visited} (hd : isEnterable d.1) :
    (t.subdirectories d).filter (fun p => X.spares p.1)
      = if X.spares d.1 then (t.excluding X).subdirectories d else [] := by
  rw [subdirectories_eq true, subdirectories_eq true, List.filter_comm,
    steps_excluding X hr hexclude hd]
  cases X.spares d.1 <;> rfl

end Trip

/-! ## Descents -/

/-- What is left of many is what is left of each. -/
lemma filter_flatMap_eq {α β : Type} {p : β → Bool} {q : α → Bool} {f g : α → List β} {as : List α}
    (h : ∀ a ∈ as, (f a).filter p = if q a then g a else []) :
    (as.flatMap f).filter p = (as.filter q).flatMap g := by
  rw [List.filter_flatMap]
  induction as with
  | nil => rfl
  | cons a as ih =>
    rw [List.forall_mem_cons] at h
    rw [List.flatMap_cons, h.1, ih h.2, List.filter_cons]
    cases q a <;> rfl

namespace Trip

section

variable (r : Reader) (base : Option PathSpec) (X : Pattern)

/-- **One descent shows what is left of another** if what is not spared is dropped; from a path that
is not spared, nothing is left.  This is so wherever the descents come to: at a path that can be
entered, or, if nothing has to be found inside, at any. -/
def Prunes (deep : Bool) (pruned next : Descent) : Prop :=
  ∀ ⦃path visited⦄, (isEnterable path || !deep) →
    (sightsIn r base (next path visited)).filter (Sight.isSpared X)
      = if X.spares path then sightsIn r base (pruned path visited) else []

end

variable {t : Trip} {X : Pattern} {r : Reader} {base : Option PathSpec} {deep : Bool}
  {pruned next : Descent}

/-- A path that can be entered, or any if nothing has to be found inside. -/
lemma enterable_of_mem_step {name path : String} {descent : Bool} {visited : Visited}
    {p : String × Visited} (hp : p ∈ t.step name descent deep path visited) :
    isEnterable p.1 || !deep :=
  (List.mem_filter.mp hp).2

lemma enterable_of_mem_steps {wanted : String → Bool} {path : String} {descent : Bool}
    {visited : Visited} {p : String × Visited} (hp : p ∈ t.steps wanted descent deep path visited) :
    isEnterable p.1 || !deep := by
  rw [steps] at hp
  cases hl : t.reader.listed t.plan path with
  | error fault =>
    rw [hl] at hp
    cases hp
  | ok l =>
    rw [hl] at hp
    obtain ⟨name, -, hp⟩ := List.mem_flatMap.mp hp
    exact enterable_of_mem_step hp

lemma prunes_arrive (t : Trip) : Prunes r base X false (t.excluding X).arrive t.arrive := by
  intro path visited _
  have hsame : (t.excluding X).arrive path visited = t.arrive path visited := rfl
  rw [hsame, arrive, sightsIn, List.filterMap_cons, List.filterMap_nil, Deed.sight?]
  cases (t.root.spec base).matcher.finds path && r.isPresent path with
  | false => exact (ite_self []).symm
  | true => exact List.filter_cons

/-- What is left behind some paths is what is left behind those that are spared. -/
lemma Prunes.flatMap (h : Prunes r base X deep pruned next) {ps : List (String × Visited)}
    (hps : ∀ p ∈ ps, isEnterable p.1 || !deep) :
    (ps.flatMap fun p => sightsIn r base (next p.1 p.2)).filter (Sight.isSpared X)
      = (ps.filter fun p => X.spares p.1).flatMap fun p => sightsIn r base (pruned p.1 p.2) :=
  filter_flatMap_eq fun p hp => h (hps p hp)

lemma Prunes.combine {under punder : Descent} (h : Prunes r base X deep pruned next)
    (hunder : Prunes r base X true punder under) :
    Prunes r base X deep ((t.excluding X).combine pruned punder) (t.combine next under) := by
  intro path visited hpath
  have hhere : (sightsIn r base (next path (t.entered path visited))).filter (Sight.isSpared X)
      = if X.spares path then sightsIn r base (pruned path (t.entered path visited)) else [] :=
    h hpath
  have hbelow : (sightsIn r base
        (if isEnterable path then under path (t.entered path visited) else [])).filter
          (Sight.isSpared X)
      = if X.spares path then sightsIn r base
          (if isEnterable path then punder path (t.entered path visited) else []) else [] := by
    by_cases henter : isEnterable path
    · rw [if_pos henter, if_pos henter]
      exact hunder (by rw [henter, Bool.true_or])
    · rw [if_neg henter, if_neg henter]
      exact (ite_self []).symm
  have hentered : (t.excluding X).entered path visited = t.entered path visited := rfl
  have horder : (t.excluding X).plan.order = t.plan.order := rfl
  rw [Trip.combine, Trip.combine, hentered, horder]
  cases t.plan.order with
  | insideOut =>
    simp only [List.cons_append, sightsIn_moved, sightsIn_append, List.filter_append, hhere, hbelow]
    cases X.spares path <;> rfl
  | normal | breadthFirst =>
    simp only [List.cons_append, sightsIn_moved, sightsIn_append, List.filter_append, hhere, hbelow]
    cases X.spares path <;> rfl

section

variable (hexclude : t.plan.exclude = none)

include hexclude

lemma Prunes.literal (h : Prunes r base X deep pruned next) {name : String} (hname : IsName name)
    (descent : Bool) :
    Prunes r base X true ((t.excluding X).literal name descent deep pruned)
      (t.literal name descent deep next) := by
  intro path visited hpath
  rw [Bool.not_true, Bool.or_false] at hpath
  have hleads : ∀ (t : Trip) (next : Descent),
      sightsIn r base (t.literal name descent deep next path visited)
        = (t.step name descent deep path visited).flatMap fun p => sightsIn r base (next p.1 p.2) :=
    fun t next => filterMap_literal rfl name descent deep next
  rw [hleads, hleads, h.flatMap fun p => enterable_of_mem_step,
    step_excluding X hexclude hpath hname]
  cases X.spares path <;> rfl

section

variable (hr : t.reader.IsFinite)

include hr

lemma Prunes.listing (h : Prunes r base X deep pruned next) (wanted : String → Bool)
    (descent : Bool) :
    Prunes r base X true
      ((t.excluding X).listing wanted fun name => (t.excluding X).literal name descent deep pruned)
      (t.listing wanted fun name => t.literal name descent deep next) := by
  intro path visited hpath
  rw [Bool.not_true, Bool.or_false] at hpath
  have hleads : ∀ (t : Trip) (next : Descent),
      sightsIn r base (t.listing wanted (fun name => t.literal name descent deep next) path visited)
        = .listed (orDot path) :: (t.steps wanted descent deep path visited).flatMap fun p =>
            sightsIn r base (next p.1 p.2) :=
    fun t next => filterMap_listing rfl (fun _ => rfl) wanted descent deep next
  rw [hleads, hleads, List.filter_cons, Sight.isSpared_listed hpath,
    h.flatMap fun p => enterable_of_mem_steps, steps_excluding X hr hexclude hpath]
  cases X.spares path <;> rfl

/-- **An ellipsis that gives a directory next to its contents.** -/
lemma prunes_nested (h : Prunes r base X deep pruned next) (n : ℕ) :
    Prunes r base X deep ((t.excluding X).nested deep pruned n) (t.nested deep next n) := by
  induction n with
  | zero => exact h.combine fun _ _ _ => (ite_self []).symm
  | succ n ih => exact h.combine (ih.listing hexclude hr _ true)

lemma Prunes.visit (h : Prunes r base X deep pruned next) {d : String × Visited}
    (hd : isEnterable d.1) :
    (sightsIn r base (t.visit deep next d)).filter (Sight.isSpared X)
      = if X.spares d.1 then sightsIn r base ((t.excluding X).visit deep pruned d) else [] := by
  have hleads : ∀ (t : Trip) (next : Descent), sightsIn r base (t.visit deep next d)
      = .listed (orDot d.1) :: (t.steps (!isDotName ·) true deep d.1 d.2).flatMap fun p =>
          sightsIn r base (next p.1 p.2) :=
    fun t next => filterMap_visit rfl (fun _ => rfl) deep next d
  rw [hleads, hleads, List.filter_cons, Sight.isSpared_listed hd,
    h.flatMap fun p => enterable_of_mem_steps, steps_excluding X hr hexclude hd]
  cases X.spares d.1 <;> rfl

/-- What is left of the levels below some directories is the levels below those that are spared. -/
lemma Prunes.levels (h : Prunes r base X deep pruned next) (n : ℕ) {dirs : List (String × Visited)}
    (hdirs : ∀ d ∈ dirs, isEnterable d.1) :
    (sightsIn r base (t.levels deep next n dirs)).filter (Sight.isSpared X)
      = sightsIn r base
          ((t.excluding X).levels deep pruned n (dirs.filter fun d => X.spares d.1)) := by
  induction n generalizing dirs with
  | zero => rfl
  | succ n ih =>
    have hbelow : ∀ d ∈ dirs.flatMap t.subdirectories, isEnterable d.1 := by
      intro d hd
      obtain ⟨parent, -, hd⟩ := List.mem_flatMap.mp hd
      rw [subdirectories_eq true] at hd
      exact (List.mem_filter.mp hd).2
    have hsub : (dirs.flatMap t.subdirectories).filter (fun d => X.spares d.1)
        = (dirs.filter fun d => X.spares d.1).flatMap (t.excluding X).subdirectories :=
      filter_flatMap_eq fun d hd => subdirectories_excluding X hr hexclude (hdirs d hd)
    rw [Trip.levels, Trip.levels, sightsIn_append, sightsIn_append, List.filter_append, ih hbelow,
      hsub, sightsIn_flatMap, sightsIn_flatMap,
      filter_flatMap_eq fun d hd => h.visit hexclude hr (hdirs d hd)]

/-- **An ellipsis that goes level by level.** -/
lemma prunes_byLevel (h : Prunes r base X deep pruned next) (bare : Bool) (n : ℕ) :
    Prunes r base X deep ((t.excluding X).byLevel deep bare pruned n)
      (t.byLevel deep bare next n) := by
  intro path visited hpath
  set top := if isEnterable path then [(path, t.entered path visited)] else [] with htop
  have henter : ∀ d ∈ top, isEnterable d.1 := by
    intro d hd
    by_cases h : isEnterable path
    · rw [htop, if_pos h] at hd
      rwa [List.mem_singleton.mp hd]
    · rw [htop, if_neg h] at hd
      cases hd
  have hspared : top.filter (fun d => X.spares d.1) = if X.spares path then top else [] := by
    rw [htop]
    by_cases h : isEnterable path
    · rw [if_pos h]
      exact List.filter_cons
    · rw [if_neg h]
      exact (ite_self []).symm
  have hhere : (sightsIn r base
        (if bare then [] else next path (t.entered path visited))).filter (Sight.isSpared X)
      = if X.spares path then
          sightsIn r base (if bare then [] else pruned path (t.entered path visited)) else [] := by
    cases bare with
    | true => exact (ite_self []).symm
    | false => exact h hpath
  have hlevels := h.levels hexclude hr n henter
  rw [hspared] at hlevels
  have hentered : (t.excluding X).entered path visited = t.entered path visited := rfl
  simp only [byLevel, hentered, List.cons_append, sightsIn_moved, sightsIn_append, sightsIn_nil,
    List.append_nil, List.filter_append, ← htop, hhere, hlevels]
  cases X.spares path with
  | true => rfl
  | false => simp

/-- **A walk that leaves out shows what is left of one that does not.** -/
theorem prunes_walk {components : List Component}
    (hnames : ∀ name descent, .literal name descent ∈ components → IsName name) :
    Prunes r base X (needsDirectory components) ((t.excluding X).walk components)
      (t.walk components) := by
  induction components with
  | nil => exact prunes_arrive t
  | cons c rest ih =>
    have hrest := ih fun name descent hmem => hnames name descent (List.mem_cons_of_mem c hmem)
    cases c with
    | literal name descent =>
      exact hrest.literal hexclude (hnames name descent List.mem_cons_self) descent
    | wildcard w => exact hrest.listing hexclude hr w.wants w.descent
    | ellipsis =>
      have hdeep : needsDirectory (.ellipsis :: rest) = needsDirectory rest := rfl
      have horder : (t.excluding X).plan.order = t.plan.order := rfl
      rw [hdeep, walk, walk, ellipsis, ellipsis, horder]
      cases t.plan.order with
      | breadthFirst => exact prunes_byLevel hexclude hr hrest rest.isEmpty _
      | normal | insideOut => exact prunes_nested hexclude hr hrest _

end

end

end Trip

/-! ## Compiled paths and scans -/

/-- The names in a compiled path are names, if no slash is hidden in it. -/
lemma PathSpec.isName_of_compile {ignoreCase follow : Bool} {path : PathInput}
    (hpath : path.IsSlashFree) {absolute : Option Bool} {matching : Option PatternInput}
    {spec : PathSpec} (h : compile ignoreCase path absolute matching follow = .ok spec)
    {name : String} {descent : Bool} (hname : .literal name descent ∈ spec.components) :
    IsName name := by
  obtain ⟨parts, hsplit, hcomponents, -⟩ := exists_split_of_compile h
  obtain ⟨part, hpart, hcompile⟩ := hcomponents _ hname
  obtain ⟨hempty, rfl⟩ := Component.compile_eq_literal hcompile
  exact ⟨hempty, slash_not_mem_of_split hpath hsplit hpart⟩

namespace Scan

/-- **Leaving out is filtering.**  A scan that leaves out what a pattern finds gives the results, in
the same order, of one that does not, less those with a place on the way that the pattern finds, and
lists the same directories less those. -/
theorem shows_filter {t : Tree} (ht : t.IsNamed) {d : Disturbance} (hd : d.IsSystem) {plan : Plan}
    (hexclude : plan.exclude = none) (hsort : plan.sorting.FailsBySystem)
    {path : PathSpec.PathInput} (hpath : path.IsSlashFree) {absolute : Option Bool}
    {matching : Option PatternInput} {follow : Bool} {spec : PathSpec}
    (hspec : PathSpec.compile plan.ignoreCase path absolute matching follow = .ok spec)
    (hfits : plan.Fits spec.matcher) (X : Pattern) :
    ∃ sights : List Sight, ∀ s : Scan, s.policy.NeverStops →
      (s.start spec).Shows (t.reader d) plan spec.matcher sights ∧
      (s.start spec).Shows (t.reader d) { plan with exclude := some X } spec.matcher
        (sights.filter (Sight.isSpared X)) := by
  have hr : (t.reader d).IsFinite := Tree.reader_isFinite ht d
  have hsys : ∀ exclude, (t.reader d).FailsBySystem { plan with exclude := exclude } := fun _ =>
    Tree.listed_failsBySystem hd hsort
  have hprunes : Trip.Prunes (t.reader d) (some spec) X (needsDirectory spec.components)
      (((spec.trip (t.reader d) plan).excluding X).walk spec.components)
      ((spec.trip (t.reader d) plan).walk spec.components) :=
    Trip.prunes_walk (t := spec.trip (t.reader d) plan) hexclude hr fun name descent hmem =>
      PathSpec.isName_of_compile hpath hspec hmem
  have hroot : isEnterable spec.rootPath || !needsDirectory spec.components := by
    rw [PathSpec.rootPath]
    cases spec.absolute <;> rfl
  have hleft := @hprunes spec.rootPath [] hroot
  rw [if_pos (Pattern.spares_rootPath spec)] at hleft
  refine ⟨_, fun s hs => ⟨s.start_shows hr (hsys plan.exclude) spec hfits (hs.bears _), ?_⟩⟩
  rw [hleft]
  exact s.start_shows hr (hsys (some X)) spec hfits (hs.bears _)

/-- A name that is left out at two depths, in a tree with a directory that cannot be opened and a
link that leads back. -/
theorem shows_filter_depths :
    ∃ spec X, PathSpec.compile false (.text "///*") none none true = .ok spec ∧
      Pattern.compile false "b$" = .ok X ∧ X.spares "a/c" = true ∧ X.spares "a/b/c" = false ∧
      ∃ sights : List Sight, ∀ s : Scan, s.policy.NeverStops →
        (s.start spec).Shows ((Tree.ofEntries [.path "a/b/c", .path "b/", .path "a/c",
            .link "a/up" "/"]).reader ⟨[("a/up", .permission)], [], false⟩)
          ⟨.breadthFirst, .byName, none, none, false⟩ spec.matcher sights ∧
        (s.start spec).Shows ((Tree.ofEntries [.path "a/b/c", .path "b/", .path "a/c",
            .link "a/up" "/"]).reader ⟨[("a/up", .permission)], [], false⟩)
          ⟨.breadthFirst, .byName, some X, none, false⟩ spec.matcher
          (sights.filter (Sight.isSpared X)) := by
  obtain ⟨spec, hspec, -⟩ := PathSpec.exists_compile false true (.text "///*") none (fun _ => true)
    (by decide +kernel)
  have hX : ((Pattern.compile false "b$").toOption.map fun X =>
      X.spares "a/c" && !X.spares "a/b/c") = some true := by decide +kernel
  cases hcompile : Pattern.compile false "b$" with
  | error problem =>
    rw [hcompile] at hX
    cases hX
  | ok X =>
    rw [hcompile] at hX
    have hspares := Option.some.inj hX
    rw [Bool.and_eq_true, Bool.not_eq_true'] at hspares
    have hd : Disturbance.IsSystem ⟨[("a/up", .permission)], [], false⟩ :=
      List.forall_mem_singleton.mpr rfl
    have hslash : PathSpec.PathInput.IsSlashFree (.text "///*") := trivial
    have hexclude : (Plan.mk .breadthFirst .byName none none false).exclude = none := rfl
    exact ⟨spec, X, hspec, rfl, hspares.1, hspares.2,
      shows_filter (Tree.isNamed_ofEntries _) hd hexclude (fun _ h => by cases h) hslash hspec
        (fun _ h => by cases h) X⟩

end Scan

end PathExpansion
