import PathExpansion.Proofs.Descent
import PathExpansion.Proofs.Tree.Finite

/-!
# A scan by level

In the order that goes level by level, an ellipsis is what remains behind it, here, and then at
every entry of the directories below: first of all those right below, then of those one level
further down, and so on.  Each directory is listed once, and what is found in it is followed before
the next is listed.

* `Trip.level`, `Trip.entries` — the directories of a level, and what a directory holds.
* `IsLevelOrder` — a descent with the equation for ellipses.
* `IsLevelOrder.unique` — there is at most one.
* `PathSpec.isLevelOrder_sightsFrom` — there is one: the walk of a specification.
* **`Scan.shows_levelOrder`** — a scan that goes level by level shows just that.
-/

namespace PathExpansion

namespace Trip

variable (t : Trip)

/-- The directories that are so many levels below some. -/
def level : (k : ℕ) → List (String × Visited) → List (String × Visited)
  | 0, dirs => dirs
  | k + 1, dirs => level k (dirs.flatMap t.subdirectories)

/-- The paths in a directory, with the directories entered on the way there: none that is left out,
and if something has to be found inside, only those that can be entered. -/
def entries (deep : Bool) (d : String × Visited) : List (String × Visited) :=
  match t.reader.listed t.plan d.1 with
  | .error _ => []
  | .ok l => (t.reached l.names d.1 d.2).filter fun p => isEnterable p.1 || !deep

end Trip

/-- **A descent that goes level by level.** -/
structure IsLevelOrder (r : Reader) (plan : Plan) (spec : PathSpec)
    (E : String → List Component → Visited → List Sight) : Prop
    extends IsDescent r plan spec E where
  /-- An ellipsis stands for the path itself, unless nothing else remains, and for every entry of
  the directories below it, level by level, until a level is empty. -/
  ellipsis : ∀ path rest visited,
    let t := spec.trip r plan
    let visited' := t.entered path visited
    let top := if isEnterable path then [(path, visited')] else []
    ∃ n, t.level n top = [] ∧ E path (.ellipsis :: rest) visited
      = (if rest.isEmpty then [] else E path rest visited')
        ++ (List.range n).flatMap fun k => (t.level k top).flatMap fun d =>
            .listed (orDot d.1) :: (t.entries (needsDirectory rest) d).flatMap fun p =>
              E p.1 rest p.2

namespace Trip

variable {t : Trip} {deep : Bool} {next : Descent}

/-! ## Levels -/

lemma level_nil (t : Trip) : ∀ k, t.level k [] = []
  | 0 => rfl
  | k + 1 => t.level_nil k

lemma level_add (t : Trip) (m n : ℕ) (dirs : List (String × Visited)) :
    t.level (m + n) dirs = t.level n (t.level m dirs) := by
  induction m generalizing dirs with
  | zero => rw [Nat.zero_add, level]
  | succ m ih => rw [Nat.succ_add, level, level, ih]

/-- Below an empty level there is nothing. -/
lemma level_eq_nil_of_le {m n : ℕ} {dirs : List (String × Visited)} (h : t.level m dirs = [])
    (hle : m ≤ n) : t.level n dirs = [] := by
  obtain ⟨k, rfl⟩ := Nat.exists_eq_add_of_le hle
  rw [level_add, h, level_nil]

/-- Directories with less room than `n` have nothing below them after `n` levels. -/
lemma level_eq_nil {room : String → Visited → ℕ} (hroom : t.Room room) (n : ℕ)
    (dirs : List (String × Visited)) (h : Waiting room n dirs) : t.level n dirs = [] := by
  induction n generalizing dirs with
  | zero =>
    refine List.eq_nil_iff_forall_not_mem.mpr fun d hd => ?_
    exact absurd (h d hd).2 (Nat.not_lt_zero _)
  | succ n ih =>
    rw [level]
    exact ih _ (waiting_subdirectories hroom h)

/-- It does not matter how many empty levels are counted. -/
lemma flatMap_levels_eq {α : Type} {m n : ℕ} {dirs : List (String × Visited)}
    (hm : t.level m dirs = []) (hn : t.level n dirs = []) (f : String × Visited → List α) :
    (List.range m).flatMap (fun k => (t.level k dirs).flatMap f)
      = (List.range n).flatMap fun k => (t.level k dirs).flatMap f := by
  have hmore : ∀ {i j : ℕ}, t.level i dirs = [] →
      (List.range (i + j)).flatMap (fun k => (t.level k dirs).flatMap f)
        = (List.range i).flatMap fun k => (t.level k dirs).flatMap f := by
    intro i j hi
    rw [List.range_add, List.flatMap_append, List.append_right_eq_self, List.flatMap_map,
      List.flatMap_eq_nil_iff]
    intro k _
    rw [level_eq_nil_of_le hi (Nat.le_add_right i k), List.flatMap_nil]
  rcases Nat.le_total m n with hle | hle
  · obtain ⟨j, rfl⟩ := Nat.exists_eq_add_of_le hle
    exact (hmore hm).symm
  · obtain ⟨j, rfl⟩ := Nat.exists_eq_add_of_le hle
    exact hmore hn

variable {r : Reader} {base : Option PathSpec}

/-- What is seen when one directory of a level is listed. -/
lemma sightsIn_visit (d : String × Visited) :
    sightsIn r base (t.visit deep next d)
      = .listed (orDot d.1) :: (t.entries deep d).flatMap fun p =>
          sightsIn r base (next p.1 p.2) := by
  rw [visit, entries, sightsIn_opened]
  cases t.reader.listed t.plan d.1 with
  | error fault => rfl
  | ok l =>
    simp only [sightsIn_append, sightsIn_readFault, List.append_nil]
    rw [found, sightsIn_flatMap]
    rfl

/-- What is seen of levels is what is seen of each, one after the other. -/
lemma sightsIn_levels (n : ℕ) (dirs : List (String × Visited)) :
    sightsIn r base (t.levels deep next n dirs)
      = (List.range n).flatMap fun k => (t.level k dirs).flatMap fun d =>
          sightsIn r base (t.visit deep next d) := by
  induction n generalizing dirs with
  | zero => rfl
  | succ n ih =>
    rw [levels, sightsIn_append, ih, sightsIn_flatMap, List.range_succ_eq_map, List.flatMap_cons,
      List.flatMap_map]
    rfl

end Trip

/-! ## There is just one -/

section

variable {r : Reader} {plan : Plan} {spec : PathSpec}

open Trip in
/-- **There is an order by levels**: what a descent has to do gives one. -/
theorem PathSpec.isLevelOrder_sightsFrom (hr : r.IsFinite) (horder : plan.order = .breadthFirst)
    (spec : PathSpec) : IsLevelOrder r plan spec (spec.sightsFrom r plan) where
  toIsDescent := spec.isDescent_sightsFrom
  ellipsis := by
    intro path rest visited t visited' top
    obtain ⟨room, hroom⟩ := Reader.IsFinite.exists_room (t := t) hr
    have htop : Waiting room (r.extent + 1) top := by
      intro d hd
      by_cases hpath : isEnterable path
      · rw [show top = [(path, visited')] from if_pos hpath, List.mem_singleton] at hd
        rw [hd]
        exact ⟨hpath, Nat.lt_succ_of_le (hroom.le_extent path visited')⟩
      · rw [show top = [] from if_neg hpath] at hd
        cases hd
    refine ⟨r.extent + 1, level_eq_nil hroom _ top htop, ?_⟩
    have hwalk : t.walk (.ellipsis :: rest)
        = t.byLevel (needsDirectory rest) rest.isEmpty (t.walk rest) (r.extent + 1) := by
      have hplan : t.plan.order = .breadthFirst := horder
      rw [walk, Trip.ellipsis, hplan]
      rfl
    rw [sightsFrom, hwalk, byLevel]
    simp only [List.cons_append, sightsIn_moved, sightsIn_append, sightsIn_nil, List.append_nil]
    rw [sightsIn_levels]
    simp only [sightsIn_visit]
    cases rest.isEmpty <;> rfl

variable {E F : String → List Component → Visited → List Sight}

/-- **Two descents that go level by level agree.** -/
theorem IsLevelOrder.unique (hE : IsLevelOrder r plan spec E) (hF : IsLevelOrder r plan spec F)
    (components : List Component) (path : String) (visited : Visited) :
    E path components visited = F path components visited := by
  induction components generalizing path visited with
  | nil => rw [hE.nil, hF.nil]
  | cons c rest ih =>
    cases hc : c.isEllipsis with
    | false => exact hE.agree hF.toIsDescent ih hc path visited
    | true =>
      obtain rfl := Component.eq_ellipsis hc
      obtain ⟨m, hm, hEeq⟩ := hE.ellipsis path rest visited
      obtain ⟨n, hn, hFeq⟩ := hF.ellipsis path rest visited
      rw [hEeq, hFeq]
      simp only [ih]
      rw [Trip.flatMap_levels_eq hm hn]

end

/-! ## The scan -/

/-- **A scan that goes level by level shows just that**, whatever links the tree has and whatever
cannot be listed in it: its results are those of the paths that are found, in the same order, and it
lists each directory of a level once. -/
theorem Scan.shows_levelOrder {t : Tree} (ht : t.IsNamed) {d : Disturbance} (hd : d.IsSystem)
    {plan : Plan} (horder : plan.order = .breadthFirst) (hsort : plan.sorting.NeverRaises)
    {spec : PathSpec} (hfits : plan.Fits spec.matcher) {s : Scan}
    (hpolicy : s.policy.NeverStops) :
    (∃ E, IsLevelOrder (t.reader d) plan spec E) ∧
    ∀ E, IsLevelOrder (t.reader d) plan spec E →
      (s.start spec).Shows (t.reader d) plan spec.matcher
        (E spec.rootPath spec.components []) := by
  have hr : (t.reader d).IsFinite := Tree.reader_isFinite ht d
  have hsys : (t.reader d).FailsBySystem plan := Tree.reader_failsBySystem hd hsort
  have hwalk := spec.isLevelOrder_sightsFrom hr horder
  refine ⟨⟨_, hwalk⟩, ?_⟩
  intro E hE
  rw [hE.unique hwalk]
  exact s.start_shows hr hsys spec hfits (hpolicy.bears _)

/-- Two ellipses in a tree with a directory that cannot be opened. -/
theorem Scan.shows_levelOrder_nested :
    (∃ E, IsLevelOrder ((Tree.ofEntries [.path "a/b/", .path "c/d"]).reader
        ⟨[("c", .permission)], [], true⟩)
      ⟨.breadthFirst, .asListed, none, none, false⟩
      ⟨[.ellipsis, .wildcard (.anyEntry false), .ellipsis], (Wildcard.anyEntry false).pattern,
        false, false⟩ E) ∧
    ∀ E, IsLevelOrder ((Tree.ofEntries [.path "a/b/", .path "c/d"]).reader
          ⟨[("c", .permission)], [], true⟩)
        ⟨.breadthFirst, .asListed, none, none, false⟩
        ⟨[.ellipsis, .wildcard (.anyEntry false), .ellipsis], (Wildcard.anyEntry false).pattern,
          false, false⟩ E →
      ((Scan.idle .standard).start ⟨[.ellipsis, .wildcard (.anyEntry false), .ellipsis],
          (Wildcard.anyEntry false).pattern, false, false⟩).Shows
        ((Tree.ofEntries [.path "a/b/", .path "c/d"]).reader ⟨[("c", .permission)], [], true⟩)
        ⟨.breadthFirst, .asListed, none, none, false⟩ (Wildcard.anyEntry false).pattern
        (E "" [.ellipsis, .wildcard (.anyEntry false), .ellipsis] []) :=
  Scan.shows_levelOrder (Tree.isNamed_ofEntries _)
    (fun row h => by rw [List.mem_singleton.mp h]; rfl)
    rfl (fun _ h => by cases h) (fun _ h => by cases h) (fun _ _ => rfl)

end PathExpansion
