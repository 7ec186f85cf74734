import PathExpansion.Proofs.Globs
import PathExpansion.Proofs.Reach

/-!
# Going down a tree without links

What a scan does on its way depends on the order of walking, and on the directories that it has
entered.  In a tree without links neither matters for where it ends: nothing fails, and the paths at
which it arrives are those of the places that the components lead to, each as often.

* `Ending`, `endingsIn` — where deeds end.
* `Tree.pathTo`, `Tree.pathOf` — the path by which a directory is entered, and that of a result.
* `Trip.IsThrough` — a trip through such a tree, with nothing left out.
* **`Trip.IsThrough.walk_perm`** — where the walk of some components ends.
-/

namespace PathExpansion

lemma Regex.Comparison.same_slash (how : Comparison) (c : Char) : how.same '/' c = (c == '/') := by
  rw [same, if_neg]
  cases how <;> decide

/-- The glob for any entry matches every name. -/
lemma Wildcard.anyEntry_accepts (ignoreCase : Bool) {name : String} (h : '/' ∉ name.toList) :
    (anyEntry ignoreCase).accepts name := by
  have hplain : (anyEntry ignoreCase).pattern.regex.IsPlain := trivial
  rw [accepts, Pattern.matchesWhole, Regex.matchesAll_iff hplain]
  refine Regex.takes_repeated_one fun c hc => ?_
  rw [Regex.CharacterTest.accepts, Regex.Comparison.same_slash]
  have hslash : c ≠ '/' := fun heq => h (heq ▸ hc)
  simpa using hslash

/-! ## Endings -/

/-- Where a descent ends: at a fault, or at a path that exists. -/
inductive Ending where
  | fault (incident : Incident)
  | path (root : Root) (path : String)

/-- Where a deed ends, if it does. -/
def Deed.ending? (r : Reader) : Deed → Option Ending
  | .failed incident => some (.fault incident)
  | .arrived root path => if r.isPresent path then some (.path root path) else none
  | _ => none

/-- Where deeds end. -/
def endingsIn (r : Reader) (ds : List Deed) : List Ending := ds.filterMap (·.ending? r)

section

variable {r : Reader}

@[simp] lemma endingsIn_nil : endingsIn r [] = [] := rfl

@[simp] lemma endingsIn_moved (ds : List Deed) : endingsIn r (.moved :: ds) = endingsIn r ds := rfl

@[simp] lemma endingsIn_opened (path : String) (ds : List Deed) :
    endingsIn r (.opened path :: ds) = endingsIn r ds := rfl

@[simp] lemma endingsIn_append (ds ds' : List Deed) :
    endingsIn r (ds ++ ds') = endingsIn r ds ++ endingsIn r ds' :=
  List.filterMap_append

lemma endingsIn_flatMap {α : Type} (f : α → List Deed) (as : List α) :
    endingsIn r (as.flatMap f) = as.flatMap fun a => endingsIn r (f a) :=
  List.filterMap_flatMap

end

/-! ## Paths of places -/

namespace Tree

/-- The path by which a directory is entered: every name on the way with a slash behind it. -/
def pathTo (root : String) : Place → String
  | [] => root
  | name :: parent => pathTo root parent ++ name ++ "/"

/-- **The path of a place**: the root, the names with slashes between them, and a slash behind a
directory. -/
def pathOf (t : Tree) (root : String) (p : Place) : String :=
  root ++ "/".intercalate p.reverse ++ if t.isDirectoryAt p then "/" else ""

lemma pathTo_append (root : String) (p : Place) (name : String) :
    pathTo root p ++ name = root ++ "/".intercalate (name :: p).reverse := by
  induction p generalizing name with
  | nil => rw [pathTo, List.reverse_singleton, String.intercalate_singleton]
  | cons parent p ih =>
    rw [pathTo, ih, List.reverse_cons (a := name), String.intercalate_append_of_ne_nil (by simp)
      (by simp), String.intercalate_singleton]
    simp only [String.append_assoc]

variable {t : Tree} {root name : String} {p : Place}

lemma pathOf_directory (h : t.isDirectoryAt (name :: p)) :
    t.pathOf root (name :: p) = pathTo root (name :: p) := by
  rw [pathOf, if_pos h, ← pathTo_append, pathTo]

lemma pathOf_file (h : t.isDirectoryAt (name :: p) = false) :
    t.pathOf root (name :: p) = pathTo root p ++ name := by
  rw [pathOf, h, ← pathTo_append]
  exact String.append_empty

lemma IsPlain.leadsTo (ht : t.IsPlain) (hroot : t.LeadsTo root []) (h : t.isDirectoryAt p) :
    t.LeadsTo (pathTo root p) p := by
  induction p with
  | nil => exact hroot
  | cons name parent ih =>
    obtain ⟨hname, hparent⟩ := ht.isRooted.of_isSome (isSome_of_isDirectoryAt h)
    exact (ih hparent).entry hname h

end Tree

/-! ## One name further -/

namespace Trip

/-- **A trip through a tree without links**, in which nothing fails and nothing is left out. -/
structure IsThrough (t : Trip) (tree : Tree) (d : Disturbance) (root : String) : Prop where
  plain : tree.IsPlain
  quiet : d.IsQuiet
  reader : t.reader = tree.reader d
  exclude : t.plan.exclude = none
  sorting : t.plan.sorting.NeverRaises
  rooted : tree.LeadsTo root []

/-- The directories that were entered on the way to a place are above it. -/
def IsAbove (visited : Visited) (p : Place) : Prop := ∀ i ∈ visited, ∃ q, i = .place q ∧ q <:+ p

section

variable {visited : Visited} {p : Place}

lemma IsAbove.cons (h : IsAbove visited p) (name : String) : IsAbove visited (name :: p) := by
  intro i hi
  obtain ⟨q, hq, hsuffix⟩ := h i hi
  exact ⟨q, hq, hsuffix.trans (List.suffix_cons name p)⟩

lemma IsAbove.insert (h : IsAbove visited p) : IsAbove (visited.insert (.place p)) p := by
  intro i hi
  rcases Visited.mem_insert.mp hi with hi | hi
  · exact ⟨p, hi, List.suffix_rfl⟩
  · exact h i hi

/-- An entry has not been entered before. -/
lemma IsAbove.not_mem (h : IsAbove visited p) (name : String) :
    Identity.place (name :: p) ∉ visited := by
  intro hmem
  obtain ⟨q, hq, hsuffix⟩ := h _ hmem
  cases hq
  have hle := hsuffix.length_le
  simp at hle

end

section

variable {t : Trip} {tree : Tree} {d : Disturbance} {root name : String} {p : Place}
  {visited : Visited}

lemma IsThrough.leadsTo (h : t.IsThrough tree d root) (hp : tree.isDirectoryAt p) :
    tree.LeadsTo (Tree.pathTo root p) p := h.plain.leadsTo h.rooted hp

lemma IsThrough.isDirectory_entry (h : t.IsThrough tree d root) (hp : tree.isDirectoryAt p)
    (hname : Tree.IsEntryName name) :
    t.reader.isDirectory (Tree.pathTo root p ++ name) = tree.isDirectoryAt (name :: p) := by
  rw [h.reader]
  exact (h.leadsTo hp).isDirectoryPath_entry h.plain hname

lemma IsThrough.extend_leaf (h : t.IsThrough tree d root) (hp : tree.isDirectoryAt p)
    (hname : Tree.IsEntryName name) (hleaf : tree.isDirectoryAt (name :: p) = false)
    (descent : Bool) :
    t.extend (Tree.pathTo root p) visited name descent
      = some (Tree.pathTo root p ++ name, visited) := by
  simp only [extend, h.exclude, h.isDirectory_entry hp hname, hleaf]
  rfl

/-- Going down to a directory adds at most the directory itself to those that were entered. -/
lemma IsThrough.exists_extend (h : t.IsThrough tree d root) (hp : tree.isDirectoryAt p)
    (hvisited : IsAbove visited p) (hdir : tree.isDirectoryAt (name :: p)) (descent : Bool) :
    ∃ visited', t.extend (Tree.pathTo root p) visited name descent
      = some (Tree.pathTo root (name :: p), visited') ∧ IsAbove visited' (name :: p) := by
  have hname := (h.plain.isRooted.of_isSome (Tree.isSome_of_isDirectoryAt hdir)).1
  have hlink : t.reader.isLink (Tree.pathTo root p ++ name) = false := by
    rw [h.reader]
    exact h.plain.isLinkPath_eq _
  have hidentity : t.reader.identity (Tree.pathTo root p ++ name) = .place (name :: p) := by
    have hresolve := (h.leadsTo hp).resolve_entry h.plain hname
    rw [if_pos (Tree.isSome_of_isDirectoryAt hdir)] at hresolve
    simp only [h.reader, Tree.reader, hresolve]
  have hnew : visited.contains (Identity.place (name :: p)) = false := by
    simpa using hvisited.not_mem name
  simp only [extend, h.exclude, h.isDirectory_entry hp hname, hdir, hlink, hidentity, hnew]
  cases descent with
  | false => exact ⟨visited, rfl, hvisited.cons name⟩
  | true =>
    cases t.follow with
    | false => exact ⟨visited, rfl, hvisited.cons name⟩
    | true => exact ⟨_, rfl, (hvisited.cons name).insert⟩

lemma IsThrough.entered_isAbove (h : t.IsThrough tree d root) (hp : tree.isDirectoryAt p)
    (hvisited : IsAbove visited p) : IsAbove (t.entered (Tree.pathTo root p) visited) p := by
  have hidentity : t.reader.identity (orDot (Tree.pathTo root p)) = .place p := by
    simp only [h.reader, Tree.reader, (h.leadsTo hp).resolves]
  rw [entered, hidentity]
  split
  · exact hvisited.insert
  · exact hvisited

end

end Trip

/-! ## Components -/

namespace Trip

/-- Where a descent ends that reaches a place. -/
def ending (t : Trip) (tree : Tree) (root : String) (p : Place) : Ending :=
  .path t.root (tree.pathOf root p)

section

variable {t : Trip} {tree : Tree} {d : Disturbance} {root name : String} {p : Place}
  {visited : Visited} {rest components : List Component}

lemma IsThrough.arrive_directory (h : t.IsThrough tree d root)
    (hdir : tree.isDirectoryAt (name :: p)) :
    endingsIn t.reader (t.arrive (Tree.pathTo root (name :: p)) visited)
      = [t.ending tree root (name :: p)] := by
  have hne : Tree.pathTo root (name :: p) ≠ "" := Tree.append_slash_ne_empty _
  have hpresent : t.reader.isPresent (Tree.pathTo root (name :: p)) = true := by
    have hresolve := (h.leadsTo hdir).resolves
    rw [orDot, if_neg hne] at hresolve
    rw [h.reader]
    simp only [Tree.reader, hresolve, ne_eq, hne, not_false_eq_true, decide_true]
    rfl
  rw [arrive, endingsIn, List.filterMap_cons, Deed.ending?, if_pos hpresent, ending,
    Tree.pathOf_directory hdir]
  rfl

lemma IsThrough.arrive_leaf (h : t.IsThrough tree d root) (hp : tree.isDirectoryAt p)
    (hname : Tree.IsEntryName name) (hleaf : tree.isDirectoryAt (name :: p) = false) :
    endingsIn t.reader (t.arrive (Tree.pathTo root p ++ name) visited)
      = if (tree.node? (name :: p)).isSome then [t.ending tree root (name :: p)] else [] := by
  have hne : Tree.pathTo root p ++ name ≠ "" := fun hempty => by
    have henterable : isEnterable (Tree.pathTo root p ++ name) = false :=
      isEnterable_append hname.isName
    rw [hempty] at henterable
    cases henterable
  have hpresent : t.reader.isPresent (Tree.pathTo root p ++ name)
      = (tree.node? (name :: p)).isSome := by
    rw [h.reader]
    simp only [Tree.reader, (h.leadsTo hp).resolve_entry h.plain hname, ne_eq, hne,
      not_false_eq_true, decide_true, Bool.true_and]
    split_ifs with hsome
    · rw [hsome]
      rfl
    · rw [Bool.not_eq_true] at hsome
      rw [hsome]
      rfl
  rw [arrive, endingsIn, List.filterMap_cons, Deed.ending?, hpresent, ending,
    Tree.pathOf_file hleaf]
  split_ifs <;> rfl

/-- **Going down by a name** ends where the rest does from the entry on, if there is one. -/
lemma IsThrough.literal_perm (h : t.IsThrough tree d root) (hrest : rest = [] ∨ needsDirectory rest)
    (hp : tree.isDirectoryAt p) (hvisited : IsAbove visited p) (hname : Tree.IsEntryName name)
    (hdir : tree.isDirectoryAt (name :: p) → ∀ visited', IsAbove visited' (name :: p) →
      (endingsIn t.reader (t.walk rest (Tree.pathTo root (name :: p)) visited')).Perm
        ((tree.reach rest (name :: p)).map (t.ending tree root))) (descent : Bool) :
    (endingsIn t.reader
      (t.literal name descent (needsDirectory rest) (t.walk rest)
        (Tree.pathTo root p) visited)).Perm
      (if (tree.node? (name :: p)).isSome then
        (tree.reach rest (name :: p)).map (t.ending tree root) else []) := by
  rw [literal, endingsIn_moved]
  cases hentry : tree.isDirectoryAt (name :: p) with
  | true =>
    obtain ⟨visited', hextend, hvisited'⟩ := h.exists_extend hp hvisited hentry descent
    have henterable := (h.leadsTo hentry).enterable
    rw [hextend, if_pos (Tree.isSome_of_isDirectoryAt hentry)]
    simp only [henterable, Bool.not_true, Bool.false_and, Bool.false_eq_true, if_false]
    exact hdir hentry visited' hvisited'
  | false =>
    have henterable : isEnterable (Tree.pathTo root p ++ name) = false :=
      isEnterable_append hname.isName
    rw [h.extend_leaf hp hname hentry]
    simp only [henterable, Bool.not_false, Bool.true_and]
    rcases hrest with rfl | hdeep
    · rw [needsDirectory, List.any_nil, if_neg Bool.false_ne_true, walk,
        h.arrive_leaf hp hname hentry]
      exact List.Perm.refl _
    · rw [if_pos hdeep]
      split_ifs with hsome
      · rw [h.plain.reach_eq_nil hsome hentry hdeep]
        exact List.Perm.refl _
      · exact List.Perm.refl _

/-- A directory is listed, and the rest goes on with each entry that is wanted. -/
lemma IsThrough.listing_perm (h : t.IsThrough tree d root) (hp : tree.isDirectoryAt p)
    (w : Wildcard) (next : String → Descent) :
    (endingsIn t.reader (t.listing w.wants next (Tree.pathTo root p) visited)).Perm
      (((tree.names p).filter w.accepts).flatMap fun name =>
        endingsIn t.reader (next name (Tree.pathTo root p) visited)) := by
  obtain ⟨names, hlisted, hperm⟩ := (h.leadsTo hp).exists_listed h.plain.isRooted h.quiet h.sorting
  rw [← h.reader] at hlisted
  have hwanted : names.filter w.wants
      = (names.filter fun name => !isDotName name).filter w.accepts := by
    rw [List.filter_filter]
    refine List.filter_congr fun name _ => ?_
    rw [Wildcard.wants, Bool.and_comm]
  rw [listing, endingsIn_opened, hlisted]
  simp only [endingsIn_append, endingsIn_moved, endingsIn_nil, List.append_nil]
  rw [Trip.names, endingsIn_flatMap, hwanted]
  simp only [endingsIn_moved, Deed.readFault, Option.toList_none, List.map_nil, endingsIn_nil,
    List.append_nil]
  exact (hperm.filter w.accepts).flatMap_right _

/-- Going on by a glob ends where the rest does from each entry that it matches. -/
lemma IsThrough.wildcard_perm (h : t.IsThrough tree d root)
    (hrest : rest = [] ∨ needsDirectory rest) (hp : tree.isDirectoryAt p)
    (hvisited : IsAbove visited p) (w : Wildcard)
    (hdir : ∀ name, tree.isDirectoryAt (name :: p) → ∀ visited', IsAbove visited' (name :: p) →
      (endingsIn t.reader (t.walk rest (Tree.pathTo root (name :: p)) visited')).Perm
        ((tree.reach rest (name :: p)).map (t.ending tree root))) :
    (endingsIn t.reader (t.walk (.wildcard w :: rest) (Tree.pathTo root p) visited)).Perm
      ((tree.reach (.wildcard w :: rest) p).map (t.ending tree root)) := by
  rw [walk, Tree.reach_cons rfl, List.map_flatMap]
  refine (h.listing_perm hp w _).trans (List.Perm.flatMap_left _ fun name hname => ?_)
  have hentry := Tree.mem_names.mp (List.mem_of_mem_filter hname)
  have hperm := h.literal_perm hrest hp hvisited
    (h.plain.isRooted.of_isSome hentry).1 (hdir name) w.descent
  rwa [if_pos hentry] at hperm

/-! ## Ellipses -/

/-- An ellipsis that gives a directory next to its contents.  The induction is on what is below. -/
lemma IsThrough.nested_perm (h : t.IsThrough tree d root) (horder : t.plan.order ≠ .breadthFirst)
    (hdeep : needsDirectory rest)
    (hnext : ∀ {p visited}, tree.isDirectoryAt p → IsAbove visited p →
      (endingsIn t.reader (t.walk rest (Tree.pathTo root p) visited)).Perm
        ((tree.reach rest p).map (t.ending tree root)))
    (hp : tree.isDirectoryAt p) (hvisited : IsAbove visited p) :
    (endingsIn t.reader (t.walk (.ellipsis :: rest) (Tree.pathTo root p) visited)).Perm
      ((tree.reach (.ellipsis :: rest) p).map (t.ending tree root)) := by
  generalize hcount : tree.countBelow p = count
  induction count using Nat.strong_induction_on generalizing p visited with
  | _ count ih =>
    have hr : t.reader.IsFinite := by
      rw [h.reader]
      exact Tree.reader_isFinite h.plain.isNamed d
    have hentered := h.entered_isAbove hp hvisited
    have hhere := hnext hp hentered
    have hbelow := h.wildcard_perm (Or.inr (show needsDirectory (.ellipsis :: rest) from hdeep)) hp
      hentered (.anyEntry t.plan.ignoreCase) fun name hdir visited' hvisited' => by
        have hless := Tree.countBelow_cons_lt (Tree.isSome_of_isDirectoryAt hdir)
        exact ih _ (hcount ▸ hless) hdir hvisited' rfl
    have hnames : (tree.names p).filter
        (fun name => (Component.wildcard (.anyEntry t.plan.ignoreCase)).takes [name])
          = tree.names p := by
      refine List.filter_eq_self.mpr fun name hname => ?_
      have hproper := (h.plain.isRooted.of_isSome (Tree.mem_names.mp hname)).1.isName
      exact Wildcard.anyEntry_accepts _ hproper.2
    rw [Tree.reach_cons rfl, hnames] at hbelow
    have hreach := (h.plain.reach_ellipsis rest
      (Tree.isSome_of_isDirectoryAt hp)).map (t.ending tree root)
    rw [List.map_append] at hreach
    rw [walk_ellipsis hr horder, combine]
    simp only [(h.leadsTo hp).enterable, if_true]
    cases ho : t.plan.order with
    | insideOut =>
      simp only [List.cons_append, endingsIn_moved, endingsIn_append]
      exact (List.perm_append_comm.trans (hhere.append hbelow)).trans hreach.symm
    | normal =>
      simp only [List.cons_append, endingsIn_moved, endingsIn_append]
      exact (hhere.append hbelow).trans hreach.symm
    | breadthFirst => exact absurd ho horder

/-- What is gone through level by level, below some directories, is what is so below each of them,
in some order. -/
lemma perm_of_levels {α β : Type} (levels : ℕ → List α → List β) {here : α → List β}
    {below : α → List α} (hzero : ∀ dirs, levels 0 dirs = [])
    (hsucc : ∀ n dirs, levels (n + 1) dirs = dirs.flatMap here ++ levels n (dirs.flatMap below))
    (n : ℕ) (dirs : List α) : (levels n dirs).Perm (dirs.flatMap fun dir => levels n [dir]) := by
  induction n generalizing dirs with
  | zero =>
    have hnone : (dirs.flatMap fun dir => levels 0 [dir]) = [] :=
      List.flatMap_eq_nil_iff.mpr fun _ _ => hzero _
    rw [hnone, hzero]
  | succ n ih =>
    have hone : ∀ dir, (levels (n + 1) [dir]).Perm
        (here dir ++ (below dir).flatMap fun sub => levels n [sub]) := by
      intro dir
      rw [hsucc, List.flatMap_singleton, List.flatMap_singleton]
      exact (ih (below dir)).append_left _
    rw [hsucc]
    refine ((ih _).append_left _).trans ?_
    rw [List.flatMap_assoc]
    exact (List.flatMap_append_perm dirs _ _).trans
      (List.Perm.flatMap_left dirs fun dir _ => (hone dir).symm)

/-- Levels below some directories are those below each of them. -/
lemma levels_perm {r : Reader} (deep : Bool) (next : Descent) (n : ℕ)
    (dirs : List (String × Visited)) :
    (endingsIn r (t.levels deep next n dirs)).Perm
      (dirs.flatMap fun dir => endingsIn r (t.levels deep next n [dir])) := by
  have hsucc : ∀ n dirs, endingsIn r (t.levels deep next (n + 1) dirs)
      = (dirs.flatMap fun dir => endingsIn r (t.visit deep next dir))
        ++ endingsIn r (t.levels deep next n (dirs.flatMap t.subdirectories)) := by
    intro n dirs
    rw [levels, endingsIn_append, endingsIn_flatMap]
  exact perm_of_levels (fun n dirs => endingsIn r (t.levels deep next n dirs)) (fun _ => rfl)
    hsucc n
    dirs

/-- Of the entries of a directory, those are gone through that are directories. -/
lemma IsThrough.directories_perm (h : t.IsThrough tree d root) (hp : tree.isDirectoryAt p)
    (hvisited : IsAbove visited p) {names : List String}
    (hnames : (names.filter fun name => !isDotName name).Perm (tree.names p))
    (next : String × Visited → List Ending) (reached : Place → List Place)
    (hdir : ∀ name, tree.isDirectoryAt (name :: p) → ∀ visited', IsAbove visited' (name :: p) →
      (next (Tree.pathTo root (name :: p), visited')).Perm
        ((reached (name :: p)).map (t.ending tree root)))
    (hleaf : ∀ name ∈ tree.names p, tree.isDirectoryAt (name :: p) = false →
      reached (name :: p) = []) :
    ((t.directories names (Tree.pathTo root p) visited).flatMap next).Perm
      (((tree.names p).flatMap fun name => reached (name :: p)).map (t.ending tree root)) := by
  set entry : String → List Ending := fun name =>
    (((t.extend (Tree.pathTo root p) visited name true).toList).filter fun q =>
      isEnterable q.1).flatMap next with hentry
  have heach : ∀ name ∈ tree.names p,
      (entry name).Perm ((reached (name :: p)).map (t.ending tree root)) := by
    intro name hname
    cases hsub : tree.isDirectoryAt (name :: p) with
    | true =>
      obtain ⟨visited', hextend, hvisited'⟩ := h.exists_extend hp hvisited hsub true
      simp only [hentry, hextend, Option.toList_some, List.filter_cons,
        (h.leadsTo hsub).enterable, if_true, List.filter_nil, List.flatMap_singleton]
      exact hdir name hsub visited' hvisited'
    | false =>
      have hproper := (h.plain.isRooted.of_isSome (Tree.mem_names.mp hname)).1
      have henterable : isEnterable (Tree.pathTo root p ++ name) = false :=
        isEnterable_append hproper.isName
      simp only [hentry, h.extend_leaf hp hproper hsub, Option.toList_some, List.filter_cons,
        henterable, Bool.false_eq_true, if_false, List.filter_nil, List.flatMap_nil,
        hleaf name hname hsub, List.map_nil]
      exact List.Perm.refl _
  have hgone : (t.directories names (Tree.pathTo root p) visited).flatMap next
      = (names.filter fun name => !isDotName name).flatMap entry := by
    rw [directories, Trip.reached, List.filterMap_eq_flatMap_toList, List.filter_flatMap,
      List.flatMap_assoc]
  rw [hgone, List.map_flatMap]
  exact (hnames.flatMap_right entry).trans (List.Perm.flatMap_left _ heach)

/-- **Going level by level** from a directory ends where an ellipsis does from each of its
entries. -/
lemma IsThrough.levels_perm (h : t.IsThrough tree d root) (hdeep : needsDirectory rest)
    (hnext : ∀ {p visited}, tree.isDirectoryAt p → IsAbove visited p →
      (endingsIn t.reader (t.walk rest (Tree.pathTo root p) visited)).Perm
        ((tree.reach rest p).map (t.ending tree root)))
    {n : ℕ} (hn : tree.countBelow p < n) (hp : tree.isDirectoryAt p)
    (hvisited : IsAbove visited p) :
    (endingsIn t.reader
      (t.levels true (t.walk rest) n [(Tree.pathTo root p, visited)])).Perm
      (((tree.names p).flatMap fun name =>
        tree.reach (.ellipsis :: rest) (name :: p)).map (t.ending tree root)) := by
  induction n generalizing p visited with
  | zero => exact absurd hn (Nat.not_lt_zero _)
  | succ n ih =>
    obtain ⟨names, hlisted, hnames⟩ :=
      (h.leadsTo hp).exists_listed h.plain.isRooted h.quiet h.sorting
    rw [← h.reader] at hlisted
    have hfound : (endingsIn t.reader
        (t.visit true (t.walk rest) (Tree.pathTo root p, visited))).Perm
        (((tree.names p).flatMap fun name => tree.reach rest (name :: p)).map
          (t.ending tree root)) := by
      have hdirs := h.directories_perm hp hvisited hnames
        (fun q => endingsIn t.reader (t.walk rest q.1 q.2)) (tree.reach rest)
        (fun name hdir visited' hvisited' => hnext hdir hvisited')
        fun name hname hleaf => h.plain.reach_eq_nil (Tree.mem_names.mp hname) hleaf hdeep
      have hvisit : endingsIn t.reader (t.visit true (t.walk rest) (Tree.pathTo root p, visited))
          = (t.directories names (Tree.pathTo root p) visited).flatMap fun q =>
              endingsIn t.reader (t.walk rest q.1 q.2) := by
        rw [visit, endingsIn_opened, hlisted]
        simp only [found, Bool.not_true, Bool.or_false, endingsIn_flatMap, endingsIn_moved,
          Deed.readFault, Option.toList_none, List.map_nil, List.append_nil]
        rfl
      rw [hvisit]
      exact hdirs
    have hbelow : (endingsIn t.reader (t.levels true (t.walk rest) n
        (t.subdirectories (Tree.pathTo root p, visited)))).Perm
        (((tree.names p).flatMap fun name => (tree.names (name :: p)).flatMap fun below =>
          tree.reach (.ellipsis :: rest) (below :: name :: p)).map (t.ending tree root)) := by
      have hsub : t.subdirectories (Tree.pathTo root p, visited)
          = t.directories names (Tree.pathTo root p) visited := by
        simp only [subdirectories, hlisted]
      rw [hsub]
      refine (Trip.levels_perm true (t.walk rest) n _).trans ?_
      refine h.directories_perm hp hvisited hnames
        (fun q => endingsIn t.reader (t.levels true (t.walk rest) n [q]))
        (fun q => (tree.names q).flatMap fun below => tree.reach (.ellipsis :: rest) (below :: q))
        (fun name hdir visited' hvisited' => ?_) fun name _ hleaf => ?_
      · have hless := Tree.countBelow_cons_lt (Tree.isSome_of_isDirectoryAt hdir)
        exact ih (Nat.lt_of_lt_of_le hless (Nat.le_of_lt_succ hn)) hdir hvisited'
      · rw [h.plain.isRooted.names_eq_nil hleaf, List.flatMap_nil]
    rw [levels, List.flatMap_singleton, List.flatMap_singleton, endingsIn_append]
    refine (hfound.append hbelow).trans ?_
    rw [← List.map_append]
    refine List.Perm.map _ ((List.flatMap_append_perm _ _ _).trans ?_)
    refine List.Perm.flatMap_left _ fun name hname => ?_
    exact (h.plain.reach_ellipsis rest (Tree.mem_names.mp hname)).symm

/-- An ellipsis that goes level by level. -/
lemma IsThrough.byLevel_perm (h : t.IsThrough tree d root) (horder : t.plan.order = .breadthFirst)
    (hdeep : needsDirectory rest)
    (hnext : ∀ {p visited}, tree.isDirectoryAt p → IsAbove visited p →
      (endingsIn t.reader (t.walk rest (Tree.pathTo root p) visited)).Perm
        ((tree.reach rest p).map (t.ending tree root)))
    (hp : tree.isDirectoryAt p) (hvisited : IsAbove visited p) :
    (endingsIn t.reader (t.walk (.ellipsis :: rest) (Tree.pathTo root p) visited)).Perm
      ((tree.reach (.ellipsis :: rest) p).map (t.ending tree root)) := by
  have hbare : rest.isEmpty = false := by
    cases rest with
    | nil => cases hdeep
    | cons c rest => rfl
  have hextent : tree.countBelow p < t.reader.extent + 1 := by
    have hle : tree.countBelow p ≤ tree.nodes.length := List.length_filter_le _ _
    rw [h.reader]
    exact Nat.lt_succ_of_le (hle.trans (Nat.le_add_right _ 2))
  have hentered := h.entered_isAbove hp hvisited
  have hreach := (h.plain.reach_ellipsis rest
    (Tree.isSome_of_isDirectoryAt hp)).map (t.ending tree root)
  rw [List.map_append] at hreach
  rw [walk, ellipsis, horder]
  simp only [byLevel, hbare, hdeep, (h.leadsTo hp).enterable, if_true, Bool.false_eq_true,
    if_false, List.cons_append, endingsIn_moved, endingsIn_append, endingsIn_nil, List.append_nil]
  exact ((hnext hp hentered).append (h.levels_perm hdeep hnext hextent hp hentered)).trans
    hreach.symm

/-- Where the last component is no ellipsis, something has to be found inside. -/
lemma needsDirectory_of_getLast? (hne : components ≠ [])
    (hlast : components.getLast? ≠ some .ellipsis) : needsDirectory components := by
  rw [needsDirectory, List.any_eq_true]
  refine ⟨components.getLast hne, List.getLast_mem hne, ?_⟩
  cases hc : (components.getLast hne).isEllipsis with
  | false => rfl
  | true =>
    rw [List.getLast?_eq_some_getLast hne, Component.eq_ellipsis hc] at hlast
    exact absurd rfl hlast

lemma getLast?_ne_of_cons {c : Component} (hlast : (c :: rest).getLast? ≠ some .ellipsis) :
    rest.getLast? ≠ some .ellipsis := by
  cases rest with
  | nil => simp
  | cons c' rest => rwa [List.getLast?_cons_cons] at hlast

/-- **Where the walk of some components ends**, in any order: at the paths of the places that they
lead to, each as often, and at no fault. -/
theorem IsThrough.walk_perm (h : t.IsThrough tree d root)
    (hnames : ∀ name descent, .literal name descent ∈ components → Tree.IsEntryName name)
    (hlast : components.getLast? ≠ some .ellipsis) (hp : tree.isDirectoryAt p)
    (hvisited : IsAbove visited p) (hne : p ≠ [] ∨ components ≠ []) :
    (endingsIn t.reader (t.walk components (Tree.pathTo root p) visited)).Perm
      ((tree.reach components p).map (t.ending tree root)) := by
  induction components generalizing p visited with
  | nil =>
    obtain ⟨name, p, rfl⟩ := List.exists_cons_of_ne_nil (hne.resolve_right (absurd rfl))
    rw [walk, h.arrive_directory hp]
    exact List.Perm.refl _
  | cons c rest ih =>
    have hlast' := getLast?_ne_of_cons hlast
    have hnext : ∀ {p visited}, tree.isDirectoryAt p → IsAbove visited p → p ≠ [] ∨ rest ≠ [] →
        (endingsIn t.reader (t.walk rest (Tree.pathTo root p) visited)).Perm
          ((tree.reach rest p).map (t.ending tree root)) :=
      ih (fun name descent hmem => hnames name descent (List.mem_cons_of_mem c hmem)) hlast'
    have hdir : ∀ name, tree.isDirectoryAt (name :: p) → ∀ visited', IsAbove visited' (name :: p) →
        (endingsIn t.reader (t.walk rest (Tree.pathTo root (name :: p)) visited')).Perm
          ((tree.reach rest (name :: p)).map (t.ending tree root)) :=
      fun name hentry visited' hvisited' =>
        hnext hentry hvisited' (Or.inl (List.cons_ne_nil name p))
    have hrest : rest = [] ∨ needsDirectory rest := by
      by_cases hempty : rest = []
      · exact Or.inl hempty
      · exact Or.inr (needsDirectory_of_getLast? hempty hlast')
    cases c with
    | literal name descent =>
      have hname := hnames name descent List.mem_cons_self
      have hperm := h.literal_perm hrest hp hvisited hname (hdir name) descent
      rw [walk, h.plain.reach_literal]
      split_ifs at hperm ⊢ <;> exact hperm
    | wildcard w => exact h.wildcard_perm hrest hp hvisited w hdir
    | ellipsis =>
      have hbehind : rest ≠ [] := by
        rintro rfl
        exact hlast rfl
      have hdeep := hrest.resolve_left hbehind
      by_cases horder : t.plan.order = .breadthFirst
      · exact h.byLevel_perm horder hdeep (fun hp hv => hnext hp hv (Or.inr hbehind)) hp hvisited
      · exact h.nested_perm horder hdeep (fun hp hv => hnext hp hv (Or.inr hbehind)) hp hvisited

end

end Trip

end PathExpansion
