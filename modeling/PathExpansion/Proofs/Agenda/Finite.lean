import Mathlib.Data.List.Basic
import Mathlib.Tactic.Linarith
import PathExpansion.Proofs.Agenda.Basic

/-!
# Finite readers

A scan ends because an ellipsis cannot go down for ever.  If links are followed, each directory that
is entered has an identity that was not met before on the way; if they are not, each is properly
below the one before.  `Reader.IsFinite` asks for just that, and for names that are names.

* `Reader.IsFinite` — listings, heights and identities are bounded by `Reader.extent`.
* `Trip.Room` — a number that shrinks with each level an ellipsis goes down; both reasons give one
  (`Reader.IsFinite.exists_room`).
* **`Trip.walk_ellipsis`** — an ellipsis is its remainder at the path and, under any entry, the same
  ellipsis again.  The bound on levels in its definition has disappeared.
* **`Trip.levels_cons`** — draining a queue one directory at a time, with what is found put behind
  the rest, gives the same deeds as going level by level.
-/

namespace PathExpansion

/-- Neither empty nor with a slash: what an entry of a directory can be called. -/
def IsName (name : String) : Prop := name ≠ "" ∧ '/' ∉ name.toList

instance (name : String) : Decidable (IsName name) :=
  inferInstanceAs (Decidable (name ≠ "" ∧ '/' ∉ name.toList))

/-- **A finite reader.**  `height` measures how far one can go down without following links, and
`ids` are all the directories there are. -/
structure Reader.IsFinite (r : Reader) : Prop where
  /-- Names are neither empty nor contain slashes. -/
  name_proper : ∀ {path l name}, r.openDirectory path = .ok l → name ∈ l.names → IsName name
  /-- No directory has too many names. -/
  names_le : ∀ {path l}, r.openDirectory path = .ok l → l.names.length ≤ r.extent
  /-- One cannot go down for ever without following links. -/
  height : ∃ height : String → ℕ, (∀ path, height path ≤ r.extent) ∧
    ∀ {path l name}, isEnterable path → r.openDirectory (orDot path) = .ok l → name ∈ l.names →
      isDotName name = false → r.isDirectory (path ++ name) → r.isLink (path ++ name) = false →
      height (path ++ name ++ "/") < height path
  /-- There are not too many directories. -/
  identities : ∃ ids : List Identity, ids.length ≤ r.extent ∧
    ∀ {path}, r.isDirectory path → r.identity path ∈ ids

/-! ## Paths and names -/

@[simp] lemma isEnterable_append_slash (path : String) : isEnterable (path ++ "/") = true := by
  simp [isEnterable, String.toList_append]

/-- A descent begins where it can go on. -/
lemma PathSpec.isEnterable_rootPath (spec : PathSpec) : isEnterable spec.rootPath = true := by
  rw [rootPath]
  cases spec.absolute <;> rfl

lemma isEnterable_append {path name : String} (hname : IsName name) :
    isEnterable (path ++ name) = false := by
  obtain ⟨hne, hslash⟩ := hname
  have hlist : name.toList ≠ [] := by simpa using hne
  obtain ⟨cs, c, hc⟩ : ∃ cs c, name.toList = cs ++ [c] :=
    ⟨_, _, (List.dropLast_append_getLast hlist).symm⟩
  have hcs : c ≠ '/' := by
    rintro rfl
    exact hslash (by simp [hc])
  have hempty : path ++ name ≠ "" := by
    intro h
    have := congrArg String.toList h
    simp [String.toList_append, hc] at this
  simp [isEnterable, String.toList_append, hc, hempty, hcs]

/-- Names survive being put in order. -/
lemma Reader.listed_perm {r : Reader} {plan : Plan} {path : String} {l : Listing}
    (h : r.listed plan path = .ok l) :
    ∃ l', r.openDirectory (orDot path) = .ok l' ∧ l.names.Perm l'.names := by
  unfold Reader.listed at h
  split at h
  · cases h
  · next l' hl' =>
    refine ⟨l', hl', ?_⟩
    split at h
    · split at h
      · cases h
      · cases hsort : plan.sorting.arrange plan.ignoreCase path l'.names with
        | error fault => simp [hsort, Except.map] at h
        | ok names =>
          simp only [hsort, Except.map, Except.ok.injEq] at h
          subst h
          exact Sorting.arrange_perm hsort
    · cases h
      exact .refl _

/-- What a reader lists are names. -/
def Reader.ListsNames (r : Reader) : Prop :=
  ∀ ⦃path l⦄, r.openDirectory path = .ok l → ∀ ⦃name⦄, name ∈ l.names → IsName name

lemma Reader.IsFinite.listsNames {r : Reader} (hr : r.IsFinite) : r.ListsNames :=
  fun _ _ hl _ hname => hr.name_proper hl hname

/-- A name that a listing gives is a name. -/
lemma Reader.ListsNames.isName {r : Reader} (hr : r.ListsNames) {plan : Plan} {path name : String}
    {l : Listing} (hl : r.listed plan path = .ok l) (hname : name ∈ l.names) : IsName name := by
  obtain ⟨l', hl', hperm⟩ := Reader.listed_perm hl
  exact hr hl' (hperm.subset hname)

lemma Reader.IsFinite.isName {r : Reader} (hr : r.IsFinite) {plan : Plan} {path name : String}
    {l : Listing} (hl : r.listed plan path = .ok l) (hname : name ∈ l.names) : IsName name :=
  hr.listsNames.isName hl hname

/-- A path that ends with such a name cannot be entered before a slash is put behind it. -/
lemma Reader.IsFinite.isEnterable_append {r : Reader} (hr : r.IsFinite) {plan : Plan}
    {path name : String} {l : Listing} (hl : r.listed plan path = .ok l) (hname : name ∈ l.names) :
    isEnterable (path ++ name) = false :=
  PathExpansion.isEnterable_append (hr.isName hl hname)

/-! ## Room -/

namespace Trip

variable {t : Trip}

/-- **Room to go down.**  A number that bounds how many levels an ellipsis can still go down from a
path: noting that the path itself was entered leaves no more of it, and each level some less. -/
structure Room (t : Trip) (room : String → Visited → ℕ) : Prop where
  le_extent : ∀ path visited, room path visited ≤ t.reader.extent
  entered_le : ∀ path visited, room path (t.entered path visited) ≤ room path visited
  extend_lt : ∀ {path visited l name path' visited'}, isEnterable path →
    t.reader.listed t.plan path = .ok l → name ∈ l.names → isDotName name = false →
    t.extend path visited name true = some (path', visited') → isEnterable path' →
    room path' visited' < room path visited

/-- A name leads to the path with the name behind it, and a slash only if that is a directory. -/
lemma extend_place {path name : String} {visited : Visited} {descent : Bool} {p : String × Visited}
    (h : t.extend path visited name descent = some p) :
    p.1 = path ++ name ∨ p.1 = path ++ name ++ "/" ∧ t.reader.isDirectory (path ++ name) := by
  cases hdir : t.reader.isDirectory (path ++ name) with
  | false =>
    simp only [extend, hdir, Bool.not_false, if_true] at h
    split_ifs at h
    cases h
    exact Or.inl rfl
  | true =>
    simp only [extend] at h
    split_ifs at h <;> cases h <;> simp

/-- What can be entered below an ellipsis is a directory, and has been entered just now: for the
first time, if links are followed, and without a link, if not. -/
lemma extend_descent {path path' name : String} {visited visited' : Visited}
    (h : t.extend path visited name true = some (path', visited'))
    (hname : isEnterable (path ++ name) = false) (hpath : isEnterable path') :
    path' = path ++ name ++ "/" ∧ t.reader.isDirectory (path ++ name) ∧
      if t.follow then
        t.reader.identity (path ++ name) ∉ visited ∧
          visited' = t.reader.identity (path ++ name) :: visited
      else visited' = visited ∧ t.reader.isLink (path ++ name) = false := by
  simp only [extend, Bool.not_true, Bool.false_eq_true, if_false] at h
  have hleaf : ∀ {v}, some (path ++ name, v) ≠ some (path', visited') := by
    intro v hv
    simp only [Option.some.injEq, Prod.mk.injEq] at hv
    rw [← hv.1, hname] at hpath
    cases hpath
  by_cases hexcluded : t.plan.exclude.any (·.finds (path ++ name)) = true
  · simp [hexcluded] at h
  rw [if_neg hexcluded] at h
  cases hdir : t.reader.isDirectory (path ++ name) with
  | false => exact absurd h (by simpa [hdir] using hleaf)
  | true =>
    simp only [hdir, Bool.not_true, Bool.false_eq_true, if_false] at h
    cases hfollow : t.follow with
    | true =>
      simp only [hfollow, if_true] at h ⊢
      by_cases hmet : t.reader.identity (path ++ name) ∈ visited
      · exact absurd h (by simpa [hmet] using hleaf)
      · simp only [List.contains_iff_mem, hmet, if_false, Option.some.injEq, Prod.mk.injEq] at h
        refine ⟨h.1.symm, trivial, hmet, ?_⟩
        rw [← h.2, Visited.insert, if_neg (by simpa using hmet)]
    | false =>
      simp only [hfollow, Bool.false_eq_true, if_false] at h ⊢
      cases hlink : t.reader.isLink (path ++ name) with
      | true => exact absurd h (by simpa [hlink] using hleaf)
      | false =>
        simp only [hlink, Bool.false_eq_true, if_false, Option.some.injEq, Prod.mk.injEq] at h
        exact ⟨h.1.symm, trivial, h.2.symm, rfl⟩

end Trip

lemma Visited.mem_insert {v : Visited} {i j : Identity} : i ∈ v.insert j ↔ i = j ∨ i ∈ v := by
  unfold Visited.insert
  split
  · next h =>
    have : j ∈ v := by simpa using h
    constructor
    · exact Or.inr
    · rintro (rfl | h)
      · exact this
      · exact h
  · simp

/-- The identities that have not been met. -/
def Visited.unmet (v : Visited) (ids : List Identity) : List Identity := ids.filter (· ∉ v)

lemma Visited.unmet_insert_le (v : Visited) (i : Identity) (ids : List Identity) :
    ((v.insert i).unmet ids).length ≤ (v.unmet ids).length := by
  rw [unmet, unmet, ← List.countP_eq_length_filter, ← List.countP_eq_length_filter]
  refine List.countP_mono_left fun j _ hj => ?_
  simp only [mem_insert, not_or, decide_eq_true_eq] at hj ⊢
  exact hj.2

lemma Visited.unmet_cons_lt {v : Visited} {i : Identity} {ids : List Identity} (hi : i ∈ ids)
    (hv : i ∉ v) : (Visited.unmet (i :: v) ids).length < (v.unmet ids).length := by
  have hsub : (Visited.unmet (i :: v) ids) = (v.unmet ids).filter (· ≠ i) := by
    simp only [unmet, List.filter_filter, List.mem_cons, not_or, Bool.decide_and, decide_not]
  rw [hsub]
  refine List.length_filter_lt_length_iff_exists.mpr ⟨i, ?_, by simp⟩
  simpa [unmet] using ⟨hi, hv⟩

open Trip in
/-- **A finite reader leaves room for finitely many levels**: the identities not met yet, if links
are followed, and the height above the bottom, if not. -/
theorem Reader.IsFinite.exists_room {t : Trip} (hr : t.reader.IsFinite) :
    ∃ room, t.Room room := by
  obtain ⟨height, hle, hlt⟩ := hr.height
  obtain ⟨ids, hids, hmem⟩ := hr.identities
  cases hfollow : t.follow with
  | true =>
    refine ⟨fun _ visited => (visited.unmet ids).length, ⟨fun _ visited => ?_, ?_, ?_⟩⟩
    · exact (List.length_filter_le _ _).trans hids
    · intro path visited
      unfold Trip.entered
      split
      · exact Visited.unmet_insert_le _ _ _
      · exact le_refl _
    · intro path visited l name path' visited' _ hl hname _ hext hpath'
      obtain ⟨_, hdir, hnew⟩ := extend_descent hext (hr.isEnterable_append hl hname) hpath'
      rw [if_pos hfollow] at hnew
      rw [hnew.2]
      exact Visited.unmet_cons_lt (hmem hdir) hnew.1
  | false =>
    refine ⟨fun path _ => height path, ⟨fun path _ => hle path, fun _ _ => le_refl _, ?_⟩⟩
    intro path visited l name path' visited' hpath hl hname hdot hext hpath'
    obtain ⟨rfl, hdir, hlink⟩ := extend_descent hext (hr.isEnterable_append hl hname) hpath'
    rw [if_neg (by simp [hfollow])] at hlink
    obtain ⟨l', hl', hperm⟩ := Reader.listed_perm hl
    exact hlt hpath hl' (hperm.subset hname) hdot hdir hlink.2

/-! ## Ellipses without a bound -/

namespace Trip

variable {t : Trip} {room : String → Visited → ℕ} {deep : Bool} {next : Descent}

@[simp] lemma needsDirectory_ellipsis (rest : List Component) :
    needsDirectory (.ellipsis :: rest) = needsDirectory rest := by
  simp [needsDirectory, Component.isEllipsis]

/-- What lies under a path matters only if it can be entered. -/
lemma combine_congr {under under' : Descent} {path : String} {visited : Visited}
    (h : isEnterable path →
      under path (t.entered path visited) = under' path (t.entered path visited)) :
    t.combine next under path visited = t.combine next under' path visited := by
  cases hpath : isEnterable path with
  | false => simp [combine, hpath]
  | true => simp only [combine, hpath, if_true, h hpath]

/-- Going on with names of a directory: it is enough to agree on the names that it has. -/
lemma listing_congr {wanted : String → Bool} {sub sub' : String → Descent} {path : String}
    {visited : Visited}
    (h : ∀ l, t.reader.listed t.plan path = .ok l → ∀ name ∈ l.names, wanted name →
      sub name path visited = sub' name path visited) :
    t.listing wanted sub path visited = t.listing wanted sub' path visited := by
  unfold listing
  cases hl : t.reader.listed t.plan path with
  | error fault => rfl
  | ok l =>
    have hnames : names wanted sub l.names path visited
        = names wanted sub' l.names path visited := by
      refine List.flatMap_congr fun name hname => ?_
      obtain ⟨hmem, hwanted⟩ := List.mem_filter.mp hname
      rw [h l hl name hmem hwanted]
    simp only [hnames]

/-- Two bounds on the levels of an ellipsis give the same deeds if both leave room. -/
lemma nested_congr (deep : Bool) (next : Descent) (hroom : t.Room room) :
    ∀ {n m : ℕ} {path : String} {visited : Visited},
      (isEnterable path → room path visited < n ∧ room path visited < m) →
      t.nested deep next n path visited = t.nested deep next m path visited
  | 0, 0, _, _, _ => rfl
  | 0, m + 1, path, visited, h => by
      refine combine_congr fun hpath => ?_
      exact absurd (h hpath).1 (Nat.not_lt_zero _)
  | n + 1, 0, path, visited, h => by
      refine combine_congr fun hpath => ?_
      exact absurd (h hpath).2 (Nat.not_lt_zero _)
  | n + 1, m + 1, path, visited, h => by
      refine combine_congr fun hpath => listing_congr fun l hl name hname hwanted => ?_
      have hdot : isDotName name = false := by
        simp only [Wildcard.wants, Bool.and_eq_true, Bool.not_eq_true'] at hwanted
        exact hwanted.1
      have hentered := hroom.entered_le path visited
      have hbound := h hpath
      unfold literal
      cases hext : t.extend path (t.entered path visited) name true with
      | none => rfl
      | some p =>
        obtain ⟨path', visited'⟩ := p
        have hrec : t.nested deep next n path' visited' = t.nested deep next m path' visited' := by
          refine nested_congr deep next hroom fun hpath' => ?_
          have hless := hroom.extend_lt hpath hl hname hdot hext hpath'
          omega
        simp only [hrec]

/-- In the orders that go to the bottom first, an ellipsis goes down directory by directory. -/
lemma ellipsis_eq_nested (horder : t.plan.order ≠ .breadthFirst) (rest : List Component)
    (next : Descent) (n : ℕ) : t.ellipsis rest next n = t.nested (needsDirectory rest) next n := by
  rw [ellipsis]
  cases ho : t.plan.order with
  | breadthFirst => exact absurd ho horder
  | _ => rfl

/-- **An ellipsis unrolled**: its remainder at the path, and under any entry the ellipsis again. -/
theorem walk_ellipsis (hr : t.reader.IsFinite) (horder : t.plan.order ≠ .breadthFirst)
    (rest : List Component) (path : String) (visited : Visited) :
    t.walk (.ellipsis :: rest) path visited
      = t.combine (t.walk rest)
          (t.walk (.wildcard (.anyEntry t.plan.ignoreCase) :: .ellipsis :: rest)) path visited := by
  obtain ⟨room, hroom⟩ := hr.exists_room
  have hwalk : t.walk (.ellipsis :: rest)
      = t.nested (needsDirectory rest) (t.walk rest) (t.reader.extent + 1) := by
    rw [walk, ellipsis_eq_nested horder]
  have hwild : t.walk (.wildcard (.anyEntry t.plan.ignoreCase) :: .ellipsis :: rest)
      = t.listing (Wildcard.anyEntry t.plan.ignoreCase).wants fun name =>
          t.literal name true (needsDirectory rest) (t.walk (.ellipsis :: rest)) := by
    rw [walk, needsDirectory_ellipsis]
    rfl
  rw [hwild, hwalk]
  have hbound := hroom.le_extent path visited
  have hmore : t.nested (needsDirectory rest) (t.walk rest) (t.reader.extent + 1) path visited
      = t.nested (needsDirectory rest) (t.walk rest) (t.reader.extent + 2) path visited :=
    nested_congr _ _ hroom fun _ => by omega
  rw [hmore]
  rfl

/-! ## Queues -/

/-- Directories that can be listed, with less room than `n`. -/
def Waiting (room : String → Visited → ℕ) (n : ℕ) (dirs : List (String × Visited)) : Prop :=
  ∀ d ∈ dirs, isEnterable d.1 ∧ room d.1 d.2 < n

/-- The directories right below one that waits have less room. -/
lemma waiting_subdirectories (hroom : t.Room room) {n : ℕ} {dirs : List (String × Visited)}
    (h : Waiting room (n + 1) dirs) : Waiting room n (dirs.flatMap t.subdirectories) := by
  intro d hd
  obtain ⟨parent, hparent, hd⟩ := List.mem_flatMap.mp hd
  obtain ⟨hpath, hless⟩ := h parent hparent
  unfold subdirectories at hd
  split at hd
  · simp at hd
  · next l hl =>
    obtain ⟨hd, henter⟩ := List.mem_filter.mp hd
    obtain ⟨name, hname, hext⟩ := List.mem_filterMap.mp hd
    obtain ⟨hname, hdot⟩ := List.mem_filter.mp hname
    have hlt := hroom.extend_lt hpath hl hname (by simpa using hdot) hext henter
    exact ⟨henter, by omega⟩

/-- **A queue gives what levels give.**  Listing some directories of a queue first, with what is
found put behind the others, comes to the same deeds as going level by level. -/
lemma levels_append (deep : Bool) (next : Descent) (hroom : t.Room room) :
    ∀ {n : ℕ} {as bs : List (String × Visited)}, Waiting room n (as ++ bs) →
      t.levels deep next n (as ++ bs)
        = as.flatMap (t.visit deep next)
            ++ t.levels deep next n (bs ++ as.flatMap t.subdirectories)
  | 0, as, bs, h => by
      have hempty : ∀ cs : List (String × Visited), Waiting room 0 cs → cs = [] := fun cs hcs =>
        List.eq_nil_iff_forall_not_mem.mpr fun d hd => absurd (hcs d hd).2 (Nat.not_lt_zero _)
      have := hempty _ h
      simp_all [levels]
  | n + 1, as, bs, h => by
      have hbelow : Waiting room n (as.flatMap t.subdirectories
          ++ bs.flatMap t.subdirectories) := by
        rw [← List.flatMap_append]
        exact waiting_subdirectories hroom h
      simp only [levels, List.flatMap_append, List.append_assoc]
      -- the next level of the left side is the queue of the right side with one more part listed
      rw [levels_append deep next hroom hbelow]

/-- **A queue, one directory at a time.** -/
theorem levels_cons (deep : Bool) (next : Descent) (hroom : t.Room room) {d : String × Visited}
    {dirs : List (String × Visited)} (h : ∀ p ∈ d :: dirs, isEnterable p.1) :
    t.levels deep next (t.reader.extent + 1) (d :: dirs)
      = t.visit deep next d
          ++ t.levels deep next (t.reader.extent + 1) (dirs ++ t.subdirectories d) := by
  have hwait : Waiting room (t.reader.extent + 1) ([d] ++ dirs) := fun p hp =>
    ⟨h p hp, Nat.lt_succ_of_le (hroom.le_extent p.1 p.2)⟩
  simpa using levels_append deep next hroom hwait

@[simp] lemma levels_nil : ∀ n, t.levels deep next n [] = []
  | 0 => rfl
  | n + 1 => by simp [levels, levels_nil n]

end Trip

end PathExpansion
