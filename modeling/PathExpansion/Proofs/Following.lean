import PathExpansion.Proofs.Arrivals

/-!
# Following links where there are none

With links followed, an ellipsis goes down only into directories that it has not entered on the way,
and what it has entered is handed on to the ellipses behind it.  In a tree without links, whatever
was entered is above where the descent stands, so nothing is held back, and it makes no difference
whether links are followed.  There is one way around this: a part `..` between two ellipses takes
the descent up again, and what the first has entered is then in the way of the second.

* `Trip.unfollowing` — the same trip without following links.
* `Trip.AlikeStep` — two steps that lead to one path, behind which two descents are the same.
* `Trip.walk_flat` — without an ellipsis, it does not matter what was entered.
* `Trip.exists_place_of_flat` — where a step by a part of a path leads, `.` and `..` included.
* **`Trip.walk_unfollowing`** — the same deeds, links followed or not.
-/

namespace PathExpansion

namespace Tree

variable {t : Tree} {path name : String} {p : Place}

/-- A dot behind the path of a directory stays there. -/
lemma LeadsTo.resolve_dot (h : t.LeadsTo path p) : t.resolve (path ++ ".") = .ok p := by
  obtain ⟨hdir, ps, left, hpieces, -, hleft⟩ := walk_of_resolve h.enterable h.resolves
  rw [resolve, hpieces "." (by decide), hleft, Tree.walk, hdir, if_neg (by simp), if_pos (by simp),
    Tree.walk]

lemma LeadsTo.append_slash (hname : t.resolve (path ++ name) = .ok p) (hdir : t.isDirectoryAt p) :
    t.LeadsTo (path ++ name ++ "/") p := by
  refine ⟨isEnterable_append_slash _, hdir, ?_⟩
  rw [orDot, if_neg (append_slash_ne_empty _)]
  exact resolve_append_slash hname hdir

/-- What a directory is met as, if it is asked for by a path that leads to it. -/
lemma LeadsTo.identity_eq (h : t.LeadsTo path p) (d : Disturbance) :
    (t.reader d).identity (orDot path) = .place p := by
  simp only [reader, h.resolves]

/-- **Where a part of a path leads** if it is a directory: to the one that it is behind, to one
above it if the part is `..`, or to one right below. -/
lemma LeadsTo.exists_directory (hp : t.LeadsTo path p) (ht : t.IsPlain) (hname : IsName name)
    (hdir : t.isDirectoryPath (path ++ name)) :
    ∃ p', t.resolve (path ++ name) = .ok p' ∧ t.LeadsTo (path ++ name ++ "/") p' ∧
      (name ≠ ".." → p <:+ p') ∧ (isDotName name = false → p' = name :: p) := by
  obtain ⟨p', hresolve, hdir⟩ := isDirectoryPath_iff.mp hdir
  have hentry : isDotName name = false → p' = name :: p := by
    intro hdot
    rw [hp.resolve_entry ht ⟨hname, hdot⟩] at hresolve
    split_ifs at hresolve
    exact (Except.ok.inj hresolve).symm
  refine ⟨p', hresolve, .append_slash hresolve hdir, fun hup => ?_, hentry⟩
  by_cases hdot : name = "."
  · rw [hdot, hp.resolve_dot] at hresolve
    rw [Except.ok.inj hresolve]
  · rw [hentry (by simp [isDotName, hdot, hup])]
    exact List.suffix_cons name p

end Tree

/-- A component as it is compiled: no name and no glob goes down an ellipsis. -/
def Component.IsFlat : Component → Prop
  | .literal _ descent => descent = false
  | .wildcard w => w.descent = false
  | .ellipsis => True

namespace Trip

/-- The same trip without following links. -/
def unfollowing (t : Trip) : Trip := { t with follow := false }

variable {t u : Trip} {path name : String} {visited visited' : Visited} {deep descent : Bool}
  {next next' : Descent} {components : List Component}

/-! ## One step -/

/-- **Two steps that lead to one path**, or to none, and behind which two descents are the same. -/
def AlikeStep (deep : Bool) (next next' : Descent) :
    Option (String × Visited) → Option (String × Visited) → Prop
  | none, none => True
  | some q, some q' => q'.1 = q.1 ∧ (isEnterable q.1 || !deep → next' q.1 q'.2 = next q.1 q.2)
  | _, _ => False

lemma AlikeStep.literal (h : AlikeStep deep next next' (t.extend path visited name descent)
      (u.extend path visited' name descent)) :
    u.literal name descent deep next' path visited'
      = t.literal name descent deep next path visited := by
  rw [Trip.literal, Trip.literal]
  cases hq : t.extend path visited name descent with
  | none =>
    cases hq' : u.extend path visited' name descent with
    | none => rfl
    | some q' => rw [hq, hq'] at h; exact h.elim
  | some q =>
    cases hq' : u.extend path visited' name descent with
    | none => rw [hq, hq'] at h; exact h.elim
    | some q' =>
      rw [hq, hq'] at h
      obtain ⟨hplace, hnext⟩ := h
      simp only [hplace]
      cases henter : isEnterable q.1 with
      | true => simp [hnext (by rw [henter]; rfl)]
      | false =>
        cases deep with
        | true => simp
        | false => simp [hnext (by rw [henter]; rfl)]

/-- Listing a directory has nothing to do with what was entered; what is done with its names may. -/
lemma listing_unfollowing {wanted : String → Bool} {sub sub' : String → Descent}
    (h : ∀ l, t.reader.listed t.plan path = .ok l → ∀ name ∈ l.names, wanted name →
      sub' name path visited' = sub name path visited) :
    t.unfollowing.listing wanted sub' path visited' = t.listing wanted sub path visited := by
  have hlisted : t.unfollowing.reader.listed t.unfollowing.plan path
      = t.reader.listed t.plan path := rfl
  rw [listing, listing, hlisted]
  cases hl : t.reader.listed t.plan path with
  | error fault => rfl
  | ok l =>
    have hnames : names wanted sub' l.names path visited'
        = names wanted sub l.names path visited := by
      refine List.flatMap_congr fun name hname => ?_
      obtain ⟨hmem, hwanted⟩ := List.mem_filter.mp hname
      rw [h l hl name hmem hwanted]
    simp only [hnames]

/-! ## Parts that are no ellipsis -/

/-- Where a part of a path leads that is no ellipsis: it does not matter what was entered. -/
def flat (t : Trip) (path name : String) : Option String :=
  if t.plan.exclude.any (·.finds (path ++ name)) then none
  else if t.reader.isDirectory (path ++ name) then some (path ++ name ++ "/")
  else some (path ++ name)

lemma extend_flat (t : Trip) (path name : String) (visited : Visited) :
    t.extend path visited name false = (t.flat path name).map (·, visited) := by
  rw [extend, flat]
  cases t.plan.exclude.any (·.finds (path ++ name)) <;>
    cases t.reader.isDirectory (path ++ name) <;> rfl

lemma alikeStep_flat (h : ∀ q, t.flat path name = some q → isEnterable q || !deep →
      next' q visited' = next q visited) :
    AlikeStep deep next next' (t.extend path visited name false)
      (t.unfollowing.extend path visited' name false) := by
  have hflat : t.unfollowing.flat path name = t.flat path name := rfl
  rw [extend_flat, extend_flat, hflat]
  cases hq : t.flat path name with
  | none => trivial
  | some q => exact ⟨rfl, h q hq⟩

/-- **Without an ellipsis it does not matter what was entered.** -/
lemma walk_flat (hflat : ∀ c ∈ components, c.IsFlat) (hnone : .ellipsis ∉ components)
    (path : String) (visited visited' : Visited) :
    t.unfollowing.walk components path visited' = t.walk components path visited := by
  induction components generalizing path with
  | nil => rfl
  | cons c rest ih =>
    rw [List.forall_mem_cons] at hflat
    rw [List.mem_cons, not_or] at hnone
    have hrest := ih hflat.2 hnone.2
    cases c with
    | literal name descent =>
      obtain rfl : descent = false := hflat.1
      exact (alikeStep_flat fun q _ _ => hrest q).literal
    | wildcard w =>
      have hw : w.descent = false := hflat.1
      rw [walk, walk, hw]
      exact listing_unfollowing fun l _ name _ _ => (alikeStep_flat fun q _ _ => hrest q).literal
    | ellipsis => exact absurd rfl hnone.1

/-! ## Trees without links -/

section

variable {tree : Tree} {d : Disturbance} {p : Place} (ht : tree.IsPlain)
  (hreader : t.reader = tree.reader d)

include ht hreader

/-- **Where a part of a path leads** that can be entered: to the directory itself, to one above it
if the part is `..`, or to one right below. -/
lemma exists_place_of_flat (hp : tree.LeadsTo path p) (hname : IsName name) {q : String}
    (hq : t.flat path name = some q) (henter : isEnterable q) :
    ∃ p', tree.LeadsTo q p' ∧ (name ≠ ".." → p <:+ p') := by
  have hleaf : path ++ name ≠ q := by
    rintro rfl
    rw [isEnterable_append hname] at henter
    cases henter
  have hdirectory : t.reader.isDirectory (path ++ name) ∧ q = path ++ name ++ "/" := by
    rw [flat] at hq
    split_ifs at hq with _ hdir
    · exact ⟨hdir, (Option.some.inj hq).symm⟩
    · exact absurd (Option.some.inj hq) hleaf
  obtain ⟨hdir, rfl⟩ := hdirectory
  rw [hreader] at hdir
  obtain ⟨p', _, hp', hbelow, _⟩ := hp.exists_directory ht hname hdir
  exact ⟨p', hp', hbelow⟩

lemma isEntryName_of_wants {w : Wildcard} {l : Listing} (hl : t.reader.listed t.plan path = .ok l)
    (hmem : name ∈ l.names) (hwanted : w.wants name) : Tree.IsEntryName name := by
  have hr : t.reader.IsFinite := by
    rw [hreader]
    exact Tree.reader_isFinite ht.isNamed d
  rw [Wildcard.wants, Bool.and_eq_true, Bool.not_eq_true'] at hwanted
  exact ⟨hr.isName hl hmem, hwanted.1⟩

/-- **A step down an ellipsis** leads to the same path, links followed or not: what was entered is
above the directory, so the entry has not been met. -/
lemma alikeStep_descent (hp : tree.LeadsTo path p) (habove : IsAbove visited p)
    (hname : Tree.IsEntryName name)
    (h : ∀ q visited', tree.LeadsTo q (name :: p) → IsAbove visited' (name :: p) →
      next' q [] = next q visited') :
    AlikeStep true next next' (t.extend path visited name true)
      (t.unfollowing.extend path [] name true) := by
  have hisDirectory : t.reader.isDirectory (path ++ name) = tree.isDirectoryAt (name :: p) := by
    rw [hreader]
    exact hp.isDirectoryPath_entry ht hname
  have hlink : t.reader.isLink (path ++ name) = false := by
    rw [hreader]
    exact ht.isLinkPath_eq _
  cases hdir : tree.isDirectoryAt (name :: p) with
  | false =>
    rw [hdir] at hisDirectory
    simp only [extend, unfollowing, hisDirectory]
    cases t.plan.exclude.any (·.finds (path ++ name)) with
    | true => trivial
    | false =>
      refine ⟨rfl, fun henter => ?_⟩
      rw [isEnterable_append hname.isName] at henter
      cases henter
  | true =>
    rw [hdir] at hisDirectory
    have hresolve := hp.resolve_entry ht hname
    rw [if_pos (Tree.isSome_of_isDirectoryAt hdir)] at hresolve
    have hidentity : t.reader.identity (path ++ name) = .place (name :: p) := by
      simp only [hreader, Tree.reader, hresolve]
    have hnew : visited.contains (Identity.place (name :: p)) = false := by
      simpa using habove.not_mem name
    have hleads : tree.LeadsTo (path ++ name ++ "/") (name :: p) := .append_slash hresolve hdir
    simp only [extend, unfollowing, hisDirectory, hlink, hidentity, hnew]
    cases t.plan.exclude.any (·.finds (path ++ name)) with
    | true => trivial
    | false =>
      cases t.follow with
      | true => exact ⟨rfl, fun _ => h _ _ hleads (habove.cons name).insert⟩
      | false => exact ⟨rfl, fun _ => h _ _ hleads (habove.cons name)⟩

omit ht in
lemma entered_isAbove (hp : tree.LeadsTo path p) (habove : IsAbove visited p) :
    IsAbove (t.entered path visited) p := by
  rw [entered, hreader, hp.identity_eq d]
  split
  · exact habove.insert
  · exact habove

/-- An ellipsis, for any number of levels. -/
lemma nested_unfollowing
    (hnext : ∀ {path p visited}, tree.LeadsTo path p → IsAbove visited p →
      next' path [] = next path visited)
    (n : ℕ) (hp : tree.LeadsTo path p) (habove : IsAbove visited p) :
    t.unfollowing.nested true next' n path [] = t.nested true next n path visited := by
  have hcombine : ∀ {under under' : Descent} {path p visited}, tree.LeadsTo path p →
      IsAbove visited p →
      (∀ visited, IsAbove visited p → under' path [] = under path visited) →
      t.unfollowing.combine next' under' path [] = t.combine next under path visited := by
    intro under under' path p visited hp habove hunder
    have hentered := entered_isAbove hreader hp habove
    have hnone : t.unfollowing.entered path [] = [] := rfl
    have horder : t.unfollowing.plan.order = t.plan.order := rfl
    rw [combine, combine, hnone, horder]
    simp only [hnext hp hentered, hunder _ hentered]
  induction n generalizing path p visited with
  | zero => exact hcombine hp habove fun _ _ => rfl
  | succ n ih =>
    refine hcombine hp habove fun visited habove =>
      listing_unfollowing fun l hl name hmem hwanted => ?_
    have hname : Tree.IsEntryName name := isEntryName_of_wants ht hreader hl hmem hwanted
    exact (alikeStep_descent ht hreader hp habove hname fun q visited' hq hvisited' =>
      ih hq hvisited').literal

/-- **Whether links are followed makes no difference** to a descent through a tree without links,
unless a part `..` stands between two ellipses, or behind what was entered and in front of an
ellipsis. -/
theorem walk_unfollowing (horder : t.plan.order ≠ .breadthFirst)
    (hflat : ∀ c ∈ components, c.IsFlat)
    (hnames : ∀ name descent, .literal name descent ∈ components → IsName name)
    (hlast : components.getLast? ≠ some .ellipsis)
    (hreturn : ¬ ["", "..", ""].Sublist (components.map Component.text))
    (hvisited : visited = [] ∨ ¬ ["..", ""].Sublist (components.map Component.text))
    (hp : tree.LeadsTo path p) (habove : IsAbove visited p) :
    t.unfollowing.walk components path [] = t.walk components path visited := by
  induction components generalizing path p visited with
  | nil => rfl
  | cons c rest ih =>
    rw [List.forall_mem_cons] at hflat
    rw [List.map_cons] at hreturn hvisited
    have hlast' := getLast?_ne_of_cons hlast
    have hreturn' : ¬ ["", "..", ""].Sublist (rest.map Component.text) := fun h =>
      hreturn (h.cons _)
    have hrest : ∀ {path p visited},
        visited = [] ∨ ¬ ["..", ""].Sublist (rest.map Component.text) →
        tree.LeadsTo path p → IsAbove visited p →
        t.unfollowing.walk rest path [] = t.walk rest path visited :=
      fun hvisited hp habove => ih hflat.2
        (fun name descent h => hnames name descent (List.mem_cons_of_mem c h)) hlast' hreturn'
        hvisited hp habove
    have hdeep : rest = [] ∨ needsDirectory rest := by
      by_cases hempty : rest = []
      · exact Or.inl hempty
      · exact Or.inr (needsDirectory_of_getLast? hempty hlast')
    -- behind a part that is no ellipsis, the descent goes on where something has to be found inside
    have hstep : ∀ name, IsName name → (visited = [] ∨ name ≠ "..") → visited = [] ∨
        ¬ ["..", ""].Sublist (rest.map Component.text) →
        ∀ q, t.flat path name = some q → isEnterable q || !needsDirectory rest →
        t.unfollowing.walk rest q [] = t.walk rest q visited := by
      intro name hname hup hvisited q hq hwanted
      rcases hdeep with rfl | hdeep
      · rfl
      · rw [hdeep, Bool.not_true, Bool.or_false] at hwanted
        obtain ⟨p', hp', hbelow⟩ := exists_place_of_flat ht hreader hp hname hq hwanted
        refine hrest hvisited hp' ?_
        rcases hup with rfl | hup
        · exact fun i hi => absurd hi List.not_mem_nil
        · exact fun i hi => (habove i hi).imp fun q h => ⟨h.1, h.2.trans (hbelow hup)⟩
    cases c with
    | literal name descent =>
      obtain rfl : descent = false := hflat.1
      have hname := hnames name false List.mem_cons_self
      have hrest' : visited = [] ∨ ¬ ["..", ""].Sublist (rest.map Component.text) :=
        hvisited.imp_right fun h hsub => h (hsub.cons _)
      by_cases hup : visited = [] ∨ name ≠ ".."
      · exact (alikeStep_flat (hstep name hname hup hrest')).literal
      · -- the way up, behind what was entered: there is no ellipsis any more
        rw [not_or, not_not] at hup
        obtain ⟨hentered, rfl⟩ := hup
        have hnone : .ellipsis ∉ rest := fun hmem => by
          refine hvisited.resolve_left hentered (List.Sublist.cons_cons _ ?_)
          exact List.singleton_sublist.mpr (List.mem_map_of_mem hmem)
        exact (alikeStep_flat fun q _ _ => walk_flat hflat.2 hnone q _ _).literal
    | wildcard w =>
      have hw : w.descent = false := hflat.1
      rw [walk, walk, hw]
      refine listing_unfollowing fun l hl name hmem hwanted => ?_
      have hentry : Tree.IsEntryName name := isEntryName_of_wants ht hreader hl hmem hwanted
      have hup : name ≠ ".." := by
        rintro rfl
        exact absurd hentry.2 (by decide)
      exact (alikeStep_flat (hstep name hentry.1 (Or.inr hup)
        (hvisited.imp_right fun h hsub => h (hsub.cons _)))).literal
    | ellipsis =>
      have hreturns : ¬ ["..", ""].Sublist (rest.map Component.text) := fun h =>
        hreturn (h.cons_cons _)
      rcases hdeep with rfl | hdeep
      · exact absurd rfl hlast
      · have horder' : t.unfollowing.plan.order ≠ .breadthFirst := horder
        rw [walk, walk, ellipsis_eq_nested horder, ellipsis_eq_nested horder', hdeep]
        exact nested_unfollowing ht hreader (hrest (Or.inr hreturns)) _ hp habove

end

end Trip

end PathExpansion
