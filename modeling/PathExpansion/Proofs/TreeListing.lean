import PathExpansion.Options
import PathExpansion.Proofs.GlobLanguage
import PathExpansion.Proofs.Spelling
import PathExpansion.Proofs.Unrolling

/-!
# Listing a tree

A tree is listed by the path of a directory with three slashes behind it.  Slashes at the end of the
path are taken off first, so the three stand for one ellipsis behind the parts of the directory,
however it is spelled; only a directory that is nothing but slashes leaves no part at all.  At a
directory the ellipsis arrives at what is inside, each place once, and at the directory itself
unless the walk goes level by level.  A link is arrived at like a file if links are not followed.

* `PathSpec.rootParts`, `PathSpec.splitText_listing` — the parts of the path.
* `Tree.pathsIn` — what is inside a directory; `Tree.IsRooted.allPathsIn_perm` — one level at a
  time.
* `Trip.depths_perm_allPathsIn` — the depths that an ellipsis goes to.
* `Trip.arrivalsIn_ellipsis_end` — where an ellipsis at the end arrives; `Trip.arrivalsIn_names` —
  names in front of it.
* **`PathSpec.treeListing_lists`** — what lists a tree; `PathSpec.treeListing_slashes` — what does
  not.
-/

namespace PathExpansion

/-! ## The path -/

namespace PathSpec

/-- The parts of a directory that is listed: those of its path without the slashes at its end, but
for a path that is nothing but the dot of the current directory or of the root. -/
def rootParts (root : String) : List String :=
  if trimSlashes root ∈ [".", "/.", "//."] then [] else (splitText (trimSlashes root)).1

/-- Slashes at the end are dropped as far as they go. -/
lemma trimSlashes_slashes {cs : List Char} (h : cs.getLast? ≠ some '/') (k : ℕ) :
    trimSlashes (String.ofList (cs ++ slashes k)) = String.ofList cs := by
  have hhead : cs.reverse.head? ≠ some '/' := by rwa [List.head?_reverse]
  rw [trimSlashes, String.toList_ofList, List.reverse_append, slashes, List.reverse_replicate,
    (Glob.dropWhile_replicate '/' k hhead).2, List.reverse_reverse]

namespace Spelling

/-- Names with slashes between them, and one with so many behind it at the end. -/
def withEnd (leading : ℕ) (front : List (String × ℕ)) (name : String) (k : ℕ)
    (hfront : ∀ n ∈ front, IsName n.1 ∧ 1 ≤ n.2) (hname : IsName name) : Spelling where
  leading := leading
  names := front ++ [(name, k)]
  isName := List.forall_mem_append.mpr
    ⟨fun n hn => (hfront n hn).1, List.forall_mem_singleton.mpr hname⟩
  divided := by
    rw [List.dropLast_concat]
    exact fun n hn => (hfront n hn).2

/-- A path with a name in it ends in a name, with some slashes behind it. -/
lemma exists_withEnd (w : Spelling) (h : w.names ≠ []) :
    ∃ leading front name k hfront hname, w = withEnd leading front name k hfront hname := by
  obtain ⟨leading, names, hnames, hdivided⟩ := w
  obtain ⟨front, n, rfl⟩ := (List.eq_nil_or_concat' names).resolve_left h
  rw [List.dropLast_concat] at hdivided
  obtain ⟨hfront, hname⟩ := List.forall_mem_append.mp hnames
  exact ⟨leading, front, n.1, n.2, fun m hm => ⟨hfront m hm, hdivided m hm⟩,
    hname n (List.mem_singleton_self n), rfl⟩

variable {leading : ℕ} {front : List (String × ℕ)} {name : String}
  {hfront : ∀ n ∈ front, IsName n.1 ∧ 1 ≤ n.2} {hname : IsName name}

lemma text_withEnd (k : ℕ) :
    (withEnd leading front name k hfront hname).text
      = String.ofList (written leading front ++ name.toList ++ slashes k) := by
  simp [text, withEnd, written, namesText]

/-- Without the slashes at the end nothing stands behind the last name. -/
lemma trimSlashes_withEnd (k : ℕ) :
    trimSlashes (withEnd leading front name k hfront hname).text
      = (withEnd leading front name 0 hfront hname).text := by
  have hlast : (written leading front ++ name.toList).getLast? ≠ some '/' := by
    have hne : name.toList ≠ [] := mt String.toList_eq_nil_iff.mp hname.1
    rw [List.getLast?_append_of_ne_nil _ hne]
    exact fun h => hname.2 (List.mem_of_mem_getLast? h)
  rw [text_withEnd, text_withEnd, trimSlashes_slashes hlast, slashes_zero, List.append_nil]

lemma append_withEnd (k : ℕ) :
    trimSlashes (withEnd leading front name k hfront hname).text ++ "///"
      = (withEnd leading front name 3 hfront hname).text := by
  rw [trimSlashes_withEnd, text_withEnd, text_withEnd, ← String.toList_inj]
  simp [slashes, List.replicate]

/-- **Three slashes at the end are one more empty part.**  A dot that was the whole path is hidden
by them. -/
lemma parts_withEnd :
    (withEnd leading front name 3 hfront hname).parts
      = if front = [] ∧ name = "." ∧ leading ≤ 2 then [""]
        else (withEnd leading front name 0 hfront hname).parts ++ [""] := by
  have hends (k : ℕ) : partsOf (fun slashes => halved slashes - 1) (front ++ [(name, k)])
      = partsOf (fun slashes => halved slashes - 1) front
        ++ name :: List.replicate (halved k - 1) "" := by
    simp [partsOf]
  cases front with
  | nil =>
    by_cases hdot : name = "." ∧ leading ≤ 2
    · obtain ⟨rfl, hleading⟩ := hdot
      have hnone : (leading + 1) / 2 - 2 = 0 := by omega
      simp [parts, hidesDot, withEnd, partsOf, hnone, hleading, halved]
    · have hshown : (withEnd leading [] name 3 hfront hname).hidesDot = false := by
        refine Bool.eq_false_iff.mpr fun h => hdot ?_
        simp only [hidesDot, withEnd, List.nil_append, Bool.and_eq_true, decide_eq_true_eq] at h
        exact ⟨h.1.1, of_decide_eq_true h.1.2⟩
      have hshown' : (withEnd leading [] name 0 hfront hname).hidesDot = false := by
        simp [hidesDot, withEnd]
      rw [if_neg fun h => hdot h.2, parts, parts, hshown, hshown']
      simp [withEnd, partsOf, halved]
  | cons n front =>
    have hhides : (withEnd leading (n :: front) name 3 hfront hname).hidesDot
        = (withEnd leading (n :: front) name 0 hfront hname).hidesDot := rfl
    rw [if_neg fun h => List.cons_ne_nil n front h.1, parts, parts, hhides]
    simp only [withEnd, hends]
    split_ifs with hdot <;> simp [partsOf, halved]

/-- Only three paths are nothing but the dot of the current directory or of the root. -/
lemma text_withEnd_mem_iff :
    (withEnd leading front name 0 hfront hname).text ∈ [".", "/.", "//."] ↔
      front = [] ∧ name = "." ∧ leading ≤ 2 := by
  have htext : (withEnd leading front name 0 hfront hname).text
      = String.ofList (written leading front ++ name.toList) := by
    rw [text_withEnd, slashes_zero, List.append_nil]
  constructor
  · intro h
    have hdot : ∀ path ∈ [".", "/.", "//."],
        path.toList.filter (· != '/') = ['.'] ∧ path.toList.length ≤ 3 := by decide
    obtain ⟨hfilter, hlength⟩ := hdot _ h
    have hkept : name.toList.filter (· != '/') = name.toList :=
      List.filter_eq_self.mpr fun c hc => bne_iff_ne.mpr fun heq => hname.2 (heq ▸ hc)
    rw [htext, String.toList_ofList, List.filter_append, hkept,
      List.append_eq_singleton_iff] at hfilter
    have hne : name.toList ≠ [] := mt String.toList_eq_nil_iff.mp hname.1
    obtain ⟨hnone, hself⟩ := hfilter.resolve_right fun h => hne h.2
    have hempty : front = [] := by
      cases front with
      | nil => rfl
      | cons n front =>
        obtain ⟨c, cs, hn, hc, -⟩ := exists_cons_of_isName (hfront n List.mem_cons_self).1
        have hmem : c ∈ (written leading (n :: front)).filter (· != '/') :=
          List.mem_filter.mpr ⟨by simp [written, namesText_cons, hn], bne_iff_ne.mpr hc⟩
        rw [hnone] at hmem
        exact absurd hmem List.not_mem_nil
    subst hempty
    rw [htext, String.toList_ofList, hself] at hlength
    refine ⟨rfl, String.toList_inj.mp hself, ?_⟩
    rw [written, namesText_nil, List.append_nil, List.length_append, slashes,
      List.length_replicate] at hlength
    exact Nat.le_of_succ_le_succ hlength
  · rintro ⟨rfl, rfl, hleading⟩
    rw [htext]
    obtain rfl | rfl | rfl : leading = 0 ∨ leading = 1 ∨ leading = 2 := by omega
    all_goals decide

/-- A path begins with a slash if there is one in front of its names. -/
lemma head?_text (w : Spelling) : w.text.toList.head? = some '/' ↔ 1 ≤ w.leading := by
  obtain ⟨leading, names, hnames, hdivided⟩ := w
  rw [text, String.toList_ofList]
  cases leading with
  | zero => exact iff_of_false (head?_namesText hnames) (Nat.not_succ_le_zero 0)
  | succ n => exact iff_of_true rfl (Nat.le_add_left 1 n)

/-- There is a name in a path that is more than slashes. -/
lemma names_ne_nil {w : Spelling} (h : ∃ c ∈ w.text.toList, c ≠ '/') : w.names ≠ [] := by
  intro hnames
  obtain ⟨c, hc, hslash⟩ := h
  rw [text, hnames, written, namesText_nil, List.append_nil, String.toList_ofList] at hc
  exact hslash (List.eq_of_mem_replicate hc)

end Spelling

/-- **The path that lists a directory is split into the parts of the directory and an ellipsis**,
and starts at the root if the directory does. -/
lemma splitText_listing {root : String} (hroot : ∃ c ∈ root.toList, c ≠ '/') :
    splitText (trimSlashes root ++ "///")
      = (rootParts root ++ [""], decide (root.toList.head? = some '/')) := by
  obtain ⟨w, rfl⟩ := Spelling.exists_spelling root
  have hhead := w.head?_text
  obtain ⟨leading, front, name, k, hfront, hname, rfl⟩ :=
    w.exists_withEnd (Spelling.names_ne_nil hroot)
  simp only [hhead]
  rw [Spelling.append_withEnd, Spelling.splitText_text, Spelling.parts_withEnd, rootParts,
    Spelling.trimSlashes_withEnd, Spelling.splitText_text]
  simp only [Spelling.text_withEnd_mem_iff]
  split_ifs <;> rfl

end PathSpec

/-! ## Places -/

namespace Tree

variable {t : Tree} {path name : String} {p q : Place}

/-- The names that lead from a place to one below it, the outermost first. -/
def namesFrom (p q : Place) : List String := q.reverse.drop p.length

/-- The path of a place below another one, if `path` leads there; a directory ends in a slash. -/
def pathIn (t : Tree) (path : String) (p q : Place) : String :=
  path ++ joinNames (namesFrom p q) (t.isDirectoryAt q)

/-- The paths of all places inside a directory. -/
def allPathsIn (t : Tree) (path : String) (p : Place) : List String :=
  ((t.below p).erase p).map (t.pathIn path p)

/-- There is something at the place, or the link at it leads to something. -/
def isFound (t : Tree) (path : String) (p q : Place) : Bool :=
  !t.isLinkAt q || (t.resolve (t.pathIn path p q)).isOk

/-- **The paths of what is inside a directory**, if `path` leads to it.  Links are among it, but for
those that lead to nothing. -/
def pathsIn (t : Tree) (path : String) (p : Place) : List String :=
  (((t.below p).erase p).filter (t.isFound path p)).map (t.pathIn path p)

lemma namesFrom_append (front p : Place) : namesFrom p (front ++ p) = front.reverse := by
  rw [namesFrom, List.reverse_append, List.drop_left' List.length_reverse]

lemma pathIn_append (t : Tree) (path : String) (front p : Place) :
    t.pathIn path p (front ++ p)
      = path ++ joinNames front.reverse (t.isDirectoryAt (front ++ p)) := by
  rw [pathIn, namesFrom_append]

lemma IsRooted.mem_erase_below (ht : t.IsRooted) :
    q ∈ (t.below p).erase p ↔ (t.node? q).isSome ∧ ∃ front, front ≠ [] ∧ q = front ++ p := by
  rw [(ht.nodup_below p).mem_erase_iff, mem_below]
  constructor
  · rintro ⟨hne, hq, front, rfl⟩
    refine ⟨hq, front, ?_, rfl⟩
    rintro rfl
    exact hne rfl
  · rintro ⟨hq, front, hfront, rfl⟩
    exact ⟨fun h => hfront (List.append_left_eq_self.mp h), hq, List.suffix_append front p⟩

/-- **What is inside a directory, one level at a time**: the entries, and what is inside of each. -/
lemma IsRooted.allPathsIn_perm (ht : t.IsRooted) (path : String) (hp : (t.node? p).isSome) :
    (t.allPathsIn path p).Perm ((t.names p).flatMap fun name =>
      (path ++ joinNames [name] (t.isDirectoryAt (name :: p)))
        :: t.allPathsIn (path ++ joinNames [name] true) (name :: p)) := by
  have hbelow := (ht.below_perm hp).erase p
  rw [List.erase_cons_head] at hbelow
  refine (hbelow.map _).trans ?_
  rw [List.map_flatMap]
  refine List.Perm.flatMap_left _ fun name hname => ?_
  have hentry : name :: p ∈ t.below (name :: p) :=
    mem_below.mpr ⟨mem_names.mp hname, List.suffix_rfl⟩
  refine ((List.perm_cons_erase hentry).map _).trans (.of_eq ?_)
  have hself : t.pathIn path p (name :: p)
      = path ++ joinNames [name] (t.isDirectoryAt (name :: p)) :=
    t.pathIn_append path [name] p
  rw [List.map_cons, hself]
  refine congrArg _ (List.map_congr_left fun q hq => ?_)
  obtain ⟨-, front, hfront, rfl⟩ := ht.mem_erase_below.mp hq
  have hnames : t.pathIn path p (front ++ name :: p)
      = path ++ joinNames ([name] ++ front.reverse) (t.isDirectoryAt (front ++ name :: p)) := by
    rw [pathIn, List.append_cons, namesFrom_append, List.reverse_append, List.reverse_singleton]
  rw [hnames, pathIn_append, List.singleton_append, joinNames_singleton, if_pos rfl,
    String.append_assoc, joinNames_cons (mt List.reverse_eq_nil_iff.mp hfront)]

/-- Nothing is inside of what is no directory. -/
lemma IsRooted.allPathsIn_eq_nil (ht : t.IsRooted) (path : String) (hp : (t.node? p).isSome)
    (hleaf : t.isDirectoryAt p = false) : t.allPathsIn path p = [] := by
  have hperm := ht.allPathsIn_perm path hp
  rw [ht.names_eq_nil hleaf] at hperm
  exact hperm.eq_nil

/-- What is in front of a slash in such a path leads to a directory, too. -/
lemma LeadsTo.isDirectoryPath {front behind : String} (h : t.LeadsTo (front ++ "/" ++ behind) p) :
    t.isDirectoryPath front := by
  have hne : front ++ "/" ++ behind ≠ "" := fun hempty =>
    append_slash_ne_empty front (String.append_eq_empty_iff.mp hempty).1
  have hresolve := h.resolves
  obtain ⟨left, hleft⟩ := t.walk_append 40 [] (piecesOf front)
  rw [orDot, if_neg hne, resolve, piecesOf_append_slash, hleft] at hresolve
  cases hfront : t.walk 40 [] (piecesOf front) with
  | error problem =>
    rw [hfront] at hresolve
    cases hresolve
  | ok q =>
    refine isDirectoryPath_iff.mpr ⟨q, hfront, ?_⟩
    obtain ⟨piece, pieces, hpieces⟩ := List.exists_cons_of_ne_nil (mt List.map_eq_nil_iff.mp
      (PathSpec.stretches_ne_nil behind.toList))
    have hstep : t.walk left q (piece :: pieces) = .ok p := by
      rw [hfront] at hresolve
      rw [← hpieces]
      exact hresolve
    by_contra hleaf
    rw [Tree.walk, if_pos (by simpa using hleaf)] at hstep
    cases hstep

lemma joinNames_ne_empty {names : List String} (hne : names ≠ [])
    (hnames : ∀ name ∈ names, IsName name) (slash : Bool) : joinNames names slash ≠ "" := by
  intro hempty
  cases names with
  | nil => exact hne rfl
  | cons name names =>
    cases names with
    | nil =>
      rw [joinNames_singleton] at hempty
      exact (hnames name List.mem_cons_self).1 (String.append_eq_empty_iff.mp hempty).1
    | cons second names =>
      rw [joinNames_cons (List.cons_ne_nil second names)] at hempty
      exact append_slash_ne_empty name (String.append_eq_empty_iff.mp hempty).1

/-- A path leads to the places inside that are no links. -/
lemma LeadsTo.resolve_names (hp : t.LeadsTo path p) (ht : t.IsRooted) {names : List String}
    (hne : names ≠ []) (hq : (t.node? (names.reverse ++ p)).isSome)
    (hlink : t.isLinkAt (names.reverse ++ p) = false) :
    t.resolve (path ++ joinNames names (t.isDirectoryAt (names.reverse ++ p)))
      = .ok (names.reverse ++ p) := by
  induction names generalizing path p with
  | nil => exact absurd rfl hne
  | cons name names ih =>
    rw [List.reverse_cons, List.append_assoc, List.singleton_append] at hq hlink ⊢
    have hentry := ht.isSome_of_suffix hq (List.suffix_append _ _)
    have hname := (ht.of_isSome hentry).1
    cases names with
    | nil =>
      rw [List.reverse_nil, List.nil_append] at hlink ⊢
      rw [joinNames_singleton]
      have hresolve := resolve_unlinked hp.enterable hname hp.resolves hlink
      rw [if_pos hentry] at hresolve
      cases hdir : t.isDirectoryAt (name :: p) with
      | true =>
        rw [if_pos rfl, ← String.append_assoc]
        exact resolve_append_slash hresolve hdir
      | false =>
        rw [if_neg Bool.false_ne_true, String.append_empty]
        exact hresolve
    | cons second names =>
      -- something is inside of the first entry
      have hsecond : (t.node? (second :: name :: p)).isSome :=
        ht.isSome_of_suffix hq ⟨names.reverse, by simp⟩
      have hdir := (ht.of_isSome hsecond).2
      rw [joinNames_cons (List.cons_ne_nil second names), ← String.append_assoc,
        ← String.append_assoc]
      exact ih (hp.entry hname hdir) (List.cons_ne_nil _ _) hq hlink

/-- A directory is present by any path to it but the empty one. -/
lemma LeadsTo.isPresent_eq (hp : t.LeadsTo path p) (d : Disturbance) :
    (t.reader d).isPresent path = decide (path ≠ "") := by
  by_cases hpath : path = ""
  · rw [hpath]
    rfl
  · have hresolve := hp.resolves
    rw [orDot, if_neg hpath] at hresolve
    simp only [reader, hresolve]
    exact Bool.and_true _

/-- Inside of it those places are present at which something is found. -/
lemma LeadsTo.filter_allPathsIn (hp : t.LeadsTo path p) (ht : t.IsRooted) (d : Disturbance) :
    (t.allPathsIn path p).filter (t.reader d).isPresent = t.pathsIn path p := by
  rw [allPathsIn, List.filter_map, pathsIn]
  refine congrArg _ (List.filter_congr fun q hq => ?_)
  obtain ⟨hnode, front, hfront, rfl⟩ := ht.mem_erase_below.mp hq
  have hne : front.reverse ≠ [] := mt List.reverse_eq_nil_iff.mp hfront
  have hnames : ∀ name ∈ front.reverse, IsName name := fun name hname =>
    (ht.names_proper hnode name (List.mem_append_left p (List.mem_reverse.mp hname))).isName
  have hpath : t.pathIn path p (front ++ p) ≠ "" := by
    rw [pathIn_append]
    exact fun hempty => joinNames_ne_empty hne hnames _ (String.append_eq_empty_iff.mp hempty).2
  rw [Function.comp_apply, isFound]
  simp only [reader, ne_eq, hpath, not_false_eq_true, decide_true, Bool.true_and]
  cases hlink : t.isLinkAt (front ++ p) with
  | true => rw [Bool.not_true, Bool.false_or]
  | false =>
    have hresolve := hp.resolve_names ht hne
      (by rwa [List.reverse_reverse]) (by rwa [List.reverse_reverse])
    rw [List.reverse_reverse] at hresolve
    rw [pathIn_append, hresolve]
    rfl

end Tree

namespace Trip

variable {t : Trip} {tree : Tree} {d : Disturbance} {path name : String} {p : Place}
  {visited : Visited}
  (ht : tree.IsRooted) (hreader : t.reader = tree.reader d) (hexclude : t.plan.exclude = none)
  (hlinks : t.follow = false ∨ tree.IsPlain)

section

include hreader hexclude hlinks

/-- A step down an ellipsis leads to the entry, with a slash behind it if it is a directory.  A link
is left as it is. -/
lemma exists_step (hp : tree.LeadsTo path p) (habove : IsAbove visited p)
    (hname : Tree.IsEntryName name) :
    ∃ visited', t.step name true false path visited
        = [(path ++ joinNames [name] (tree.isDirectoryAt (name :: p)), visited')] ∧
      IsAbove visited' (name :: p) := by
  have hisLink : t.reader.isLink (path ++ name) = tree.isLinkAt (name :: p) := by
    rw [hreader]
    exact Tree.isLinkPath_append hp.enterable hname hp.resolves
  have hstep : t.step name true false path visited = (t.extend path visited name true).toList := by
    rw [step]
    exact List.filter_eq_self.mpr fun q _ => Bool.or_true _
  rw [hstep, joinNames_singleton]
  simp only [extend, hexclude, hisLink]
  cases hlink : tree.isLinkAt (name :: p) with
  | true =>
    have hfollow : t.follow = false := hlinks.resolve_right fun hplain => by
      rw [hplain.isLinkAt_eq] at hlink
      cases hlink
    have hdir : tree.isDirectoryAt (name :: p) = false := Bool.eq_false_iff.mpr fun hdir => by
      rw [Tree.isLinkAt_of_isDirectoryAt hdir] at hlink
      cases hlink
    refine ⟨visited, ?_, habove.cons name⟩
    rw [hdir, hfollow]
    cases t.reader.isDirectory (path ++ name) <;> simp
  | false =>
    have hdirectory : t.reader.isDirectory (path ++ name) = tree.isDirectoryAt (name :: p) := by
      rw [hreader]
      exact hp.isDirectoryPath_unlinked hname hlink
    rw [hdirectory]
    cases hdir : tree.isDirectoryAt (name :: p) with
    | false => exact ⟨visited, by simp, habove.cons name⟩
    | true =>
      have hidentity : t.reader.identity (path ++ name) = .place (name :: p) := by
        have hresolve := Tree.resolve_unlinked hp.enterable hname hp.resolves hlink
        rw [if_pos (Tree.isSome_of_isDirectoryAt hdir)] at hresolve
        simp only [hreader, Tree.reader, hresolve]
      have hnew : visited.contains (Identity.place (name :: p)) = false := by
        simpa using habove.not_mem name
      simp only [hidentity, hnew]
      cases t.follow with
      | false => exact ⟨visited, by simp [String.append_assoc], habove.cons name⟩
      | true => exact ⟨_, by simp [String.append_assoc], (habove.cons name).insert⟩

include ht

/-- **All depths of a directory**: what is inside of it. -/
lemma depths_perm_allPathsIn (hd : d.IsQuiet) (hsort : t.plan.sorting.NeverRaises) {n : ℕ}
    (hn : tree.countBelow p < n) (hp : tree.LeadsTo path p) (habove : IsAbove visited p) :
    ((t.depths false n [(path, visited)]).map Prod.fst).Perm (tree.allPathsIn path p) := by
  induction n generalizing path p visited with
  | zero => exact absurd hn (Nat.not_lt_zero _)
  | succ n ih =>
    obtain ⟨names, hlisted, hnames⟩ := hp.exists_listed ht hd hsort
    set found := t.steps (!isDotName ·) true false path visited with hfound
    have hsteps : found = (names.filter (!isDotName ·)).flatMap fun name =>
        t.step name true false path visited := by
      rw [hfound, steps, hreader, hlisted]
    have hall : (t.depths false (n + 1) [(path, visited)]).Perm
        (found.flatMap fun q => q :: t.depths false n (if isEnterable q.1 then [q] else [])) := by
      have hhere := List.flatMap_append_perm found (fun q => [q]) fun q =>
        t.depths false n (if isEnterable q.1 then [q] else [])
      rw [List.flatMap_singleton'] at hhere
      rw [depths, List.flatMap_singleton, List.flatMap_singleton]
      exact ((depths_steps false n (path, visited)).symm.append_left found).trans hhere
    refine (hall.map _).trans ?_
    rw [hsteps, List.flatMap_assoc, List.map_flatMap]
    refine (hnames.flatMap_right _).trans ?_
    refine .trans (List.Perm.flatMap_left _ fun name hname => ?_)
      (ht.allPathsIn_perm path (Tree.isSome_of_isDirectoryAt hp.directory)).symm
    have hentry := Tree.mem_names.mp hname
    have hproper := (ht.of_isSome hentry).1
    obtain ⟨visited', hstep, hvisited'⟩ := exists_step hreader hexclude hlinks hp habove hproper
    rw [hstep, List.flatMap_singleton, List.map_cons]
    refine .cons _ ?_
    cases hdir : tree.isDirectoryAt (name :: p) with
    | true =>
      have hinside := hp.entry hproper hdir
      have hpath : path ++ joinNames [name] true = path ++ name ++ "/" := by
        rw [joinNames_singleton, if_pos rfl, String.append_assoc]
      have hless := Tree.countBelow_cons_lt hentry
      rw [hpath, if_pos hinside.enterable]
      exact ih (Nat.lt_of_lt_of_le hless (Nat.le_of_lt_succ hn)) hinside hvisited'
    | false =>
      have hleaf : isEnterable (path ++ joinNames [name] false) = false := by
        rw [joinNames_singleton, if_neg Bool.false_ne_true, String.append_empty]
        exact isEnterable_append hproper.isName
      rw [hleaf, if_neg Bool.false_ne_true, depths_nil, ht.allPathsIn_eq_nil _ hentry hdir]
      exact .refl _

/-- **Where an ellipsis at the end arrives**: at the directory itself, unless the walk goes level by
level, and at all that is inside of it. -/
lemma arrivalsIn_ellipsis_end (hd : d.IsQuiet) (hsort : t.plan.sorting.NeverRaises)
    (hp : tree.LeadsTo path p) (habove : IsAbove visited p) :
    (arrivalsIn t.reader (t.walk [.ellipsis] path visited)).Perm
      ((if t.plan.order = .breadthFirst ∨ path = "" then [] else [path])
        ++ tree.pathsIn path p) := by
  have hr : t.reader.IsFinite := hreader ▸ Tree.reader_isFinite ht.isNamed d
  have hnoted : t.Noted := noted_of_slash fun _ => by
    rw [hreader]
    exact (tree.identifies_reader d).append_slash
  have hextent : tree.countBelow p < t.reader.extent + 1 := by
    have hle : tree.countBelow p ≤ tree.nodes.length := List.length_filter_le _ _
    rw [hreader]
    exact Nat.lt_succ_of_le (hle.trans (Nat.le_add_right _ 2))
  set below := t.depths false (t.reader.extent + 1) [(path, t.entered path visited)] with hbelow
  have hinside : ((below.map Prod.fst).filter t.reader.isPresent).Perm (tree.pathsIn path p) := by
    have hperm := depths_perm_allPathsIn ht hreader hexclude hlinks hd hsort hextent hp
      (entered_isAbove hreader hp habove)
    rw [← hp.filter_allPathsIn ht d, ← hreader]
    exact hperm.filter _
  by_cases horder : t.plan.order = .breadthFirst
  · have hwalk : arrivalsIn t.reader (t.walk [.ellipsis] path visited)
        = below.flatMap fun q => arrivalsIn t.reader (t.walk [] q.1 q.2) := by
      have hlevels : t.walk [.ellipsis] path visited
          = t.byLevel false true t.arrive (t.reader.extent + 1) path visited := by
        rw [walk, ellipsis, horder]
        rfl
      have hbare := filterMap_byLevel (t := t) (f := (·.arrival? t.reader)) rfl (fun _ => rfl)
        (fun _ => rfl) false true t.arrive (t.reader.extent + 1) path visited
      rw [if_pos hp.enterable] at hbare
      rw [hlevels]
      exact hbare
    rw [if_pos (Or.inl horder), hwalk, List.nil_append]
    refine (List.Perm.of_eq ?_).trans hinside
    simp only [arrivalsIn_nil, ← List.filter_flatMap, List.map_eq_flatMap]
  · refine (arrivalsIn_walk_perm hr horder hnoted [.ellipsis] path visited).trans ?_
    have hends : t.ends [.ellipsis] path visited = path :: below.map Prod.fst := by
      rw [ends, leads, if_pos hp.enterable, List.flatMap_cons, List.map_eq_flatMap]
      rfl
    rw [hends, List.filter_cons, hreader, hp.isPresent_eq d, ← hreader]
    by_cases hpath : path = ""
    · rw [if_pos (Or.inr hpath), decide_eq_false (not_not.mpr hpath), if_neg Bool.false_ne_true]
      exact hinside
    · rw [if_neg (not_or.mpr ⟨horder, hpath⟩), decide_eq_true hpath, if_pos rfl]
      exact hinside.cons path

end

section

include hreader hexclude

/-- Names in front of components lead to a directory, if the path that they make up does. -/
lemma arrivalsIn_names {names : List String} {components : List Component}
    (hp : tree.LeadsTo (path ++ joinNames names true) p) :
    arrivalsIn t.reader (t.walk (names.map (.literal · false) ++ components) path visited)
      = arrivalsIn t.reader (t.walk components (path ++ joinNames names true) visited) := by
  induction names generalizing path with
  | nil => rw [joinNames_nil, String.append_empty, List.map_nil, List.nil_append]
  | cons name names ih =>
    have hjoin : path ++ joinNames (name :: names) true
        = path ++ name ++ "/" ++ joinNames names true := by
      rw [← List.singleton_append, joinNames_append fun _ => rfl, joinNames_singleton, if_pos rfl]
      simp only [String.append_assoc]
    rw [hjoin] at hp ⊢
    have hextend : t.extend path visited name false = some (path ++ name ++ "/", visited) := by
      have hdirectory : t.reader.isDirectory (path ++ name) := by
        rw [hreader]
        exact hp.isDirectoryPath
      rw [extend_flat, flat, hexclude, hdirectory]
      rfl
    rw [List.map_cons, List.cons_append, walk, literal, arrivalsIn_moved, hextend]
    simp only [isEnterable_append_slash, Bool.not_true, Bool.false_and, Bool.false_eq_true,
      if_false]
    exact ih hp

end

end Trip

namespace PathSpec

/-! ## Listings -/

/-- The path of a directory that is listed, with a slash behind each of its parts. -/
def rootDirectory (root : String) : String :=
  (if root.toList.head? = some '/' then "/" else "") ++ joinNames (rootParts root) true

/-- Parts without anything magic are compiled to names. -/
lemma mapM_compile_names (ignoreCase : Bool) {parts : List String}
    (h : ∀ part ∈ parts, part ≠ "" ∧ Glob.hasMagic part = false) :
    parts.mapM (Component.compile ignoreCase) = .ok (parts.map (.literal · false)) := by
  induction parts with
  | nil => rfl
  | cons part parts ih =>
    rw [List.forall_mem_cons] at h
    have hpart : Component.compile ignoreCase part = .ok (.literal part false) := by
      rw [Component.compile, if_neg h.1.1, h.1.2, if_neg Bool.false_ne_true]
    rw [List.mapM_cons, hpart, ih h.2]
    rfl

/-- The names of a place inside are divided among the names of the root and the ellipsis. -/
lemma isDivision_names (parts names : List String) :
    IsDivision (parts.map (.literal · false) ++ [.ellipsis]) (parts ++ names)
      (parts.map ([·]) ++ [names]) := by
  induction parts with
  | nil => exact ⟨.cons rfl .nil, List.append_nil names⟩
  | cons part parts ih =>
    refine ⟨.cons (beq_self_eq_true [part]) ih.taken, ?_⟩
    rw [List.map_cons, List.cons_append, List.flatten_cons, ih.whole]
    rfl

/-- Only the ellipsis stands for names in which a line break is in the way. -/
lemma unbroken_names (parts : List String) {names : List String}
    (h : ∀ name ∈ names, '\n' ∉ name.toList) :
    Unbroken (parts.map (.literal · false) ++ [.ellipsis]) (parts.map ([·]) ++ [names]) := by
  induction parts with
  | nil =>
    intro p hp _
    rw [List.mem_singleton.mp hp]
    exact h
  | cons part parts ih =>
    intro p hp hellipsis
    rcases List.mem_cons.mp hp with rfl | hp
    · cases hellipsis
    · exact ih p hp hellipsis

section

variable {root : String} {ignoreCase follow : Bool} {absolute : Option Bool} {spec : PathSpec}

/-- The options that list a directory. -/
lemma treeListing_eq (root : String) (order : Setting) :
    Options.treeListing (.datum (.text root)) order
      = .ok [("path", .datum (.text (trimSlashes root ++ "///"))), ("ellipsis_order", order)] := by
  rw [Options.treeListing, String.ofList_append, String.ofList_toList]
  rfl

/-- What the path is compiled to by which a directory is listed. -/
lemma of_compile_listing (hroot : ∃ c ∈ root.toList, c ≠ '/')
    (h : compile ignoreCase (.text (trimSlashes root ++ "///")) absolute none follow = .ok spec) :
    (spec.absolute = true ↔ root.toList.head? = some '/') ∧ spec.follow = follow ∧
      ∃ components, (rootParts root).mapM (Component.compile ignoreCase) = .ok components ∧
        spec.components = components ++ [.ellipsis] := by
  have hsplit : (PathInput.text (trimSlashes root ++ "///")).split absolute = _ :=
    congrArg Except.ok (splitText_listing hroot)
  obtain ⟨hcomponents, habsolute, hfollow⟩ := of_compile_of_split hsplit h
  obtain ⟨components, last, hfront, hlast, heq⟩ := mapM_append_eq_ok.mp hcomponents
  obtain rfl : last = [.ellipsis] := (Except.ok.inj hlast).symm
  exact ⟨by rw [habsolute, decide_eq_true_iff], hfollow, components, hfront, heq.symm⟩

/-- It can be compiled if the parts of the directory can. -/
lemma exists_compile_listing_iff (hroot : ∃ c ∈ root.toList, c ≠ '/') :
    (∃ spec, compile ignoreCase (.text (trimSlashes root ++ "///")) absolute none follow
      = .ok spec) ↔
      ∃ components, (rootParts root).mapM (Component.compile ignoreCase) = .ok components := by
  constructor
  · rintro ⟨spec, hspec⟩
    obtain ⟨-, -, components, hcomponents, -⟩ := of_compile_listing hroot hspec
    exact ⟨components, hcomponents⟩
  · rintro ⟨components, hcomponents⟩
    have hsplit : (PathInput.text (trimSlashes root ++ "///")).split absolute = _ :=
      congrArg Except.ok (splitText_listing hroot)
    obtain ⟨spec, hspec, -⟩ := exists_compile_of_split hsplit
      (mapM_append_eq_ok.mpr ⟨components, [.ellipsis], hcomponents, rfl, rfl⟩) follow
    exact ⟨spec, hspec⟩

/-- The place of what is inside has no line break in its names if the tree has none. -/
lemma exists_names_of_mem_pathsIn {t : Tree} (ht : t.IsRooted)
    (hnewline : ∀ n ∈ t.nodes, ∀ name ∈ n.1, '\n' ∉ name.toList) {path x : String} {p : Place}
    (hx : x ∈ t.pathsIn path p) :
    ∃ names slash, x = path ++ joinNames names slash ∧ names ≠ [] ∧
      ∀ name ∈ names, '\n' ∉ name.toList := by
  obtain ⟨q, hq, rfl⟩ := List.mem_map.mp hx
  obtain ⟨hnode, front, hfront, rfl⟩ := ht.mem_erase_below.mp (List.mem_filter.mp hq).1
  rw [Tree.pathIn_append]
  refine ⟨_, _, rfl, mt List.reverse_eq_nil_iff.mp hfront, fun name hname => ?_⟩
  obtain ⟨node, hnode⟩ := Option.isSome_iff_exists.mp hnode
  refine hnewline _ (Tree.mem_of_node? (List.append_ne_nil_of_left_ne_nil hfront p) hnode) name ?_
  exact List.mem_append_left p (List.mem_reverse.mp hname)

/-- **A scan gives the directory and all that is inside of it**, but for the directory itself if the
walk goes level by level, or if its path is empty. -/
lemma yields_listing (hroot : ∃ c ∈ root.toList, c ≠ '/')
    (hspec : compile ignoreCase (.text (trimSlashes root ++ "///")) absolute none follow = .ok spec)
    (hparts : ∀ part ∈ rootParts root, part ≠ "" ∧ Glob.hasMagic part = false) {t : Tree}
    (ht : t.IsRooted) (hlinks : follow = false ∨ t.IsPlain)
    (hnewline : ∀ n ∈ t.nodes, ∀ name ∈ n.1, '\n' ∉ name.toList)
    {d : Disturbance} (hd : d.IsQuiet) {plan : Plan} (hexclude : plan.exclude = none)
    (hsort : plan.sorting.NeverRaises) {p : Place} (hp : t.LeadsTo (rootDirectory root) p) :
    ∃ paths, paths.Perm ((if plan.order = .breadthFirst ∨ rootDirectory root = "" then []
        else [rootDirectory root]) ++ t.pathsIn (rootDirectory root) p) ∧
      spec.Yields (t.reader d) plan paths := by
  obtain ⟨habsolute, hfollow, components, hcomponents, heq⟩ := of_compile_listing hroot hspec
  rw [← hfollow] at hlinks
  rw [mapM_compile_names ignoreCase hparts] at hcomponents
  cases hcomponents
  have hdirectory : spec.rootPath ++ joinNames (rootParts root) true = rootDirectory root := by
    rw [rootPath, rootDirectory]
    simp only [habsolute]
  have hperm : (arrivalsIn (t.reader d)
        ((spec.trip (t.reader d) plan).walk spec.components spec.rootPath [])).Perm
      ((if plan.order = .breadthFirst ∨ rootDirectory root = "" then []
        else [rootDirectory root]) ++ t.pathsIn (rootDirectory root) p) := by
    have hnames : arrivalsIn (t.reader d) ((spec.trip (t.reader d) plan).walk
          ((rootParts root).map (.literal · false) ++ [.ellipsis]) spec.rootPath [])
        = arrivalsIn (t.reader d) ((spec.trip (t.reader d) plan).walk [.ellipsis]
          (rootDirectory root) []) := by
      rw [← hdirectory] at hp ⊢
      exact Trip.arrivalsIn_names (t := spec.trip (t.reader d) plan) rfl hexclude hp
    rw [heq, hnames]
    exact Trip.arrivalsIn_ellipsis_end (t := spec.trip (t.reader d) plan) ht rfl hexclude
      hlinks hd hsort hp
      fun i hi => absurd hi List.not_mem_nil
  have hpath : (PathInput.text (trimSlashes root ++ "///")).IsSlashFree := trivial
  have hliteral : ∀ name descent, .literal name descent ∈ spec.components → IsName name :=
    fun name descent hmem => isName_of_compile hpath hspec hmem
  refine ⟨_, hperm, fun hfits s =>
    gives_arrivals_of_finds ht.isNamed hd hsort hliteral (fun x hx => ?_) hfits s⟩
  obtain ⟨names, slash, rfl, hlines, hends⟩ :
      ∃ names slash, x = rootDirectory root ++ joinNames names slash ∧
      (∀ name ∈ names, '\n' ∉ name.toList) ∧ (names = [] → slash = true) := by
    rcases List.mem_append.mp (hperm.subset hx) with hx | hx
    · have hself : x = rootDirectory root := by
        split_ifs at hx
        · cases hx
        · exact List.mem_singleton.mp hx
      exact ⟨[], true, by rw [hself, joinNames_nil, String.append_empty],
        List.forall_mem_nil _, fun _ => rfl⟩
    · obtain ⟨names, slash, hx, hne, hlines⟩ := exists_names_of_mem_pathsIn ht hnewline hx
      exact ⟨names, slash, hx, hlines, fun hnil => absurd hnil hne⟩
  rw [← hdirectory, String.append_assoc, ← joinNames_append hends]
  have hdivision : IsDivision spec.components (rootParts root ++ names)
      ((rootParts root).map ([·]) ++ [names]) := by
    rw [heq]
    exact isDivision_names (rootParts root) names
  have hunbroken : Unbroken spec.components ((rootParts root).map ([·]) ++ [names]) := by
    rw [heq]
    exact unbroken_names (rootParts root) hlines
  refine finds_division hspec hdivision hunbroken fun _ hlast => ?_
  rw [List.getLast?_concat] at hlast
  exact hends (Option.some.inj hlast)

end

/-- **What lists a tree.**  The path that is made of a directory starts at the root if the directory
does.  Its components are those of the directory without the slashes at its end, and an ellipsis
behind them; a dot that is the whole of a directory is none of them.  It can be compiled if the
parts of the directory can.

If the parts are names and lead to a directory, a scan gives that directory and all that is inside
of it, in some order: links too, unless they lead to nothing, but not what they lead to.  Level by
level the directory itself is left out, and so it is where its path is empty.  If links are
followed, this is so in trees that have none. -/
theorem treeListing_lists {root : String} (hroot : ∃ c ∈ root.toList, c ≠ '/') (order : Setting)
    (ignoreCase follow : Bool) (absolute : Option Bool) :
    Options.treeListing (.datum (.text root)) order
        = .ok [("path", .datum (.text (trimSlashes root ++ "///"))), ("ellipsis_order", order)] ∧
      ((∃ spec, compile ignoreCase (.text (trimSlashes root ++ "///")) absolute none follow
        = .ok spec) ↔
        ∃ components, (rootParts root).mapM (Component.compile ignoreCase) = .ok components) ∧
      ∀ spec, compile ignoreCase (.text (trimSlashes root ++ "///")) absolute none follow
        = .ok spec →
        (spec.absolute = true ↔ root.toList.head? = some '/') ∧
        (∃ components, (rootParts root).mapM (Component.compile ignoreCase) = .ok components ∧
          spec.components = components ++ [.ellipsis]) ∧
        ((∀ part ∈ rootParts root, part ≠ "" ∧ Glob.hasMagic part = false) →
          ∀ (t : Tree), t.IsRooted →
          (follow = false ∨ t.IsPlain) → (∀ n ∈ t.nodes, ∀ name ∈ n.1, '\n' ∉ name.toList) →
          ∀ (d : Disturbance), d.IsQuiet → ∀ (plan : Plan), plan.exclude = none →
          plan.sorting.NeverRaises →
          ∀ (p : Place), t.LeadsTo (rootDirectory root) p →
          ∃ paths, paths.Perm ((if plan.order = .breadthFirst ∨ rootDirectory root = "" then []
              else [rootDirectory root]) ++ t.pathsIn (rootDirectory root) p) ∧
            spec.Yields (t.reader d) plan paths) := by
  refine ⟨treeListing_eq root order, exists_compile_listing_iff hroot, fun spec hspec => ?_⟩
  obtain ⟨habsolute, -, hcomponents⟩ := of_compile_listing hroot hspec
  exact ⟨habsolute, hcomponents, fun hparts t ht hlinks hnewline d hd plan hexclude hsort p hp =>
    yields_listing hroot hspec hparts ht hlinks hnewline hd hexclude hsort hp⟩

/-- A directory in the current one, inside out.  One of two links in it leads to nothing. -/
theorem treeListing_lists_insideOut :
    ∃ (t : Tree) (plan : Plan) (spec : PathSpec) (paths : List String),
      t = ⟨[(["d"], .directory), (["x", "d"], .file), (["e", "d"], .directory),
        (["y", "e", "d"], .file), (["l", "d"], .link "e"), (["m", "d"], .link "n"),
        (["z"], .file)]⟩ ∧
      plan = ⟨.insideOut, .byName, none, none, false⟩ ∧
      Options.treeListing (.datum (.text "./d/")) (.order .insideOut)
        = .ok [("path", .datum (.text "./d///")), ("ellipsis_order", .order .insideOut)] ∧
      compile false (.text "./d///") none none false = .ok spec ∧
      spec.absolute = false ∧ spec.components = [.literal "d" false, .ellipsis] ∧
      spec.Yields (t.reader .none) plan paths ∧
      paths.Perm ["d/", "d/x", "d/e/", "d/e/y", "d/l"] := by
  set t : Tree := ⟨[(["d"], .directory), (["x", "d"], .file), (["e", "d"], .directory),
    (["y", "e", "d"], .file), (["l", "d"], .link "e"), (["m", "d"], .link "n"),
    (["z"], .file)]⟩ with ht
  have htree : t.IsRooted := by decide
  have hparts : rootParts "./d/" = ["d"] := by decide +kernel
  have hdirectory : rootDirectory "./d/" = "d/" := by decide +kernel
  have hnames : ∀ part ∈ rootParts "./d/", part ≠ "" ∧ Glob.hasMagic part = false := by
    rw [hparts]
    decide
  have hroot : ∃ c ∈ "./d/".toList, c ≠ '/' := ⟨'d', by decide, by decide⟩
  obtain ⟨hlisting, hcompile, hspecs⟩ :=
    treeListing_lists hroot (.order .insideOut) false false none
  have hpath : trimSlashes "./d/" ++ "///" = "./d///" := by decide +kernel
  rw [hpath] at hlisting hcompile hspecs
  obtain ⟨spec, hspec⟩ := hcompile.mpr ⟨_, mapM_compile_names false hnames⟩
  obtain ⟨habsolute, ⟨components, hcomponents, heq⟩, hyields⟩ := hspecs spec hspec
  rw [mapM_compile_names false hnames, hparts] at hcomponents
  cases hcomponents
  have hrelative : spec.absolute = false := by
    rw [← Bool.not_eq_true, habsolute]
    decide
  have hp : t.LeadsTo (rootDirectory "./d/") ["d"] := by
    have hcurrent := t.leadsTo_root spec
    rw [rootPath, hrelative] at hcurrent
    rw [hdirectory]
    exact hcurrent.entry (show Tree.IsEntryName "d" by decide) (by decide)
  obtain ⟨paths, hperm, hyields⟩ := hyields hnames t htree (.inl rfl) (by decide) .none ⟨rfl, rfl⟩
    ⟨.insideOut, .byName, none, none, false⟩ rfl (fun _ h => by cases h) ["d"] hp
  have hinside : t.pathsIn "d/" ["d"] = ["d/x", "d/e/", "d/e/y", "d/l"] := by
    have hplaces : (t.below ["d"]).erase ["d"]
        = [["x", "d"], ["e", "d"], ["y", "e", "d"], ["l", "d"], ["m", "d"]] := by decide
    have hfiles : t.isFound "d/" ["d"] ["x", "d"] ∧ t.isFound "d/" ["d"] ["e", "d"] ∧
        t.isFound "d/" ["d"] ["y", "e", "d"] := by decide
    have hlinks : t.isFound "d/" ["d"] ["l", "d"] ∧ t.isFound "d/" ["d"] ["m", "d"] = false := by
      have hpaths : t.pathIn "d/" ["d"] ["l", "d"] = "d/l" ∧
          t.pathIn "d/" ["d"] ["m", "d"] = "d/m" := by
        decide +kernel
      have hpieces : Tree.piecesOf "d/l" = ["d", "l"] ∧ Tree.piecesOf "d/m" = ["d", "m"] ∧
          Tree.piecesOf "e" = ["e"] ∧ Tree.piecesOf "n" = ["n"] := by decide +kernel
      have hdirs : t.isDirectoryAt [] ∧ t.isDirectoryAt ["d"] := by decide
      have hnodes : t.node? ["d"] = some .directory ∧ t.node? ["e", "d"] = some .directory ∧
          t.node? ["l", "d"] = some (.link "e") ∧ t.node? ["m", "d"] = some (.link "n") ∧
          t.node? ["n", "d"] = none := by decide
      have hlinkAt : t.isLinkAt ["m", "d"] = true := by decide
      simp [Tree.isFound, hpaths, hlinkAt, Tree.resolve, Tree.walk, hpieces, hdirs, hnodes,
        Tree.targetStart, Except.isOk, Except.toBool]
    have hshown : [["x", "d"], ["e", "d"], ["y", "e", "d"], ["l", "d"], ["m", "d"]].filter
        (t.isFound "d/" ["d"]) = [["x", "d"], ["e", "d"], ["y", "e", "d"], ["l", "d"]] := by
      simp [hfiles, hlinks]
    rw [Tree.pathsIn, hplaces, hshown]
    decide +kernel
  rw [hdirectory, hinside] at hperm
  exact ⟨t, _, spec, paths, rfl, rfl, hlisting, hspec, hrelative, heq, hyields, hperm⟩

/-- **A directory that is nothing but slashes is not listed**: of the slashes of its path and those
put behind it, no part is left. -/
theorem treeListing_slashes :
    ∃ (t : Tree) (plan : Plan) (spec : PathSpec),
      t = ⟨[(["a"], .file)]⟩ ∧ plan = ⟨.normal, .byName, none, none, false⟩ ∧
      Options.treeListing (.datum (.text "/")) (.order .normal)
        = .ok [("path", .datum (.text "///")), ("ellipsis_order", .order .normal)] ∧
      compile false (.text "///") none none false = .ok spec ∧
      spec.absolute = true ∧ spec.components = [] ∧ spec.Yields (t.reader .none) plan ["/"] := by
  obtain ⟨spec, hspec, htest⟩ := exists_compile false false (.text "///") none
    (fun spec => decide (spec.absolute = true ∧ spec.components = [] ∧ spec.matcher.finds "/"))
    (by decide +kernel)
  obtain ⟨habsolute, hcomponents, hfinds⟩ := of_decide_eq_true htest
  set t : Tree := ⟨[(["a"], .file)]⟩
  set plan : Plan := ⟨.normal, .byName, none, none, false⟩
  have hnamed : t.IsNamed := by
    intro n hn name hname
    obtain rfl : n = (["a"], .file) := List.mem_singleton.mp hn
    obtain rfl : name = "a" := List.mem_singleton.mp hname
    exact ⟨by decide, by decide⟩
  have harrivals : arrivalsIn (t.reader .none)
      ((spec.trip (t.reader .none) plan).walk spec.components spec.rootPath []) = ["/"] := by
    have hpresent := (t.leadsTo_root spec).isPresent_eq .none
    have hroot : spec.rootPath = "/" := by rw [rootPath, habsolute, if_pos rfl]
    rw [hroot] at hpresent ⊢
    rw [hcomponents]
    refine (Trip.arrivalsIn_nil (t := spec.trip (t.reader .none) plan) "/" []).trans ?_
    exact List.filter_eq_self.mpr fun x hx => by rw [List.mem_singleton.mp hx]; exact hpresent
  have hlisting := treeListing_eq "/" (.order .normal)
  rw [show trimSlashes "/" ++ "///" = "///" by decide +kernel] at hlisting
  refine ⟨t, plan, spec, rfl, rfl, hlisting, hspec, habsolute, hcomponents, fun hfits s => ?_⟩
  have hgives := gives_arrivals_of_finds hnamed ⟨rfl, rfl⟩ (fun _ h => by cases h)
    (by rw [hcomponents]; exact fun _ _ h => absurd h List.not_mem_nil)
    (by rw [harrivals]; exact fun x hx => List.mem_singleton.mp hx ▸ hfinds) hfits s
  rwa [harrivals] at hgives

end PathSpec

end PathExpansion
