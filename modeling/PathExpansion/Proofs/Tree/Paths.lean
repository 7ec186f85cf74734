import Mathlib.Data.List.Basic
import PathExpansion.Proofs.Agenda.Finite
import PathExpansion.Tree.Reader

/-!
# Paths that lead one name further

A scan makes its paths by putting names behind a path that ends with a slash.  What such a path
leads to is a question about the last name only, as soon as it is known where the path before it
leads.

* `PathSpec.stretches_append_slash` — a slash in a text separates its stretches.
* `Tree.walk_append` — following pieces, and others behind them.
* `Tree.walk_of_resolve` — where a path leads to which a name can be put.
* `Tree.isLinkAt`, `Tree.isLinkPath_append` — whether a name leads to a link.
* **`Tree.resolve_unlinked`**, `Tree.resolve_append` — a name behind the path of a directory leads
  to its entry there.
-/

namespace PathExpansion

/-! ## Pieces -/

namespace PathSpec

lemma stretches_ne_nil : ∀ cs : List Char, stretches cs ≠ []
  | [] => by simp [stretches]
  | c :: rest => by
      unfold stretches
      split
      · simp
      · split <;> simp

lemma stretches_cons {c : Char} (hc : c ≠ '/') {cs s : List Char} {ss : List (List Char)}
    (h : stretches cs = s :: ss) : stretches (c :: cs) = (c :: s) :: ss := by
  rw [stretches, if_neg hc, h]

/-- A slash separates the stretches before it from those behind it. -/
lemma stretches_append_slash (as bs : List Char) :
    stretches (as ++ '/' :: bs) = stretches as ++ stretches bs := by
  induction as with
  | nil => simp [stretches]
  | cons c as ih =>
    by_cases hc : c = '/'
    · simp only [List.cons_append, stretches, hc, if_true, ih]
    · obtain ⟨s, ss, hs⟩ := List.exists_cons_of_ne_nil (stretches_ne_nil as)
      rw [hs] at ih
      rw [List.cons_append, stretches_cons hc hs, stretches_cons hc ih]
      rfl

/-- A text without a slash is one stretch. -/
lemma stretches_of_not_mem : ∀ {cs : List Char}, '/' ∉ cs → stretches cs = [cs]
  | [], _ => rfl
  | c :: cs, h => by
      have hc : c ≠ '/' := fun hc => h (hc ▸ List.mem_cons_self)
      exact stretches_cons hc (stretches_of_not_mem fun hcs => h (List.mem_cons_of_mem c hcs))

end PathSpec

namespace Tree

lemma piecesOf_append_slash (p q : String) :
    piecesOf (p ++ "/" ++ q) = piecesOf p ++ piecesOf q := by
  unfold piecesOf
  rw [String.toList_append, String.toList_append, List.append_assoc,
    show "/".toList ++ q.toList = '/' :: q.toList from rfl, PathSpec.stretches_append_slash,
    List.map_append]

lemma piecesOf_name {name : String} (h : '/' ∉ name.toList) : piecesOf name = [name] := by
  unfold piecesOf
  rw [PathSpec.stretches_of_not_mem h, List.map_singleton, String.ofList_toList]

end Tree

/-- A path that may be entered is empty or ends with a slash. -/
lemma isEnterable_iff {path : String} : isEnterable path ↔ path = "" ∨ ∃ q, path = q ++ "/" := by
  constructor
  · intro h
    rcases Bool.or_eq_true_iff.mp h with h | h
    · exact Or.inl (by simpa using h)
    · obtain ⟨cs, hcs⟩ := List.getLast?_eq_some_iff.mp (beq_iff_eq.mp h)
      refine Or.inr ⟨String.ofList cs, ?_⟩
      rw [← String.ofList_toList (s := path), hcs]
      simp
  · rintro (rfl | ⟨q, rfl⟩)
    · rfl
    · exact isEnterable_append_slash q

/-! ## The place that a path names -/

namespace Tree

/-- What stands behind a path that may be entered is read on its own. -/
lemma placeOf_append {path : String} (hpath : isEnterable path) (rest : String) :
    placeOf (path ++ rest) = placeOf rest ++ placeOf path := by
  rcases isEnterable_iff.mp hpath with rfl | ⟨q, rfl⟩
  · rw [String.empty_append, show placeOf "" = [] from rfl, List.append_nil]
  · have hslash : "/".toList = ['/'] := rfl
    unfold placeOf
    rw [String.toList_append, String.toList_append, hslash, List.append_assoc,
      List.singleton_append, PathSpec.stretches_append_slash, PathSpec.stretches_append_slash]
    simp [PathSpec.stretches]

/-- A slash behind a path changes nothing. -/
lemma placeOf_append_slash (path : String) : placeOf (path ++ "/") = placeOf path := by
  unfold placeOf
  rw [String.toList_append, show "/".toList = ['/'] from rfl, PathSpec.stretches_append_slash]
  simp [PathSpec.stretches]

/-- A name behind a path that may be entered leads one place down. -/
lemma placeOf_append_name {path name : String} (hpath : isEnterable path) (hname : IsName name) :
    placeOf (path ++ name) = name :: placeOf path := by
  have hplace : placeOf name = [name] := by
    unfold placeOf
    rw [PathSpec.stretches_of_not_mem hname.2]
    simp [hname.1]
  rw [placeOf_append hpath, hplace, List.singleton_append]

end Tree

/-! ## Following pieces -/

namespace Tree

variable {t : Tree}

/-- Pieces behind others are followed from where those lead, with the links that are left. -/
lemma walk_append (t : Tree) (links : ℕ) (here : Place) (ps : List String) :
    ∃ left, ∀ qs, t.walk links here (ps ++ qs)
      = (t.walk links here ps).bind fun place => t.walk left place qs := by
  fun_induction Tree.walk t links here ps with
  | case1 links here => exact ⟨links, fun _ => rfl⟩
  | case2 links here piece rest hdir =>
    refine ⟨0, fun qs => ?_⟩
    rw [List.cons_append, Tree.walk, if_pos hdir]
    rfl
  | case3 links here piece rest hdir hstay ih =>
    obtain ⟨left, hleft⟩ := ih
    refine ⟨left, fun qs => ?_⟩
    rw [List.cons_append, Tree.walk, if_neg hdir, if_pos hstay]
    exact hleft qs
  | case4 links here rest hdir hstay ih =>
    obtain ⟨left, hleft⟩ := ih
    refine ⟨left, fun qs => ?_⟩
    rw [List.cons_append, Tree.walk, if_neg hdir, if_neg hstay, if_pos rfl]
    exact hleft qs
  | case5 links here piece rest hdir hstay hup hnode =>
    refine ⟨0, fun qs => ?_⟩
    rw [List.cons_append, Tree.walk, if_neg hdir, if_neg hstay, if_neg hup, hnode]
    rfl
  | case6 here piece rest hdir hstay hup target hnode =>
    refine ⟨0, fun qs => ?_⟩
    rw [List.cons_append, Tree.walk, if_neg hdir, if_neg hstay, if_neg hup, hnode]
    rfl
  | case7 here piece rest hdir hstay hup target hnode n ih =>
    obtain ⟨left, hleft⟩ := ih
    refine ⟨left, fun qs => ?_⟩
    rw [List.cons_append, Tree.walk, if_neg hdir, if_neg hstay, if_neg hup, hnode]
    simp only
    rw [← List.append_assoc]
    exact hleft qs
  | case8 links here piece rest hdir hstay hup node hlink hnode ih =>
    obtain ⟨left, hleft⟩ := ih
    refine ⟨left, fun qs => ?_⟩
    rw [List.cons_append, Tree.walk, if_neg hdir, if_neg hstay, if_neg hup, hnode]
    cases node with
    | link target => exact absurd rfl (hlink target)
    | file => exact hleft qs
    | directory => exact hleft qs

/-- An empty piece stays, in a directory. -/
lemma walk_empty {links : ℕ} {here place : Place} (h : t.walk links here [""] = .ok place) :
    place = here ∧ t.isDirectoryAt here = true := by
  rw [Tree.walk] at h
  cases hdir : t.isDirectoryAt here with
  | false => simp [hdir] at h
  | true =>
    rw [hdir, if_neg (by simp), if_pos (by simp), Tree.walk] at h
    exact ⟨(Except.ok.inj h).symm, rfl⟩

/-! ## One name further -/

/-- **Where a path leads that may be entered.**  Its pieces, but for what is behind the last slash,
lead to a directory, and a name put behind the path is followed from there. -/
lemma walk_of_resolve {path : String} {here : Place} (hpath : isEnterable path)
    (hresolve : t.resolve (orDot path) = .ok here) :
    t.isDirectoryAt here = true ∧ ∃ ps left,
      (∀ name, '/' ∉ name.toList → piecesOf (path ++ name) = ps ++ [name]) ∧
      t.walk 40 [] ps = .ok here ∧ ∀ qs, t.walk 40 [] (ps ++ qs) = t.walk left here qs := by
  have hroot : t.isDirectoryAt [] = true := rfl
  rcases isEnterable_iff.mp hpath with rfl | ⟨q, rfl⟩
  · have hpieces : piecesOf (orDot "") = ["."] := rfl
    rw [resolve, hpieces, Tree.walk, hroot, if_neg (by simp), if_pos (by simp), Tree.walk]
      at hresolve
    cases hresolve
    refine ⟨hroot, [], 40, fun name hname => ?_, by rw [Tree.walk], fun _ => rfl⟩
    rw [String.empty_append, piecesOf_name hname]
    rfl
  · have hne : q ++ "/" ≠ "" := fun h => by
      have := congrArg String.length h
      simp at this
    have hpath : piecesOf (q ++ "/") = piecesOf q ++ [""] := by
      rw [← String.append_empty (s := q ++ "/"), piecesOf_append_slash]
      rfl
    obtain ⟨left, hleft⟩ := t.walk_append 40 [] (piecesOf q)
    rw [resolve, orDot, if_neg hne, hpath, hleft] at hresolve
    cases hq : t.walk 40 [] (piecesOf q) with
    | error problem =>
      rw [hq] at hresolve
      cases hresolve
    | ok place =>
      rw [hq] at hresolve hleft
      obtain ⟨rfl, hdir⟩ := walk_empty hresolve
      refine ⟨hdir, piecesOf q, left, fun name hname => ?_, hq, hleft⟩
      rw [piecesOf_append_slash, piecesOf_name hname]

/-- What an entry of a directory is called, if it is not one of the two that every directory has. -/
structure IsEntryName (name : String) : Prop where
  isName : IsName name
  noDot : isDotName name = false

instance (name : String) : Decidable (IsEntryName name) :=
  decidable_of_iff (IsName name ∧ isDotName name = false)
    ⟨fun h => ⟨h.1, h.2⟩, fun h => ⟨h.isName, h.noDot⟩⟩

/-- What is left of a path that ends with a name when slashes are taken off its end. -/
lemma dropWhile_slash_append (path : String) {name : String} (hname : IsName name) :
    (path ++ name).toList.reverse.dropWhile (· == '/') = (path ++ name).toList.reverse := by
  obtain ⟨hne, hslash⟩ := hname
  have hlist : name.toList ≠ [] := by simpa using hne
  obtain ⟨cs, c, hc⟩ : ∃ cs c, name.toList = cs ++ [c] :=
    ⟨_, _, (List.dropLast_append_getLast hlist).symm⟩
  have hcs : c ≠ '/' := by
    rintro rfl
    exact hslash (by simp [hc])
  rw [String.toList_append, hc]
  simp [hcs]

lemma stripSlashes_append (path : String) {name : String} (hname : IsName name) :
    stripSlashes (path ++ name) = path ++ name := by
  unfold stripSlashes
  simp only [dropWhile_slash_append path hname, List.reverse_reverse, String.ofList_toList,
    ite_self]

/-- A slash behind a name is taken off. -/
lemma stripSlashes_append_slash (path : String) {name : String} (hname : IsName name) :
    stripSlashes (path ++ name ++ "/") = path ++ name := by
  have hbare : (path ++ name ++ "/").toList.reverse.dropWhile (· == '/')
      = (path ++ name).toList.reverse := by
    rw [String.toList_append, List.reverse_append]
    exact dropWhile_slash_append path hname
  have hne : (path ++ name).toList ≠ [] := by
    rw [String.toList_append]
    intro h
    exact hname.1 (by simpa using (List.append_eq_nil_iff.mp h).2)
  unfold stripSlashes
  simp only [hbare, List.reverse_reverse, if_neg hne, String.ofList_toList]

/-- There is a link at the place, neither a file nor a directory. -/
def isLinkAt (t : Tree) (place : Place) : Bool :=
  (t.node? place).any fun node => node != .file && node != .directory

section

variable {path name : String} {here : Place}

/-- A name behind the path of a directory names a link if its entry there is one. -/
lemma isLinkPath_append (hpath : isEnterable path) (hname : IsEntryName name)
    (hresolve : t.resolve (orDot path) = .ok here) :
    t.isLinkPath (path ++ name) = t.isLinkAt (name :: here) := by
  obtain ⟨-, ps, left, hpieces, hps, -⟩ := walk_of_resolve hpath hresolve
  have hdot : name ≠ "." ∧ name ≠ ".." := by simpa [isDotName] using hname.noDot
  unfold isLinkPath
  simp only [stripSlashes_append path hname.isName, hpieces name hname.isName.2,
    List.dropLast_concat, List.getLast?_concat, hps]
  rw [isLinkAt]
  cases t.node? (name :: here) with
  | none => simp
  | some node => cases node <;> simp [hname.isName.1, hdot]

/-- **A name that is no link, put behind the path of a directory**, leads to its entry there, if
there is one. -/
lemma resolve_unlinked (hpath : isEnterable path) (hname : IsEntryName name)
    (hresolve : t.resolve (orDot path) = .ok here) (hlink : t.isLinkAt (name :: here) = false) :
    t.resolve (path ++ name)
      = if (t.node? (name :: here)).isSome then .ok (name :: here) else .error .notFound := by
  obtain ⟨hdir, ps, left, hpieces, -, hleft⟩ := walk_of_resolve hpath hresolve
  have hdot : name ≠ "." ∧ name ≠ ".." := by simpa [isDotName] using hname.noDot
  rw [resolve, hpieces name hname.isName.2, hleft, Tree.walk, hdir, if_neg (by simp),
    if_neg (by simp [hname.isName.1, hdot.1]), if_neg hdot.2]
  rw [isLinkAt] at hlink
  cases hnode : t.node? (name :: here) with
  | none => rfl
  | some node =>
    rw [hnode] at hlink
    cases node with
    | link target => cases hlink
    | file => simp only [Tree.walk, Option.isSome_some, if_true]
    | directory => simp only [Tree.walk, Option.isSome_some, if_true]

/-- So does a path of which it is known that it names no link. -/
theorem resolve_append (hpath : isEnterable path) (hname : IsEntryName name)
    (hresolve : t.resolve (orDot path) = .ok here) (hlink : t.isLinkPath (path ++ name) = false)
    {place : Place} (hok : t.resolve (path ++ name) = .ok place) :
    place = name :: here ∧ (t.node? (name :: here)).isSome := by
  rw [isLinkPath_append hpath hname hresolve] at hlink
  rw [resolve_unlinked hpath hname hresolve hlink] at hok
  split_ifs at hok with hentry
  cases hok
  exact ⟨rfl, hentry⟩

/-- A slash behind the path of a directory changes nothing. -/
lemma resolve_append_slash {place : Place} (hok : t.resolve path = .ok place)
    (hdir : t.isDirectoryAt place = true) : t.resolve (path ++ "/") = .ok place := by
  have hpieces : piecesOf (path ++ "/") = piecesOf path ++ [""] := by
    rw [← String.append_empty (s := path ++ "/"), piecesOf_append_slash]
    rfl
  obtain ⟨left, hleft⟩ := t.walk_append 40 [] (piecesOf path)
  rw [resolve] at hok ⊢
  rw [hpieces, hleft, hok]
  simp only [Except.bind]
  rw [Tree.walk, hdir, if_neg (by simp), if_pos (by simp), Tree.walk]

end

end Tree

end PathExpansion
