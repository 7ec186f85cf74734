import Mathlib.Data.List.Sort
import Mathlib.Data.Prod.Lex
import Mathlib.Data.String.Basic
import PathExpansion.Proofs.Restarts
import PathExpansion.Proofs.Tree.Plain

/-!
# The order of a listing

A filesystem lists the names of a directory in any order, and in another one the next time.  A scan
that wants names in order reads every listing to its end and sorts it, with or without regard to
case, before it uses a name; no two names are equal in the order of names.  So it does not notice.

* `sortNames_of_perm` — names in order are the same however they were listed.
* `Reader.IsReordering` — two filesystems that differ by the order of their listings at most.
* **`Scan.turn_of_reordering`** — a step is the same in both.
* **`Expansion.views_of_reordering`** — so is all that a caller sees.
* `Tree.reader_isReordering` — a tree whose entries were created in another order.
-/

namespace PathExpansion

/-! ## Names in order -/

lemma nameLe_iff {a b : String} : nameLe a b = true ↔ a ≤ b := decide_eq_true_iff

/-- Names with their case folding are compared as pairs are. -/
lemma foldedNameLe_iff {a b : String × String} : foldedNameLe a b = true ↔ toLex a ≤ toLex b := by
  rw [Prod.Lex.toLex_le_toLex, foldedNameLe, Bool.or_eq_true, Bool.and_eq_true, decide_eq_true_iff,
    beq_iff_eq, nameLe_iff]

section Sorted

variable {α : Type} {le : α → α → Bool} {as bs : List α}

/-- Sorting by an order in which no two items are equal forgets how the items were listed. -/
lemma mergeSort_of_perm {β : Type} [LinearOrder β] {key : α → β} (hkey : key.Injective)
    (hle : ∀ a b, le a b = true ↔ key a ≤ key b) (h : as.Perm bs) :
    as.mergeSort le = bs.mergeSort le := by
  have hsorted (items : List α) : (items.mergeSort le).Pairwise fun a b => le a b = true := by
    refine List.pairwise_mergeSort (fun a b c hab hbc => ?_) (fun a b => ?_) items
    · exact (hle a c).mpr (((hle a b).mp hab).trans ((hle b c).mp hbc))
    · rw [Bool.or_eq_true, hle, hle]
      exact le_total _ _
  have hperm : (as.mergeSort le).Perm (bs.mergeSort le) :=
    (List.mergeSort_perm as le).trans (h.trans (List.mergeSort_perm bs le).symm)
  refine hperm.eq_of_pairwise (fun a b _ _ hab hba => ?_) (hsorted as) (hsorted bs)
  exact hkey (le_antisymm ((hle a b).mp hab) ((hle b a).mp hba))

end Sorted

/-- **Names in order are the same however they were listed**, also where case does not count: names
that are equal but for their case are still put in order. -/
lemma sortNames_of_perm {names names' : List String} (h : names'.Perm names) (ignoreCase : Bool) :
    sortNames ignoreCase names' = sortNames ignoreCase names := by
  rw [sortNames, sortNames]
  cases ignoreCase with
  | true =>
    exact congrArg _ (mergeSort_of_perm toLex.injective (fun a b => foldedNameLe_iff) (h.map _))
  | false => exact mergeSort_of_perm Function.injective_id (fun a b => nameLe_iff) h

/-! ## The same filesystem, listed otherwise -/

/-- **A listing with the same names in another order.**  One that fails may have given other names
by then. -/
def Listing.IsReordering (l l' : Listing) : Prop :=
  l'.fault = l.fault ∧ (l.fault = none → l'.names.Perm l.names)

/-- **Two filesystems that differ by the order of their listings at most**: the same directories can
be opened, with the same names in them, and whatever else a scan asks has the same answer. -/
structure Reader.IsReordering (r r' : Reader) : Prop where
  opened : ∀ path,
    (∃ fault, r.openDirectory path = .error fault ∧ r'.openDirectory path = .error fault) ∨
      ∃ l l', r.openDirectory path = .ok l ∧ r'.openDirectory path = .ok l' ∧ l.IsReordering l'
  isPresent : r'.isPresent = r.isPresent
  isDirectory : r'.isDirectory = r.isDirectory
  isLink : r'.isLink = r.isLink
  identity : r'.identity = r.identity
  extent : r'.extent = r.extent

namespace Scan

variable {r r' : Reader} {plan : Plan}

lemma openCursor_of_reordering (h : r.IsReordering r') (hplan : plan.sorting = .byName) (s : Scan)
    (directory : String) : s.openCursor r' plan directory = s.openCursor r plan directory := by
  rw [openCursor, openCursor]
  rcases h.opened (orDot directory) with
    ⟨fault, hopen, hopen'⟩ | ⟨l, l', hopen, hopen', hfault, hnames⟩
  · rw [hopen, hopen']
  · rw [hopen, hopen']
    simp only [hplan, Sorting.isEager, if_true, sortCursor_eq, Cursor.drain_eq, takeHandle, hfault]
    cases hl : l.fault with
    | some fault => rfl
    | none =>
      simp only [Option.elim, bind, Except.bind, Sorting.arrange]
      rw [sortNames_of_perm (hnames hl)]

lemma extend_of_reordering (h : r.IsReordering r') (s : Scan) (name : String) (descent : Bool) :
    s.extend r' plan name descent = s.extend r plan name descent := by
  rw [extend, extend, h.isDirectory, h.identity, h.isLink]

lemma nextOfLevel_of_reordering (h : r.IsReordering r') (names : List String) (s : Scan) :
    nextOfLevel r' plan names s = nextOfLevel r plan names s := by
  induction names generalizing s with
  | nil => rfl
  | cons name rest ih => simp only [nextOfLevel, ih, extend_of_reordering h]

lemma searchListing_of_reordering (h : r.IsReordering r') (s : Scan) (names : List String)
    (next : Scan → Turn) :
    s.searchListing r' plan names next = s.searchListing r plan names next := by
  rw [searchListing, searchListing, nextOfLevel_of_reordering h]

lemma searchQueue_of_reordering (h : r.IsReordering r') (hplan : plan.sorting = .byName)
    (queue : List (String × Visited)) :
    searchQueue r' plan queue = searchQueue r plan queue := by
  induction queue with
  | nil => rfl
  | cons d queue ih =>
    funext s
    simp only [searchQueue, ih, openCursor_of_reordering h hplan, searchListing_of_reordering h]

lemma component_of_reordering (h : r.IsReordering r') (hplan : plan.sorting = .byName) (s : Scan) :
    s.component r' plan = s.component r plan := by
  rw [component, component]
  cases s.frame.remaining with
  | nil => rw [arrive, arrive, h.isPresent]
  | cons c rest =>
    cases c with
    | literal name descent => simp only [literal, extend_of_reordering h]
    | wildcard w => simp only [openWildcard, openCursor_of_reordering h hplan]
    | ellipsis => simp only [enterEllipsis, noteEntered, h.identity]

lemma ellipsis_of_reordering (h : r.IsReordering r') (hplan : plan.sorting = .byName) (s : Scan) :
    s.ellipsis r' plan = s.ellipsis r plan := by
  rw [ellipsis, ellipsis]
  cases s.frame.pending with
  | none => rfl
  | some queue =>
    simp only [level, searchQueue_of_reordering h hplan, searchListing_of_reordering h]

/-- **A step is the same however directories list their names.** -/
lemma turn_of_reordering (h : r.IsReordering r') (hplan : plan.sorting = .byName) (s : Scan) :
    s.turn r' plan = s.turn r plan := by
  rw [turn, turn, dispatch, dispatch, component_of_reordering h hplan,
    ellipsis_of_reordering h hplan]

lemma advance_of_reordering (h : r.IsReordering r') (hplan : plan.sorting = .byName) (s : Scan) :
    s.advance r' plan = s.advance r plan := by
  have hstep : towardsNext r' plan = towardsNext r plan := by
    funext s
    rw [towardsNext, towardsNext, turn_of_reordering h hplan]
  simp only [advance, hstep, patience, frameWeight, h.extent]

lemma drain_of_reordering (h : r.IsReordering r') (hplan : plan.sorting = .byName) (s : Scan) :
    s.drain r' plan = s.drain r plan := by
  have hstep : towardsEnd r' plan = towardsEnd r plan := by
    funext state
    rw [towardsEnd, towardsEnd, turn_of_reordering h hplan]
  simp only [drain, hstep, patience, frameWeight, h.extent]

end Scan

namespace Expansion

variable {r r' : Reader} {e : Expansion} {o : Options}

lemma request_of_reordering (h : r.IsReordering r') (hplan : e.plan.sorting = .byName)
    (q : Request) :
    e.response r' q = e.response r q ∧ e.request r' q = e.request r q := by
  cases q with
  | call c =>
    have hcall : e.call r' c = e.call r c := by
      cases c with
      | next => simp only [call, Expansion.next, Scan.advance_of_reordering h hplan]
      | _ => rfl
    simp only [response, request, hcall, and_self]
  | all =>
    have hall : e.all r' = e.all r := by
      simp only [Expansion.all, Scan.drain_of_reordering h hplan]
    simp only [response, request, hall, and_self]
  | _ => exact ⟨rfl, rfl⟩

lemma view_of_reordering (h : r.IsReordering r') (hplan : e.plan.sorting = .byName) (q : Request) :
    e.view r' q = e.view r q := by
  obtain ⟨hresponse, hrequest⟩ := request_of_reordering (e := e.quiet) h hplan q
  rw [view, view, hresponse, hrequest]

/-- Requests in a row, of filesystems that list their directories otherwise. -/
lemma views_eq (hplan : e.plan.sorting = .byName) {requests requests' : List (Reader × Request)}
    (hrequests : List.Forall₂ (fun q q' => q.1.IsReordering q'.1 ∧ q'.2 = q.2) requests requests') :
    e.views requests' = e.views requests := by
  -- the plan stays as it is whatever is asked
  induction hrequests generalizing e with
  | nil => rfl
  | @cons q q' requests requests' hq _ ih =>
    obtain ⟨r, q⟩ := q
    obtain ⟨r', q'⟩ := q'
    obtain ⟨hreader, rfl⟩ := hq
    have hafter : (e.quiet.request r q').plan.sorting = .byName := by
      rw [(e.quiet.request_setUp r q').2]
      exact hplan
    obtain ⟨_, hrequest⟩ := request_of_reordering (e := e.quiet) hreader hplan q'
    simp only [views, view_of_reordering hreader hplan, hrequest, ih hafter]

/-- **In order, nothing depends on how directories list their names.**  Whatever is asked of an
expansion that wants names in order, and however each listing is ordered at the time, it comes out
the same: the results and errors, the directories that are asked for, and what is printed, traced
and put on record. -/
theorem views_of_reordering (he : ofOptions o = .ok e) (hsort : o.sorting = .byName)
    {requests requests' : List (Reader × Request)}
    (h : List.Forall₂ (fun q q' => q.1.IsReordering q'.1 ∧ q'.2 = q.2) requests requests') :
    e.views requests' = e.views requests := by
  have hplan : e.plan.sorting = .byName := (ofOptions_ok he).1.trans hsort
  exact views_eq hplan h

end Expansion

/-! ## Trees -/

/-- What is said about a key does not depend on the order of a table in which no key is twice. -/
lemma lookup_of_perm {α β : Type} [BEq α] [LawfulBEq α] {table table' : List (α × β)}
    (h : table.Perm table') (hnodup : (table.map (·.1)).Nodup) (a : α) :
    table'.lookup a = table.lookup a := by
  induction h with
  | nil => rfl
  | cons row _ ih => rw [List.lookup_cons, List.lookup_cons, ih hnodup.of_cons]
  | swap row row' rest =>
    have hne : row'.1 ≠ row.1 := by
      rw [List.map_cons, List.map_cons, List.nodup_cons, List.mem_cons, not_or] at hnodup
      exact hnodup.1.1
    rw [List.lookup_cons, List.lookup_cons, List.lookup_cons, List.lookup_cons]
    cases hrow : a == row.1 with
    | false => rfl
    | true =>
      have hrow' : (a == row'.1) = false := by
        rw [beq_iff_eq.mp hrow]
        exact beq_false_of_ne hne.symm
      rw [hrow']
  | trans h h' ih ih' => rw [ih' ((h.map _).nodup_iff.mp hnodup), ih hnodup]

namespace Tree

variable {t t' : Tree}

/-- Where a path leads depends only on what is at each place. -/
lemma walk_of_node? (h : t'.node? = t.node?) (links : ℕ) (here : Place) (pieces : List String) :
    t'.walk links here pieces = t.walk links here pieces := by
  have hdirectory (place : Place) : t'.isDirectoryAt place = t.isDirectoryAt place := by
    rw [isDirectoryAt, isDirectoryAt, h]
  fun_induction Tree.walk t links here pieces with
  | case1 links here => rw [Tree.walk]
  | case2 links here piece rest hdir => rw [Tree.walk, hdirectory, if_pos hdir]
  | case3 links here piece rest hdir hstay ih =>
    rw [Tree.walk, hdirectory, if_neg hdir, if_pos hstay, ih]
  | case4 links here rest hdir hstay ih =>
    rw [Tree.walk, hdirectory, if_neg hdir, if_neg hstay, if_pos rfl, ih]
  | case5 links here piece rest hdir hstay hup hnode =>
    rw [Tree.walk, hdirectory, if_neg hdir, if_neg hstay, if_neg hup, h, hnode]
  | case6 here piece rest hdir hstay hup target hnode =>
    rw [Tree.walk, hdirectory, if_neg hdir, if_neg hstay, if_neg hup, h, hnode]
  | case7 here piece rest hdir hstay hup target hnode n ih =>
    rw [Tree.walk, hdirectory, if_neg hdir, if_neg hstay, if_neg hup, h, hnode]
    exact ih
  | case8 links here piece rest hdir hstay hup node hlink hnode ih =>
    rw [Tree.walk, hdirectory, if_neg hdir, if_neg hstay, if_neg hup, h, hnode]
    cases node with
    | link target => exact absurd rfl (hlink target)
    | file => exact ih
    | directory => exact ih

/-- A listing fails after as many names however they are ordered. -/
lemma cutListing_isReordering {names names' : List String} (h : names'.Perm names) (path : String)
    (count : Option ℕ) :
    (cutListing path names count).IsReordering (cutListing path names' count) := by
  cases count with
  | none => exact ⟨rfl, fun _ => h⟩
  | some count =>
    rw [cutListing, cutListing, h.length_eq]
    split_ifs
    · exact ⟨rfl, fun hfault => by cases hfault⟩
    · exact ⟨rfl, fun _ => h⟩

/-- The same places lead to the same directories, and those have the same names in them. -/
lemma openPath_of_perm (hresolve : t'.resolve = t.resolve)
    (hdirectory : t'.isDirectoryAt = t.isDirectoryAt) (hperm : t.nodes.Perm t'.nodes)
    (d : Disturbance) (path : String) :
    (∃ fault, t.openPath d path = .error fault ∧ t'.openPath d path = .error fault) ∨
      ∃ l l', t.openPath d path = .ok l ∧ t'.openPath d path = .ok l' ∧ l.IsReordering l' := by
  rw [openPath, openPath, hresolve, hdirectory]
  cases findByPath path d.openFaults with
  | some kind => exact Or.inl ⟨_, rfl, rfl⟩
  | none =>
    cases t.resolve path with
    | error problem => exact Or.inl ⟨_, rfl, rfl⟩
    | ok place =>
      have hnames : (t'.names place).Perm (t.names place) := hperm.symm.filterMap _
      simp only
      split_ifs
      · exact Or.inr ⟨_, _, rfl, rfl,
          cutListing_isReordering ((hnames.cons "..").cons ".") path _⟩
      · exact Or.inr ⟨_, _, rfl, rfl, cutListing_isReordering hnames path _⟩
      · exact Or.inl ⟨_, rfl, rfl⟩

/-- **A tree whose entries were created in another order** lists its directories otherwise, and is
read alike in everything else. -/
lemma reader_isReordering (hnodup : (t.nodes.map (·.1)).Nodup) (hperm : t.nodes.Perm t'.nodes)
    (d : Disturbance) : (t.reader d).IsReordering (t'.reader d) := by
  have hnode : t'.node? = t.node? := by
    funext place
    cases place with
    | nil => rfl
    | cons name parent => exact lookup_of_perm hperm hnodup (name :: parent)
  have hwalk : t'.walk = t.walk := by
    funext links here pieces
    exact walk_of_node? hnode links here pieces
  have hdirectory : t'.isDirectoryAt = t.isDirectoryAt := by
    funext place
    rw [isDirectoryAt, isDirectoryAt, hnode]
  have hresolve : t'.resolve = t.resolve := by
    funext path
    rw [resolve, resolve, hwalk]
  exact {
    opened := openPath_of_perm hresolve hdirectory hperm d
    isPresent := by simp only [reader, hresolve]
    isDirectory := funext fun path => by simp only [reader, isDirectoryPath, hresolve, hdirectory]
    isLink := funext fun path => by simp only [reader, isLinkPath, hwalk, hnode]
    identity := by simp only [reader, hresolve]
    extent := by simp only [reader, hperm.length_eq] }

end Tree

/-- A tree with names that are equal but for their case, a link, a directory that cannot be opened
and one that fails while it is read, listed from either end and searched level by level. -/
theorem views_of_reordering_reversed :
    ∃ (o : Options) (e : Expansion) (t t' : Tree) (d : Disturbance),
      o =
        { path := .datum (.text ".///*"), order := .order .breadthFirst,
          sort := .datum (.truth true), follow := .datum (.truth true),
          caseInsensitive := .datum (.truth true) } ∧
      t = .ofEntries [.path "b/x", .path "B/y", .path "a/z", .link "c" "b", .path "d/x",
        .path "d/y"] ∧
      t' = ⟨t.nodes.reverse⟩ ∧
      d = ⟨[("a", .permission)], [("d", 1)], true⟩ ∧
      Expansion.ofOptions o = .ok e ∧
      o.sorting = .byName ∧
      t'.names [] ≠ t.names [] ∧
      (t.reader d).IsReordering (t'.reader d) ∧
      ∀ requests : List Request,
        e.views (requests.map (t'.reader d, ·)) = e.views (requests.map (t.reader d, ·)) := by
  let o : Options :=
    { path := .datum (.text ".///*"), order := .order .breadthFirst, sort := .datum (.truth true),
      follow := .datum (.truth true), caseInsensitive := .datum (.truth true) }
  let t : Tree :=
    .ofEntries [.path "b/x", .path "B/y", .path "a/z", .link "c" "b", .path "d/x", .path "d/y"]
  let d : Disturbance := ⟨[("a", .permission)], [("d", 1)], true⟩
  have hok : (Expansion.ofOptions o).isOk = true := by decide +kernel
  have hread : (t.reader d).IsReordering ((⟨t.nodes.reverse⟩ : Tree).reader d) :=
    Tree.reader_isReordering (by decide +kernel) t.nodes.reverse_perm.symm d
  cases he : Expansion.ofOptions o with
  | error problem =>
    rw [he] at hok
    cases hok
  | ok e =>
    refine ⟨o, e, t, ⟨t.nodes.reverse⟩, d, rfl, rfl, rfl, rfl, he, rfl, by decide +kernel, hread,
      fun requests => Expansion.views_of_reordering he rfl ?_⟩
    rw [List.forall₂_map_left_iff, List.forall₂_map_right_iff, List.forall₂_same]
    exact fun q _ => ⟨hread, rfl⟩

end PathExpansion
