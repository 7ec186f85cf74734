import Mathlib.Data.List.Nodup
import Mathlib.Data.List.Perm.Basic
import PathExpansion.Proofs.Tree.Finite

/-!
# Trees without links

Where there are no links, a place is reached by one path only, apart from slashes.  What a scan asks
about a path is then a question about its place.  Links elsewhere are not in the way of places that
are reached without them, so that much of this needs only that every place is in a directory.

* `Tree.IsRooted` — every place is in a directory, and there only once.
* `Tree.IsPlain` — so it is, and none has a link.
* `Tree.below` — the places from one on downwards; **`Tree.below_perm`** takes them apart.
* `Tree.LeadsTo` — a path leads to a directory, and a name can be put behind it.
* `Tree.LeadsTo.resolve_entry` — where such a path leads with a name behind it.
* **`Tree.LeadsTo.exists_listed`** — what is listed there.
-/

namespace PathExpansion

namespace Tree

/-- **A tree in which everything has its place**: every place is an entry of a directory, and there
is one thing at it. -/
structure IsRooted (t : Tree) : Prop where
  nodup : (t.nodes.map (·.1)).Nodup
  entry : ∀ n ∈ t.nodes, ∃ name parent, n.1 = name :: parent ∧ IsEntryName name ∧
    t.isDirectoryAt parent

/-- **A tree without links**: every place is an entry of a directory, and there is a file or a
directory at it. -/
structure IsPlain (t : Tree) : Prop where
  nodup : (t.nodes.map (·.1)).Nodup
  entry : ∀ n ∈ t.nodes, ∃ name parent, n.1 = name :: parent ∧ IsEntryName name ∧
    t.isDirectoryAt parent
  unlinked : ∀ n ∈ t.nodes, n.2 = .file ∨ n.2 = .directory

variable {t : Tree} {p q : Place} {name : String}

lemma IsPlain.isRooted (ht : t.IsPlain) : t.IsRooted := ⟨ht.nodup, ht.entry⟩

/-! ## Places -/

lemma isSome_node?_cons : (t.node? (name :: p)).isSome ↔ name :: p ∈ t.nodes.map (·.1) := by
  rw [show t.node? (name :: p) = t.nodes.lookup (name :: p) from rfl, List.lookup_isSome_iff,
    List.mem_map]
  simp only [beq_iff_eq]
  constructor
  · rintro ⟨n, hn, h⟩
    exact ⟨n, hn, h.symm⟩
  · rintro ⟨n, hn, h⟩
    exact ⟨n, hn, h.symm⟩

lemma IsPlain.node?_eq (ht : t.IsPlain) {node : Node} (h : t.node? p = some node) :
    node = .file ∨ node = .directory := by
  cases p with
  | nil => exact Or.inr (Option.some.inj h).symm
  | cons name parent => exact ht.unlinked _ (mem_of_node? (List.cons_ne_nil name parent) h)

lemma IsPlain.isLinkAt_eq (ht : t.IsPlain) (p : Place) : t.isLinkAt p = false := by
  rw [isLinkAt]
  cases hnode : t.node? p with
  | none => rfl
  | some node => rcases ht.node?_eq hnode with rfl | rfl <;> rfl

lemma IsRooted.of_isSome (ht : t.IsRooted) (h : (t.node? (name :: p)).isSome) :
    IsEntryName name ∧ t.isDirectoryAt p := by
  obtain ⟨n, hn, hplace⟩ := List.mem_map.mp (isSome_node?_cons.mp h)
  obtain ⟨name', parent, heq, hname, hparent⟩ := ht.entry n hn
  obtain ⟨rfl, rfl⟩ := List.cons.inj (hplace.symm.trans heq)
  exact ⟨hname, hparent⟩

lemma isSome_of_isDirectoryAt (h : t.isDirectoryAt p) : (t.node? p).isSome := by
  rw [beq_iff_eq.mp h]
  rfl

/-- Every name on the way to a place is one of an entry. -/
lemma IsRooted.names_proper (ht : t.IsRooted) (h : (t.node? p).isSome) :
    ∀ name ∈ p, IsEntryName name := by
  induction p with
  | nil => exact fun name hname => absurd hname List.not_mem_nil
  | cons name parent ih =>
    obtain ⟨hname, hparent⟩ := ht.of_isSome h
    exact List.forall_mem_cons.mpr ⟨hname, ih (isSome_of_isDirectoryAt hparent)⟩

lemma IsRooted.isNamed (ht : t.IsRooted) : t.IsNamed := by
  intro n hn name hname
  obtain ⟨first, parent, hplace, _⟩ := ht.entry n hn
  have hsome : (t.node? (first :: parent)).isSome :=
    isSome_node?_cons.mpr (List.mem_map.mpr ⟨n, hn, hplace⟩)
  rw [hplace] at hname
  exact (ht.names_proper hsome name hname).isName

lemma IsPlain.isNamed (ht : t.IsPlain) : t.IsNamed := ht.isRooted.isNamed

/-- Each place is taken by itself: a name, and the directory in which it is. -/
lemma isRooted_iff : t.IsRooted ↔ (t.nodes.map (·.1)).Nodup ∧ ∀ n ∈ t.nodes,
    n.1 ≠ [] ∧ (∀ name ∈ n.1.head?, IsEntryName name) ∧ t.isDirectoryAt n.1.tail := by
  constructor
  · refine fun ht => ⟨ht.nodup, fun n hn => ?_⟩
    obtain ⟨name, parent, heq, hname, hparent⟩ := ht.entry n hn
    rw [heq]
    exact ⟨List.cons_ne_nil name parent, fun _ hsome => Option.some.inj hsome ▸ hname, hparent⟩
  · rintro ⟨hnodup, hnodes⟩
    refine ⟨hnodup, fun n hn => ?_⟩
    obtain ⟨hne, hname, hparent⟩ := hnodes n hn
    obtain ⟨name, parent, heq⟩ := List.exists_cons_of_ne_nil hne
    rw [heq] at hname hparent
    exact ⟨name, parent, heq, hname name rfl, hparent⟩

instance (t : Tree) : Decidable t.IsRooted := decidable_of_iff' _ isRooted_iff

/-! ## Names in a directory -/

lemma nameIn_eq_some {place : Place} : nameIn p place = some name ↔ place = name :: p := by
  cases place with
  | nil => simp [nameIn]
  | cons first parent =>
    rw [nameIn]
    split_ifs with hparent
    · rw [hparent, Option.some_inj, List.cons.injEq, eq_self, and_true]
    · simp [hparent]

lemma mem_names : name ∈ t.names p ↔ (t.node? (name :: p)).isSome := by
  rw [isSome_node?_cons, names, List.mem_filterMap, List.mem_map]
  simp only [nameIn_eq_some]

/-- A directory has no name twice if there is nothing twice at a place. -/
lemma nodup_names (h : (t.nodes.map (·.1)).Nodup) (p : Place) : (t.names p).Nodup := by
  have hmap : t.names p = (t.nodes.map (·.1)).filterMap (nameIn p) := by
    rw [List.filterMap_map]
    rfl
  rw [hmap]
  refine List.Nodup.filterMap (fun a b name ha hb => ?_) h
  rw [nameIn_eq_some.mp ha, nameIn_eq_some.mp hb]

lemma IsRooted.nodup_names (ht : t.IsRooted) : (t.names p).Nodup := Tree.nodup_names ht.nodup p

/-- Only a directory has names in it. -/
lemma IsRooted.names_eq_nil (ht : t.IsRooted) (h : t.isDirectoryAt p = false) : t.names p = [] := by
  refine List.eq_nil_iff_forall_not_mem.mpr fun name hname => ?_
  rw [(ht.of_isSome (mem_names.mp hname)).2] at h
  cases h

/-! ## Places below -/

/-- The places from one on downwards. -/
def below (t : Tree) (p : Place) : List Place :=
  ([] :: t.nodes.map (·.1)).filter fun q => p.isSuffixOf q

lemma mem_below : q ∈ t.below p ↔ (t.node? q).isSome ∧ p <:+ q := by
  rw [below, List.mem_filter, List.isSuffixOf_iff_suffix]
  refine and_congr_left fun _ => ?_
  cases q with
  | nil => simp [node?]
  | cons name parent => rw [isSome_node?_cons, List.mem_cons]; simp

lemma IsRooted.nodup_below (ht : t.IsRooted) (p : Place) : (t.below p).Nodup := by
  refine List.Nodup.filter _ (List.nodup_cons.mpr ⟨fun h => ?_, ht.nodup⟩)
  obtain ⟨n, hn, hplace⟩ := List.mem_map.mp h
  obtain ⟨name, parent, heq, _⟩ := ht.entry n hn
  rw [hplace] at heq
  cases heq

/-- Above a place that exists there are only such. -/
lemma IsRooted.isSome_of_suffix (ht : t.IsRooted) (h : (t.node? q).isSome) (hsuffix : p <:+ q) :
    (t.node? p).isSome := by
  induction q with
  | nil =>
    rw [List.suffix_nil.mp hsuffix]
    exact h
  | cons name parent ih =>
    rcases List.suffix_cons_iff.mp hsuffix with rfl | hparent
    · exact h
    · exact ih (isSome_of_isDirectoryAt (ht.of_isSome h).2) hparent

/-- What is properly below a place is below one of its entries. -/
lemma suffix_iff : p <:+ q ↔ q = p ∨ ∃ name, name :: p <:+ q := by
  constructor
  · rintro ⟨front, rfl⟩
    rcases List.eq_nil_or_concat front with rfl | ⟨init, name, rfl⟩
    · exact Or.inl rfl
    · refine Or.inr ⟨name, init, ?_⟩
      rw [List.concat_eq_append, List.append_assoc]
      rfl
  · rintro (rfl | ⟨name, h⟩)
    · exact List.suffix_rfl
    · exact (List.suffix_cons name p).trans h

/-- A place is below just one entry. -/
lemma eq_of_suffix {name name' : String} (h : name :: p <:+ q) (h' : name' :: p <:+ q) :
    name = name' := by
  have heq := (List.suffix_of_suffix_length_le h h' (by simp)).eq_of_length (by simp)
  exact (List.cons.inj heq).1

/-- **The places below one**: itself, and those below its entries. -/
theorem IsRooted.below_perm (ht : t.IsRooted) (h : (t.node? p).isSome) :
    (t.below p).Perm (p :: (t.names p).flatMap fun name => t.below (name :: p)) := by
  have hproper : ∀ {name : String}, ¬ name :: p <:+ p := fun hsuffix => by
    have := hsuffix.length_le
    simp at this
  have hnodup : (p :: (t.names p).flatMap fun name => t.below (name :: p)).Nodup := by
    rw [List.nodup_cons, List.nodup_flatMap]
    refine ⟨fun hmem => ?_, fun name _ => ht.nodup_below _, ?_⟩
    · obtain ⟨name, _, hmem⟩ := List.mem_flatMap.mp hmem
      exact hproper (mem_below.mp hmem).2
    · refine ht.nodup_names.imp fun {a b} hne q ha hb => ?_
      exact hne (eq_of_suffix (mem_below.mp ha).2 (mem_below.mp hb).2)
  refine (List.perm_ext_iff_of_nodup (ht.nodup_below p) hnodup).mpr fun q => ?_
  rw [mem_below, List.mem_cons, List.mem_flatMap, suffix_iff]
  constructor
  · rintro ⟨hq, rfl | ⟨name, hname⟩⟩
    · exact Or.inl rfl
    · have hentry := ht.isSome_of_suffix hq hname
      exact Or.inr ⟨name, mem_names.mpr hentry, mem_below.mpr ⟨hq, hname⟩⟩
  · rintro (rfl | ⟨name, _, hq⟩)
    · exact ⟨h, Or.inl rfl⟩
    · obtain ⟨hq, hname⟩ := mem_below.mp hq
      exact ⟨hq, Or.inr ⟨name, hname⟩⟩

/-! ## Paths -/

lemma IsPlain.isLinkPath_eq (ht : t.IsPlain) (path : String) : t.isLinkPath path = false := by
  rw [isLinkPath]
  split
  · next here last _ _ =>
    cases hnode : t.node? (last :: here) with
    | none => simp
    | some node =>
      rcases ht.node?_eq hnode with rfl | rfl <;> simp
  · rfl

/-- A path leads to a directory, and a name can be put behind it. -/
structure LeadsTo (t : Tree) (path : String) (p : Place) : Prop where
  enterable : isEnterable path
  directory : t.isDirectoryAt p
  resolves : t.resolve (orDot path) = .ok p

variable {path : String}

/-- A name behind such a path leads to the entry of that name, if there is one. -/
lemma LeadsTo.resolve_entry (h : t.LeadsTo path p) (ht : t.IsPlain) (hname : IsEntryName name) :
    t.resolve (path ++ name)
      = if (t.node? (name :: p)).isSome then .ok (name :: p) else .error .notFound :=
  resolve_unlinked h.enterable hname h.resolves (ht.isLinkAt_eq _)

lemma LeadsTo.isDirectoryPath_unlinked (h : t.LeadsTo path p) (hname : IsEntryName name)
    (hlink : t.isLinkAt (name :: p) = false) :
    t.isDirectoryPath (path ++ name) = t.isDirectoryAt (name :: p) := by
  rw [isDirectoryPath, resolve_unlinked h.enterable hname h.resolves hlink]
  cases hnode : t.node? (name :: p) with
  | none =>
    rw [isDirectoryAt, hnode]
    rfl
  | some node => rfl

lemma LeadsTo.isDirectoryPath_entry (h : t.LeadsTo path p) (ht : t.IsPlain)
    (hname : IsEntryName name) :
    t.isDirectoryPath (path ++ name) = t.isDirectoryAt (name :: p) :=
  h.isDirectoryPath_unlinked hname (ht.isLinkAt_eq _)

lemma append_slash_ne_empty (path : String) : path ++ "/" ≠ "" := fun h => by
  have := congrArg String.length h
  simp at this

lemma isLinkAt_of_isDirectoryAt (hdir : t.isDirectoryAt p) : t.isLinkAt p = false := by
  rw [isLinkAt, beq_iff_eq.mp hdir]
  rfl

/-- A directory in it can be entered in the same way. -/
lemma LeadsTo.entry (h : t.LeadsTo path p) (hname : IsEntryName name)
    (hdir : t.isDirectoryAt (name :: p)) : t.LeadsTo (path ++ name ++ "/") (name :: p) := by
  have hresolve : t.resolve (path ++ name) = .ok (name :: p) := by
    rw [resolve_unlinked h.enterable hname h.resolves (isLinkAt_of_isDirectoryAt hdir),
      if_pos (isSome_of_isDirectoryAt hdir)]
  refine ⟨isEnterable_append_slash _, hdir, ?_⟩
  rw [orDot, if_neg (append_slash_ne_empty _)]
  exact resolve_append_slash hresolve hdir

/-- The root and the current directory are both at the top. -/
lemma leadsTo_root (t : Tree) (spec : PathSpec) : t.LeadsTo spec.rootPath [] := by
  have hroot : t.isDirectoryAt [] = true := rfl
  have hdot : t.resolve (orDot "") = .ok [] := by
    rw [resolve, show piecesOf (orDot "") = ["."] from rfl, Tree.walk, hroot, if_neg (by simp),
      if_pos (by simp), Tree.walk]
  have hslash : t.resolve (orDot "/") = .ok [] := by
    rw [resolve, show piecesOf (orDot "/") = ["", ""] from rfl, Tree.walk, hroot,
      if_neg (by simp), if_pos (by simp), Tree.walk, hroot, if_neg (by simp), if_pos (by simp),
      Tree.walk]
  rw [PathSpec.rootPath]
  split
  · exact ⟨rfl, hroot, hslash⟩
  · exact ⟨rfl, hroot, hdot⟩

end Tree

/-! ## Listings -/

/-- No directory fails. -/
structure Disturbance.IsQuiet (d : Disturbance) : Prop where
  openFaults : d.openFaults = []
  readFaults : d.readFaults = []

lemma Disturbance.IsQuiet.isSystem {d : Disturbance} (hd : d.IsQuiet) : d.IsSystem := by
  intro row hrow
  rw [hd.openFaults] at hrow
  cases hrow

/-- A directory that is opened and does not fail is listed, if no comparison raises an error. -/
lemma Reader.listed_of_opened {r : Reader} {plan : Plan} (hsort : plan.sorting.NeverRaises)
    {path : String} {shown : List String}
    (hopen : r.openDirectory (orDot path) = .ok ⟨shown, none⟩) :
    ∃ names, r.listed plan path = .ok ⟨names, none⟩ ∧ names.Perm shown := by
  rw [Reader.listed, hopen]
  obtain ⟨arranged, harranged⟩ := hsort.arrange_isOk plan.ignoreCase path shown
  cases heager : plan.sorting.isEager with
  | true =>
    refine ⟨arranged, ?_, Sorting.arrange_perm harranged⟩
    simp only [if_true, harranged]
    rfl
  | false => exact ⟨shown, rfl, .refl _⟩

namespace Tree

variable {t : Tree} {d : Disturbance} {path : String} {p : Place}

/-- No listing has a name twice, nor do those that show the two names that every directory has. -/
lemma nodup_of_openPath (hplaces : (t.nodes.map (·.1)).Nodup)
    (hdots : ∀ n ∈ t.nodes, ∀ name ∈ n.1, isDotName name = false) {l : Listing}
    (h : t.openPath d path = .ok l) : l.names.Nodup := by
  obtain ⟨place, _, _, hsub⟩ := exists_place_of_openPath h
  refine hsub.nodup ?_
  have hnames := nodup_names hplaces place
  split_ifs
  · have hnone : ∀ name ∈ t.names place, isDotName name = false := by
      intro name hname
      obtain ⟨n, hn, hin⟩ := List.mem_filterMap.mp hname
      exact hdots n hn name (by rw [nameIn_eq_some.mp hin]; exact List.mem_cons_self)
    rw [List.nodup_cons, List.nodup_cons, List.mem_cons, not_or]
    refine ⟨⟨by decide, fun hmem => ?_⟩, fun hmem => ?_, hnames⟩
    · cases hnone "." hmem
    · cases hnone ".." hmem
  · exact hnames

lemma LeadsTo.openPath_eq (h : t.LeadsTo path p) (hd : d.IsQuiet) :
    t.openPath d (orDot path)
      = .ok ⟨if d.dots then "." :: ".." :: t.names p else t.names p, none⟩ := by
  simp only [openPath, findByPath, hd.openFaults, hd.readFaults, List.find?_nil, Option.map_none,
    h.resolves, h.directory, if_true, cutListing]

/-- **A directory is listed without fault**: but for the two names that every directory has, the
names are those of its entries. -/
theorem LeadsTo.exists_listed (h : t.LeadsTo path p) (ht : t.IsRooted)
    (hd : d.IsQuiet) {plan : Plan} (hsort : plan.sorting.NeverRaises) :
    ∃ names, (t.reader d).listed plan path = .ok ⟨names, none⟩ ∧
      (names.filter fun name => !isDotName name).Perm (t.names p) := by
  set shown := if d.dots then "." :: ".." :: t.names p else t.names p with hshown
  have hentries : (shown.filter fun name => !isDotName name) = t.names p := by
    have hnames : (t.names p).filter (fun name => !isDotName name) = t.names p := by
      refine List.filter_eq_self.mpr fun name hname => ?_
      rw [(ht.of_isSome (mem_names.mp hname)).1.noDot]
      rfl
    cases hdots : d.dots with
    | true => simpa [hshown, hdots, isDotName] using hnames
    | false => simpa [hshown, hdots] using hnames
  have hopen : (t.reader d).openDirectory (orDot path) = .ok ⟨shown, none⟩ := h.openPath_eq hd
  obtain ⟨names, hlisted, hperm⟩ := Reader.listed_of_opened hsort hopen
  refine ⟨names, hlisted, ?_⟩
  rw [← hentries]
  exact hperm.filter _

end Tree

end PathExpansion
