import PathExpansion.Proofs.Agenda.Step
import PathExpansion.Proofs.Tree.Paths

/-!
# Trees are finite

A tree has finitely many places, and its links do not add any.  A descent that does not follow links
goes from a place to one properly below it, so that less and less of the tree is left; one that does
follow them meets each place once.

* `Tree.IsNamed` — every place is reached by names; true of what is built from entries
  (**`Tree.isNamed_ofEntries`**).
* `Tree.countBelow` — how many places are properly below one.
* **`Tree.reader_isFinite`** — the answers of a tree are those of a finite reader.
* `Sorting.arrange_error` — names cannot be put in order only where a comparison fails.
* `Disturbance.IsSystem`, `Sorting.FailsBySystem`, **`Tree.listed_failsBySystem`** — what fails in a
  tree fails by faults for the error policy; so it does where no comparison fails
  (`Sorting.NeverRaises`, `Tree.reader_failsBySystem`).
-/

namespace PathExpansion

namespace Tree

/-! ## Names -/

/-- Every place is reached by names. -/
def IsNamed (t : Tree) : Prop := ∀ n ∈ t.nodes, ∀ name ∈ n.1, IsName name

variable {t : Tree} {place : Place}

lemma IsNamed.set (h : t.IsNamed) (hplace : ∀ name ∈ place, IsName name) (node : Node) :
    (t.set place node).IsNamed := by
  intro n hn
  unfold Tree.set at hn
  split at hn
  · rcases List.mem_append.mp hn with hn | hn
    · exact h n hn
    · rw [List.mem_singleton.mp hn]
      exact hplace
  · split at hn
    · exact h n hn
    · obtain ⟨m, hm, rfl⟩ := List.mem_map.mp hn
      split
      · exact hplace
      · exact h m (List.mem_of_mem_filter hm)

lemma IsNamed.ensureDirectory (h : t.IsNamed) :
    ∀ {place : Place}, (∀ name ∈ place, IsName name) → (t.ensureDirectory place).IsNamed
  | [], _ => h
  | name :: parent, hplace => by
      have hparent : (t.ensureDirectory parent).IsNamed :=
        h.ensureDirectory fun n hn => hplace n (List.mem_cons_of_mem name hn)
      rw [Tree.ensureDirectory]
      split
      · exact hparent
      · exact hparent.set hplace .directory

lemma IsNamed.put (h : t.IsNamed) (hplace : ∀ name ∈ place, IsName name) (node : Node) :
    (t.put place node).IsNamed := by
  unfold Tree.put
  cases place with
  | nil => exact h
  | cons name parent =>
    exact (h.ensureDirectory fun n hn => hplace n (List.mem_cons_of_mem name hn)).set hplace node

/-- There is no slash in the stretches between slashes. -/
lemma slash_not_mem_of_stretches :
    ∀ {cs s : List Char}, s ∈ PathSpec.stretches cs → '/' ∉ s
  | [], s, hs => by
      rw [PathSpec.stretches, List.mem_singleton] at hs
      simp [hs]
  | c :: cs, s, hs => by
      by_cases hc : c = '/'
      · rw [PathSpec.stretches, if_pos hc] at hs
        rcases List.mem_cons.mp hs with rfl | hs
        · simp
        · exact slash_not_mem_of_stretches hs
      · obtain ⟨s', ss, hstretches⟩ := List.exists_cons_of_ne_nil (PathSpec.stretches_ne_nil cs)
        have hrec : ∀ s ∈ PathSpec.stretches cs, '/' ∉ s := fun _ => slash_not_mem_of_stretches
        rw [hstretches] at hrec
        rw [PathSpec.stretches_cons hc hstretches] at hs
        rcases List.mem_cons.mp hs with rfl | hs
        · rw [List.mem_cons, not_or]
          exact ⟨Ne.symm hc, hrec s' List.mem_cons_self⟩
        · exact hrec s (List.mem_cons_of_mem s' hs)

lemma isName_of_mem_placeOf {path name : String} (h : name ∈ placeOf path) : IsName name := by
  unfold placeOf at h
  obtain ⟨s, hs, rfl⟩ := List.mem_map.mp (List.mem_reverse.mp h)
  obtain ⟨hs, hne⟩ := List.mem_filter.mp hs
  refine ⟨fun hempty => ?_, by rw [String.toList_ofList]; exact slash_not_mem_of_stretches hs⟩
  have := congrArg String.toList hempty
  rw [String.toList_ofList] at this
  simp [this] at hne

lemma IsNamed.add (h : t.IsNamed) (e : Entry) : (t.add e).IsNamed := by
  cases e with
  | path text => exact h.put (fun _ => isName_of_mem_placeOf) _
  | link text target => exact h.put (fun _ => isName_of_mem_placeOf) _

/-- **A tree that is built from entries has names.** -/
theorem isNamed_ofEntries (entries : List Entry) : (ofEntries entries).IsNamed := by
  have h : ∀ (es : List Entry) (t : Tree), t.IsNamed → (es.foldl Tree.add t).IsNamed := by
    intro es
    induction es with
    | nil => exact fun t ht => ht
    | cons e es ih => exact fun t ht => ih (t.add e) (ht.add e)
  exact h entries empty fun n hn => absurd hn List.not_mem_nil

/-! ## Places -/

/-- What is found at a place other than the root is one of the nodes. -/
lemma mem_of_node? {node : Node} (hne : place ≠ []) (h : t.node? place = some node) :
    (place, node) ∈ t.nodes := by
  unfold node? at h
  cases place with
  | nil => exact absurd rfl hne
  | cons name parent =>
    obtain ⟨before, after, hnodes, _⟩ := List.lookup_eq_some_iff.mp h
    rw [hnodes]
    exact List.mem_append_right _ List.mem_cons_self

/-- A place is properly below another. -/
def isBelow (place other : Place) : Bool := other ≠ place && place.isSuffixOf other

/-- The number of places properly below one. -/
def countBelow (t : Tree) (place : Place) : ℕ :=
  (t.nodes.filter fun n => isBelow place n.1).length

lemma isBelow_of_cons {name : String} {other : Place} (h : isBelow (name :: place) other) :
    isBelow place other := by
  simp only [isBelow, Bool.and_eq_true, decide_eq_true_eq, List.isSuffixOf_iff_suffix] at h ⊢
  obtain ⟨_, front, rfl⟩ := h
  refine ⟨fun heq => ?_, ?_⟩
  · have := congrArg List.length heq
    simp only [List.length_append, List.length_cons] at this
    omega
  · exact ⟨front ++ [name], by simp⟩

/-- Going down leaves less of the tree. -/
lemma countBelow_cons_lt {name : String} (h : (t.node? (name :: place)).isSome) :
    t.countBelow (name :: place) < t.countBelow place := by
  obtain ⟨node, hnode⟩ := Option.isSome_iff_exists.mp h
  have hmem := mem_of_node? (List.cons_ne_nil name place) hnode
  have hfilter : (t.nodes.filter fun n => isBelow (name :: place) n.1)
      = (t.nodes.filter fun n => isBelow place n.1).filter
          fun n => isBelow (name :: place) n.1 := by
    rw [List.filter_filter]
    refine List.filter_congr fun n _ => ?_
    cases hbelow : isBelow (name :: place) n.1 with
    | false => rfl
    | true => rw [isBelow_of_cons hbelow]; rfl
  unfold countBelow
  rw [hfilter]
  refine List.length_filter_lt_length_iff_exists.mpr ⟨(name :: place, node), ?_, ?_⟩
  · refine List.mem_filter.mpr ⟨hmem, ?_⟩
    simp only [isBelow, Bool.and_eq_true, decide_eq_true_eq, List.isSuffixOf_iff_suffix]
    exact ⟨List.cons_ne_self name place, List.suffix_cons name place⟩
  · simp [isBelow]

/-! ## The answers of a tree -/

variable {d : Disturbance}

lemma cutListing_sublist (path : String) (names : List String) (count : Option ℕ) :
    (cutListing path names count).names.Sublist names := by
  unfold cutListing
  split
  · exact List.Sublist.refl _
  · split
    · exact List.take_sublist _ _
    · exact List.Sublist.refl _

/-- **What an opened directory gives** are names in the place that the path leads to, perhaps behind
those of the directory itself and of its parent; a listing that fails gives the first of them. -/
lemma exists_place_of_openPath {path : String} {l : Listing} (h : t.openPath d path = .ok l) :
    ∃ place, t.resolve path = .ok place ∧ t.isDirectoryAt place = true ∧
      l.names.Sublist (if d.dots then "." :: ".." :: t.names place else t.names place) := by
  unfold openPath at h
  split at h
  · cases h
  · split at h
    · cases h
    · next place hplace =>
      split at h
      · next hdir =>
        refine ⟨place, hplace, hdir, ?_⟩
        simp only [Except.ok.injEq] at h
        rw [← h]
        exact cutListing_sublist _ _ _
      · cases h

lemma openPath_ok {path : String} {l : Listing} (h : t.openPath d path = .ok l) :
    ∃ place, t.resolve path = .ok place ∧ t.isDirectoryAt place = true ∧
      l.names.length ≤ t.nodes.length + 2 ∧
      ∀ name ∈ l.names, name = "." ∨ name = ".." ∨ name ∈ t.names place := by
  obtain ⟨place, hplace, hdir, hsub⟩ := exists_place_of_openPath h
  have hlength : (t.names place).length ≤ t.nodes.length := List.length_filterMap_le _ _
  refine ⟨place, hplace, hdir, hsub.length_le.trans ?_, fun name hname => ?_⟩
  · split
    · simpa using hlength
    · omega
  · have hmem := hsub.subset hname
    split at hmem
    · simpa using hmem
    · exact Or.inr (Or.inr hmem)

lemma isName_of_mem_names (h : t.IsNamed) {name : String} (hname : name ∈ t.names place) :
    IsName name := by
  unfold names at hname
  obtain ⟨n, hn, hin⟩ := List.mem_filterMap.mp hname
  unfold nameIn at hin
  split at hin
  · cases hin
  · next first parent hfirst =>
    split at hin
    · cases hin
      exact h n hn _ (by rw [hfirst]; exact List.mem_cons_self)
    · cases hin

lemma isName_of_openPath (h : t.IsNamed) {path : String} {l : Listing}
    (hopen : t.openPath d path = .ok l) {name : String} (hname : name ∈ l.names) :
    IsName name := by
  obtain ⟨place, _, _, _, hmem⟩ := openPath_ok hopen
  rcases hmem name hname with rfl | rfl | hname
  · exact ⟨by decide, by decide⟩
  · exact ⟨by decide, by decide⟩
  · exact isName_of_mem_names h hname

/-- How far one can go down from a path: as far as there is something below the place it leads
to. -/
def heightOf (t : Tree) (path : String) : ℕ :=
  match t.resolve (orDot path) with
  | .ok place => t.countBelow place
  | .error _ => 0

lemma heightOf_lt (h : t.IsNamed) {path name : String} {l : Listing} (hpath : isEnterable path)
    (hopen : t.openPath d (orDot path) = .ok l) (hname : name ∈ l.names)
    (hdot : isDotName name = false) (hdir : t.isDirectoryPath (path ++ name))
    (hlink : t.isLinkPath (path ++ name) = false) :
    t.heightOf (path ++ name ++ "/") < t.heightOf path := by
  obtain ⟨here, hhere, _⟩ := openPath_ok hopen
  have hentry : IsEntryName name := ⟨isName_of_openPath h hopen hname, hdot⟩
  unfold isDirectoryPath at hdir
  cases hplace : t.resolve (path ++ name) with
  | error problem =>
    rw [hplace] at hdir
    cases hdir
  | ok place =>
    rw [hplace] at hdir
    obtain ⟨rfl, hsome⟩ := resolve_append hpath hentry hhere hlink hplace
    have hne : path ++ name ++ "/" ≠ "" := fun heq => by
      have := congrArg String.length heq
      simp at this
    have hslash := resolve_append_slash hplace hdir
    unfold heightOf
    rw [hhere, orDot, if_neg hne, hslash]
    exact countBelow_cons_lt hsome

/-- **A tree is finite.** -/
theorem reader_isFinite (h : t.IsNamed) (d : Disturbance) : (t.reader d).IsFinite where
  name_proper := fun hopen hname => isName_of_openPath h hopen hname
  names_le := fun hopen => by
    obtain ⟨_, _, _, hlength, _⟩ := openPath_ok hopen
    exact hlength
  height := by
    refine ⟨t.heightOf, fun path => ?_, fun hpath hopen hname hdot hdir hlink =>
      heightOf_lt h hpath hopen hname hdot hdir hlink⟩
    unfold heightOf
    split
    · exact (List.length_filter_le _ _).trans (Nat.le_add_right _ 2)
    · exact Nat.zero_le _
  identities := by
    refine ⟨.place [] :: t.nodes.map fun n => .place n.1, by simp [reader], fun {path} hdir => ?_⟩
    have hdir : t.isDirectoryPath path = true := hdir
    unfold isDirectoryPath at hdir
    simp only [reader]
    cases hplace : t.resolve path with
    | error problem =>
      rw [hplace] at hdir
      cases hdir
    | ok place =>
      rw [hplace] at hdir
      simp only [isDirectoryAt, beq_iff_eq] at hdir
      by_cases hroot : place = []
      · rw [hroot]
        exact List.mem_cons_self
      · exact List.mem_cons_of_mem _ (List.mem_map.mpr ⟨_, mem_of_node? hroot hdir, rfl⟩)

end Tree

/-! ## Faults -/

/-- Directories that cannot be opened fail by faults of the operating system. -/
def Disturbance.IsSystem (d : Disturbance) : Prop := ∀ row ∈ d.openFaults, row.2.isSystem

/-- A comparison, if there is one, never fails. -/
def Sorting.NeverRaises (sorting : Sorting) : Prop :=
  ∀ compare, sorting = .byComparison compare → ∀ a b, ∃ i, compare a b = .ok i

/-- A comparison, if there is one, fails by faults of the operating system only. -/
def Sorting.FailsBySystem (sorting : Sorting) : Prop :=
  ∀ compare, sorting = .byComparison compare →
    ∀ a b fault, compare a b = .error fault → fault.isSystem

lemma FaultKind.isSystem_ofNumber (n : ℤ) : (FaultKind.ofNumber n).isSystem = true := by
  unfold ofNumber
  split <;> rfl

lemma Fault.isSystem_ofSystem (n : ℤ) (text path : String) :
    (ofSystem n text path).isSystem = true :=
  FaultKind.isSystem_ofNumber n

lemma Fault.isSystem_refined {f : Fault} (h : f.isSystem) : f.refined.isSystem := by
  unfold refined
  split
  · split
    · exact FaultKind.isSystem_ofNumber _
    · exact h
  · exact h

section

variable {α ε : Type} {before : α → α → Except ε Bool}

/-- Merging fails only where a comparison does. -/
lemma mergeSorted_error {as bs : List α} {fault : ε} (h : mergeSorted before as bs = .error fault) :
    ∃ a b, before a b = .error fault := by
  fun_induction mergeSorted before as bs with
  | case1 bs => cases h
  | case2 as => cases h
  | case3 a as b bs ihLater ihSooner =>
    rcases bind_eq_error.mp h with h | ⟨later, _, h⟩
    · exact ⟨b, a, h⟩
    · split at h
      · rcases bind_eq_error.mp h with h | ⟨_, _, h⟩
        · exact ihLater h
        · cases h
      · rcases bind_eq_error.mp h with h | ⟨_, _, h⟩
        · exact ihSooner h
        · cases h

/-- Sorting fails only where a comparison does. -/
lemma sortChecked_error {items : List α} {fault : ε} (h : sortChecked before items = .error fault) :
    ∃ a b, before a b = .error fault := by
  fun_induction sortChecked before items with
  | case1 items _ => cases h
  | case2 items _ half ihLeft ihRight =>
    rcases bind_eq_error.mp h with h | ⟨_, _, h⟩
    · exact ihLeft h
    · rcases bind_eq_error.mp h with h | ⟨_, _, h⟩
      · exact ihRight h
      · exact mergeSorted_error h

end

/-- What keeps names from being put in order is a fault of the comparison. -/
lemma Sorting.arrange_error {sorting : Sorting} {ignoreCase : Bool} {directory : String}
    {names : List String} {fault : Fault}
    (h : sorting.arrange ignoreCase directory names = .error fault) :
    ∃ compare, sorting = .byComparison compare ∧ ∃ a b, compare a b = .error fault := by
  cases sorting with
  | asListed => cases h
  | byName => cases h
  | byComparison compare =>
    obtain ⟨a, b, hbefore⟩ := sortChecked_error h
    refine ⟨compare, rfl, directory ++ a, directory ++ b, ?_⟩
    cases hcompare : compare (directory ++ a) (directory ++ b) with
    | ok i =>
      rw [hcompare] at hbefore
      cases hbefore
    | error fault' =>
      rw [hcompare] at hbefore
      cases hbefore
      rfl

lemma Sorting.NeverRaises.failsBySystem {sorting : Sorting} (h : sorting.NeverRaises) :
    sorting.FailsBySystem := by
  intro compare hcompare a b fault hfault
  obtain ⟨i, hi⟩ := h compare hcompare a b
  rw [hi] at hfault
  cases hfault

lemma Sorting.NeverRaises.arrange_isOk {sorting : Sorting} (h : sorting.NeverRaises)
    (ignoreCase : Bool) (directory : String) (names : List String) :
    ∃ arranged, sorting.arrange ignoreCase directory names = .ok arranged := by
  cases harrange : sorting.arrange ignoreCase directory names with
  | ok arranged => exact ⟨arranged, rfl⟩
  | error fault =>
    obtain ⟨compare, hcompare, a, b, hfault⟩ := Sorting.arrange_error harrange
    obtain ⟨i, hi⟩ := h compare hcompare a b
    rw [hi] at hfault
    cases hfault

namespace Tree

variable {t : Tree} {d : Disturbance}

lemma openPath_error (hd : d.IsSystem) {path : String} {fault : Fault}
    (h : t.openPath d path = .error fault) : fault.isSystem := by
  unfold openPath at h
  split at h
  · next kind hkind =>
    cases h
    refine Fault.isSystem_refined ?_
    unfold findByPath at hkind
    obtain ⟨row, hrow, rfl⟩ := Option.map_eq_some_iff.mp hkind
    exact hd row (List.mem_of_find?_eq_some hrow)
  · split at h
    · cases h
      exact Fault.isSystem_ofSystem _ _ _
    · split at h
      · cases h
      · cases h
        exact Fault.isSystem_ofSystem _ _ _

lemma fault_of_cutListing {path : String} {names : List String} {count : Option ℕ} {fault : Fault}
    (h : (cutListing path names count).fault = some fault) : fault.isSystem := by
  unfold cutListing at h
  split at h
  · cases h
  · split at h
    · cases h
      exact Fault.isSystem_ofSystem _ _ _
    · cases h

lemma fault_of_openPath {path : String} {l : Listing} (h : t.openPath d path = .ok l)
    {fault : Fault} (hfault : l.fault = some fault) : fault.isSystem := by
  unfold openPath at h
  split at h
  · cases h
  · split at h
    · cases h
    · split at h
      · simp only [Except.ok.injEq] at h
        rw [← h] at hfault
        exact fault_of_cutListing hfault
      · cases h

/-- **What fails in a tree fails by faults of the operating system**, if a comparison does. -/
theorem listed_failsBySystem (hd : d.IsSystem) {plan : Plan} (hsort : plan.sorting.FailsBySystem) :
    (t.reader d).FailsBySystem plan := by
  intro path fault h
  unfold Reader.listed at h
  split at h
  · next fault' hopen =>
    cases h
    exact openPath_error hd hopen
  · next l hopen =>
    split at h
    · split at h
      · next fault' hfault =>
        cases h
        exact fault_of_openPath hopen hfault
      · cases harrange : plan.sorting.arrange plan.ignoreCase path l.names with
        | ok arranged =>
          rw [harrange] at h
          cases h
        | error fault' =>
          rw [harrange] at h
          cases h
          obtain ⟨compare, hcompare, a, b, hfault⟩ := Sorting.arrange_error harrange
          exact hsort compare hcompare a b fault hfault
    · cases h

/-- What fails in a tree fails by faults of the operating system. -/
theorem reader_failsBySystem (hd : d.IsSystem) {plan : Plan} (hsort : plan.sorting.NeverRaises) :
    (t.reader d).FailsBySystem plan :=
  listed_failsBySystem hd hsort.failsBySystem

end Tree

end PathExpansion
