import PathExpansion.Proofs.Agenda.Results
import PathExpansion.Proofs.Traversal
import PathExpansion.Proofs.WholePath

/-!
# What a path means

A path stands for the places whose names can be divided among its components.  A scan does not
divide names: it goes down component by component, and in the end asks a pattern about the whole
path.  In a tree without links the two come to the same, in every order of walking.

* `PathInput.IsSlashFree` — no slash is hidden in a part of a path.
* `PathSpec.slash_not_mem_of_split` — no part of a path has a slash in it then.
* `PathSpec.finds_of_mem_reach` — the pattern finds every place that the components lead to.
* **`Scan.gives_divisions`** — a scan gives the path of a place as often as its names can be
  divided, and nothing else.
-/

namespace PathExpansion

/-! ## Names in a path -/

namespace PathSpec

/-- No part of a path that is given in parts has a slash in it. -/
def PathInput.IsSlashFree : PathInput → Prop
  | .presplit parts => ∀ part, .text part ∈ parts → '/' ∉ part.toList
  | _ => True

lemma mem_of_dropFirstEmpty {ss : List (List Char)} {s : List Char} (h : s ∈ dropFirstEmpty ss) :
    s ∈ ss := by
  unfold dropFirstEmpty at h
  split at h
  · exact List.mem_cons_of_mem [] h
  · exact h

lemma mem_of_dropLastEmpty {ss : List (List Char)} {s : List Char} (h : s ∈ dropLastEmpty ss) :
    s ∈ ss := by
  fun_induction dropLastEmpty ss with
  | case1 => exact h
  | case2 => cases h
  | case3 s' hne => exact h
  | case4 s' ss hne ih =>
    rcases List.mem_cons.mp h with rfl | h
    · exact List.mem_cons_self
    · exact List.mem_cons_of_mem s' (ih h)

/-- Splitting at slashes leaves none. -/
lemma slash_not_mem_of_splitText {path part : String} (h : part ∈ (splitText path).1) :
    '/' ∉ part.toList := by
  obtain ⟨s, hs, rfl⟩ := List.mem_map.mp h
  rw [String.toList_ofList]
  exact Tree.slash_not_mem_of_stretches (mem_of_dropFirstEmpty (mem_of_dropLastEmpty hs))

lemma mem_of_textParts {parts : List Datum} {texts : List String} (h : textParts parts = .ok texts)
    {part : String} (hpart : part ∈ texts) : .text part ∈ parts := by
  fun_induction textParts parts generalizing texts with
  | case1 =>
    cases h
    cases hpart
  | case2 s rest ih =>
    cases hrest : textParts rest with
    | error problem =>
      rw [hrest] at h
      cases h
    | ok others =>
      rw [hrest] at h
      cases h
      rcases List.mem_cons.mp hpart with rfl | hpart
      · exact List.mem_cons_self
      · exact List.mem_cons_of_mem _ (ih hrest hpart)
  | case3 => cases h

lemma slash_not_mem_of_split {path : PathInput} (hpath : path.IsSlashFree) {absolute : Option Bool}
    {parts : List String} {rooted : Bool} (h : path.split absolute = .ok (parts, rooted))
    {part : String} (hpart : part ∈ parts) : '/' ∉ part.toList := by
  cases path with
  | nothing =>
    cases h
    cases hpart
  | text path =>
    have hparts : (splitText path).1 = parts := congrArg Prod.fst (Except.ok.inj h)
    rw [← hparts] at hpart
    exact slash_not_mem_of_splitText hpart
  | presplit data =>
    cases absolute with
    | none => cases h
    | some a =>
      cases htexts : textParts data with
      | error problem =>
        rw [PathInput.split, htexts] at h
        cases h
      | ok texts =>
        rw [PathInput.split, htexts] at h
        cases h
        exact hpath part (mem_of_textParts htexts hpart)
  | indivisible typeName => cases absolute <;> cases h

end PathSpec

/-- A name in a compiled path is the part that it was compiled from. -/
lemma Component.compile_eq_literal {ignoreCase descent : Bool} {part name : String}
    (h : compile ignoreCase part = .ok (.literal name descent)) : part ≠ "" ∧ name = part := by
  rw [compile] at h
  split_ifs at h with hempty
  · cases h
  · cases hw : Wildcard.compile ignoreCase part false with
    | error problem =>
      rw [hw] at h
      cases h
    | ok w =>
      rw [hw] at h
      cases h
  · cases h
    exact ⟨hempty, rfl⟩

/-! ## Places that are found -/

section

variable {t : Tree} {spec : PathSpec} {ignoreCase : Bool} {parts : List String} {p q : Place}

/-- What is reached can be divided. -/
lemma Tree.IsPlain.exists_isDivision (ht : t.IsPlain) {components : List Component}
    (hp : p ∈ t.reach components []) : ∃ shares, IsDivision components p.reverse shares := by
  have hcount := ht.count_reach components (p := []) p.reverse
  rw [List.reverse_reverse, List.append_nil] at hcount
  have hpos := List.count_pos_iff.mpr hp
  rw [hcount (mem_reach rfl hp).1] at hpos
  obtain ⟨shares, hshares⟩ := List.exists_mem_of_length_pos hpos
  exact ⟨shares, mem_divisions.mp hshares⟩

/-- **The pattern finds every place that the components lead to.** -/
lemma PathSpec.IsCompiled.finds_of_mem_reach (h : spec.IsCompiled ignoreCase parts)
    (hne : spec.components ≠ []) (hlast : spec.components.getLast? ≠ some .ellipsis)
    (ht : t.IsPlain) (hnewline : ∀ n ∈ t.nodes, ∀ name ∈ n.1, '\n' ∉ name.toList)
    (hp : p ∈ t.reach spec.components []) :
    p ≠ [] ∧ spec.matcher.finds (t.pathOf spec.rootPath p) := by
  obtain ⟨shares, hshares⟩ := ht.exists_isDivision hp
  have hplace : p ≠ [] := fun hempty => by
    rw [hempty] at hshares
    exact hshares.ne_nil hne hlast rfl
  refine ⟨hplace, h.finds hne hlast hshares (fun name hname => ?_) (t.isDirectoryAt p)⟩
  obtain ⟨node, hnode⟩ := Option.isSome_iff_exists.mp (Tree.mem_reach rfl hp).1
  exact hnewline _ (Tree.mem_of_node? hplace hnode) name (List.mem_reverse.mp hname)

/-- A path leads to its place. -/
lemma Tree.IsPlain.resolve_pathOf (ht : t.IsPlain) (spec : PathSpec) (hne : p ≠ [])
    (hp : (t.node? p).isSome) :
    t.resolve (t.pathOf spec.rootPath p) = .ok p := by
  obtain ⟨name, parent, rfl⟩ := List.exists_cons_of_ne_nil hne
  obtain ⟨hname, hparent⟩ := ht.isRooted.of_isSome hp
  cases hdir : t.isDirectoryAt (name :: parent) with
  | true =>
    have hleads := (ht.leadsTo (t.leadsTo_root spec) hdir).resolves
    have hfull : Tree.pathTo spec.rootPath (name :: parent) ≠ "" := Tree.append_slash_ne_empty _
    rw [orDot, if_neg hfull] at hleads
    rw [Tree.pathOf_directory hdir, hleads]
  | false =>
    rw [Tree.pathOf_file hdir, (ht.leadsTo (t.leadsTo_root spec) hparent).resolve_entry ht hname,
      if_pos hp]

/-- Paths are told apart as their places are. -/
lemma Tree.IsPlain.count_map_pathOf (ht : t.IsPlain) (spec : PathSpec) {places : List Place}
    (hplaces : ∀ q ∈ places, q ≠ [] ∧ (t.node? q).isSome) (hne : p ≠ [])
    (hp : (t.node? p).isSome) :
    (places.map (t.pathOf spec.rootPath)).count (t.pathOf spec.rootPath p) = places.count p := by
  rw [List.count_eq_countP, List.countP_map, List.count_eq_countP]
  refine List.countP_congr fun q hq => ?_
  simp only [Function.comp_apply, beq_iff_eq]
  refine ⟨fun heq => ?_, fun heq => by rw [heq]⟩
  have hresolve := ht.resolve_pathOf spec (hplaces q hq).1 (hplaces q hq).2
  rw [heq, ht.resolve_pathOf spec hne hp] at hresolve
  exact (Except.ok.inj hresolve).symm

end

/-! ## The scan -/

/-- The path that an ending gives, if the pattern of its root finds it. -/
def Ending.found? (base : Option PathSpec) : Ending → Option String
  | .fault _ => none
  | .path root p => if (root.spec base).matcher.finds p then some p else none

lemma filterMap_sightsIn {r : Reader} {base : Option PathSpec} (ds : List Deed) :
    (sightsIn r base ds).filterMap Sight.path?
      = (endingsIn r ds).filterMap (·.found? base) := by
  rw [sightsIn, endingsIn, List.filterMap_filterMap, List.filterMap_filterMap]
  refine List.filterMap_congr fun deed _ => ?_
  cases deed with
  | arrived root path =>
    rw [Deed.sight?, Deed.ending?]
    cases hfinds : (root.spec base).matcher.finds path with
    | true =>
      cases r.isPresent path with
      | true => simp [Ending.found?, hfinds, Sight.path?]
      | false => rfl
    | false =>
      cases r.isPresent path with
      | true => simp [Ending.found?, hfinds]
      | false => rfl
  | _ => rfl

/-- **Where a scan ends** that walks a tree without links: its results are the paths of the places
that the components lead to, each as often. -/
lemma PathSpec.exists_results {t : Tree} (ht : t.IsPlain) {d : Disturbance} (hd : d.IsQuiet)
    {plan : Plan} (hexclude : plan.exclude = none) (hsort : plan.sorting.NeverRaises)
    {spec : PathSpec} (hne : spec.components ≠ [])
    (hlast : spec.components.getLast? ≠ some .ellipsis)
    (hnames : ∀ name descent, .literal name descent ∈ spec.components → Tree.IsEntryName name)
    (hfits : plan.Fits spec.matcher)
    (hfinds : ∀ p ∈ t.reach spec.components [], spec.matcher.finds (t.pathOf spec.rootPath p))
    (s : Scan) :
    ∃ (results : List String) (s' : Scan),
      results.Perm ((t.reach spec.components []).map (t.pathOf spec.rootPath)) ∧
      (s.start spec).Gives (t.reader d) plan (results.map (plan.answer spec.matcher)) s' ∧
      s'.isFinished := by
  have hthrough : (spec.trip (t.reader d) plan).IsThrough t d spec.rootPath :=
    ⟨ht, hd, rfl, hexclude, hsort, t.leadsTo_root spec⟩
  set walk := (spec.trip (t.reader d) plan).walk spec.components spec.rootPath [] with hwalk
  have hstart : Trip.IsAbove [] [] := fun i hi => absurd hi List.not_mem_nil
  have hperm := hthrough.walk_perm hnames hlast rfl hstart (Or.inr hne)
  -- nothing fails, so that the policy does not matter
  have hbears : s.policy.Bears walk := by
    refine s.policy.bears_of_forall fun deed hdeed incident hfailed => ?_
    have hmem : Ending.fault incident ∈ endingsIn (t.reader d) walk :=
      List.mem_filterMap.mpr ⟨deed, hdeed, by rw [hfailed]; rfl⟩
    obtain ⟨p, _, hp⟩ := List.mem_map.mp (hperm.subset hmem)
    cases hp
  obtain ⟨s', hgives, hfinished, _⟩ :=
    s.start_shows (Tree.reader_isFinite ht.isNamed d) (Tree.reader_failsBySystem hd.isSystem hsort)
      spec hfits hbears
  refine ⟨_, s', ?_, hgives, hfinished⟩
  rw [filterMap_sightsIn]
  refine (hperm.filterMap _).trans ?_
  rw [List.filterMap_map, ← List.filterMap_eq_map]
  refine List.Perm.of_eq (List.filterMap_congr fun p hp => ?_)
  exact if_pos (hfinds p hp)

/-- **A scan gives the path of a place as often as its names can be divided among the components**,
whatever the order of walking, and nothing else. -/
theorem Scan.gives_divisions {t : Tree} (ht : t.IsPlain)
    (hnewline : ∀ n ∈ t.nodes, ∀ name ∈ n.1, '\n' ∉ name.toList) {d : Disturbance}
    (hd : d.IsQuiet) {plan : Plan} (hexclude : plan.exclude = none)
    (hsort : plan.sorting.NeverRaises) {path : PathSpec.PathInput} (hpath : path.IsSlashFree)
    {absolute : Option Bool} {follow : Bool} {spec : PathSpec}
    (hspec : PathSpec.compile plan.ignoreCase path absolute none follow = .ok spec)
    (hne : spec.components ≠ []) (hlast : spec.components.getLast? ≠ some .ellipsis)
    (hdots : ∀ name descent, .literal name descent ∈ spec.components → isDotName name = false)
    (hfits : plan.Fits spec.matcher) (s : Scan) :
    ∃ (results : List String) (s' : Scan),
      (s.start spec).Gives (t.reader d) plan (results.map (plan.answer spec.matcher)) s' ∧
      s'.isFinished ∧
      (∀ n ∈ t.nodes, {shares | IsDivision spec.components n.1.reverse shares}.encard
        = results.count (t.pathOf spec.rootPath n.1)) ∧
      ∀ result ∈ results, ∃ n ∈ t.nodes, result = t.pathOf spec.rootPath n.1 := by
  obtain ⟨parts, hsplit, hcompiled⟩ := PathSpec.exists_parts_of_compile hspec
  have hnames : ∀ name descent, .literal name descent ∈ spec.components →
      Tree.IsEntryName name := by
    intro name descent hmem
    obtain ⟨part, hpart, hcompile⟩ := hcompiled.components _ hmem
    obtain ⟨hempty, rfl⟩ := Component.compile_eq_literal hcompile
    exact ⟨⟨hempty, PathSpec.slash_not_mem_of_split hpath hsplit hpart⟩, hdots _ descent hmem⟩
  have hfound : ∀ p ∈ t.reach spec.components [], p ≠ [] ∧
      spec.matcher.finds (t.pathOf spec.rootPath p) :=
    fun p hp => hcompiled.finds_of_mem_reach hne hlast ht hnewline hp
  obtain ⟨results, s', hperm, hgives, hfinished⟩ :=
    PathSpec.exists_results ht hd hexclude hsort hne hlast hnames hfits
      (fun p hp => (hfound p hp).2) s
  have hplaces : ∀ p ∈ t.reach spec.components [], p ≠ [] ∧ (t.node? p).isSome :=
    fun p hp => ⟨(hfound p hp).1, (Tree.mem_reach rfl hp).1⟩
  refine ⟨results, s', hgives, hfinished, fun n hn => ?_, fun result hresult => ?_⟩
  · obtain ⟨name, parent, hplace, _⟩ := ht.entry n hn
    have hnode : (t.node? n.1).isSome := by
      rw [hplace, Tree.isSome_node?_cons, ← hplace]
      exact List.mem_map_of_mem hn
    have hcount := ht.count_reach spec.components (p := []) n.1.reverse
    rw [List.reverse_reverse, List.append_nil] at hcount
    rw [encard_divisions, hperm.count_eq,
      ht.count_map_pathOf spec hplaces (hplace ▸ List.cons_ne_nil name parent) hnode, hcount hnode]
  · obtain ⟨p, hp, rfl⟩ := List.mem_map.mp (hperm.subset hresult)
    obtain ⟨hne', hnode⟩ := hplaces p hp
    obtain ⟨node, hnode⟩ := Option.isSome_iff_exists.mp hnode
    exact ⟨(p, node), Tree.mem_of_node? hne' hnode, rfl⟩

/-- A name that is met at two depths. -/
theorem Scan.gives_divisions_depths :
    ∃ spec, PathSpec.compile false (.text "a///b") none none false = .ok spec ∧
    ∃ (results : List String) (s' : Scan),
      ((Scan.idle .standard).start spec).Gives
        (Tree.reader ⟨[(["a"], .directory), (["b", "a"], .directory), (["b", "b", "a"], .file)]⟩
          ⟨[], [], true⟩)
        ⟨.breadthFirst, .byName, none, none, false⟩
        (results.map (Plan.answer ⟨.breadthFirst, .byName, none, none, false⟩ spec.matcher)) s' ∧
      s'.isFinished ∧
      (∀ n ∈ [(["a"], Node.directory), (["b", "a"], .directory), (["b", "b", "a"], .file)],
        {shares | IsDivision spec.components (List.reverse n.1) shares}.encard
          = results.count (Tree.pathOf ⟨[(["a"], .directory), (["b", "a"], .directory),
              (["b", "b", "a"], .file)]⟩ spec.rootPath n.1)) ∧
      ∀ result ∈ results,
        ∃ n ∈ [(["a"], Node.directory), (["b", "a"], .directory), (["b", "b", "a"], .file)],
          result = Tree.pathOf ⟨[(["a"], .directory), (["b", "a"], .directory),
            (["b", "b", "a"], .file)]⟩ spec.rootPath n.1 := by
  have hcomponents : ((PathSpec.compile false (.text "a///b") none none false).toOption.map
      (·.components)) = some [.literal "a" false, .ellipsis, .literal "b" false] := by
    decide +kernel
  have ha : Tree.IsEntryName "a" := ⟨⟨by decide, by decide⟩, rfl⟩
  have hb : Tree.IsEntryName "b" := ⟨⟨by decide, by decide⟩, rfl⟩
  have htree : Tree.IsPlain ⟨[(["a"], .directory), (["b", "a"], .directory),
      (["b", "b", "a"], .file)]⟩ := by
    refine ⟨by decide, ?_, by decide⟩
    simp only [List.forall_mem_cons]
    exact ⟨⟨"a", [], rfl, ha, rfl⟩, ⟨"b", ["a"], rfl, hb, by decide⟩,
      ⟨"b", ["b", "a"], rfl, hb, by decide⟩, fun _ h => absurd h List.not_mem_nil⟩
  cases hspec : PathSpec.compile false (.text "a///b") none none false with
  | error problem =>
    rw [hspec] at hcomponents
    cases hcomponents
  | ok spec =>
    rw [hspec] at hcomponents
    have heq : spec.components = [.literal "a" false, .ellipsis, .literal "b" false] :=
      Option.some.inj hcomponents
    refine ⟨spec, rfl, ?_⟩
    have hslash : PathSpec.PathInput.IsSlashFree (.text "a///b") := trivial
    have hexclude : (Plan.mk .breadthFirst .byName none none false).exclude = none := rfl
    refine Scan.gives_divisions htree ?_ ⟨rfl, rfl⟩ hexclude (fun _ h => by cases h) hslash hspec
      ?_ ?_ ?_ (fun _ h => by cases h) _
    · decide
    · rw [heq]
      decide
    · rw [heq]
      decide
    · rw [heq]
      simp [isDotName]

end PathExpansion
