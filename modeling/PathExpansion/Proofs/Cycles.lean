import PathExpansion.Proofs.Agenda.Results
import PathExpansion.Proofs.Agenda.Transcript
import PathExpansion.Proofs.Tree.Finite

/-!
# Links that lead back

An ellipsis puts itself back in front of every directory that it finds, and nothing bounds how deep
it may go.  What stops it are the directories that it has entered already, if links are followed, or
that no link is entered, if they are not.  For the first, two paths of one directory have to be
recognized; nothing else is asked of what a filesystem answers about identity.

* `Tree.Identifies`, **`Tree.Identifies.isFinite`** — such a filesystem is finite.
* `Trip.Spans` — the directories that one ellipsis has entered on the way to a path.
* `Trip.Spans.nodup`, `Trip.Spans.noLinks` — none of them twice, or none through a link.
* `Trip.Lists`, **`Trip.lists_walk`** — every directory that a descent asks for, with those entered
  by the same ellipsis on the way there.
* `Scan.Ends` — a call that comes to something, however long that takes.
* **`Scan.comes_to_end`** — so does every call on a tree, and there are finitely many of them.
-/

namespace PathExpansion

/-! ## Identities -/

namespace Tree

/-- The answers of a tree that tells its directories apart in some other way. -/
def readerBy (t : Tree) (d : Disturbance) (identity : String → Identity) : Reader :=
  { t.reader d with identity := identity }

/-- **Two paths of one directory have the same identity**; nothing more is asked of identities. -/
def Identifies (t : Tree) (identity : String → Identity) : Prop :=
  ∀ ⦃p q : String⦄ ⦃place : Place⦄, t.resolve p = .ok place → t.resolve q = .ok place →
    t.isDirectoryAt place → identity p = identity q

variable {t : Tree} {identity : String → Identity}

/-- The identities that a tree gives itself are of that kind. -/
lemma identifies_reader (t : Tree) (d : Disturbance) : t.Identifies (t.reader d).identity := by
  intro p q place hp hq _
  simp only [reader, hp, hq]

lemma isDirectoryPath_iff {path : String} :
    t.isDirectoryPath path ↔ ∃ place, t.resolve path = .ok place ∧ t.isDirectoryAt place := by
  unfold isDirectoryPath
  cases t.resolve path with
  | ok place => simp
  | error problem => simp

/-- A slash behind a directory does not change its identity. -/
lemma Identifies.append_slash (h : t.Identifies identity) {path : String}
    (hdir : t.isDirectoryPath path) : identity (path ++ "/") = identity path := by
  obtain ⟨place, hplace, hdir⟩ := isDirectoryPath_iff.mp hdir
  exact h (resolve_append_slash hplace hdir) hplace hdir

/-- **Identities that agree on the paths of each directory** are no more than there are places. -/
theorem Identifies.isFinite (h : t.Identifies identity) (ht : t.IsNamed) (d : Disturbance) :
    (t.readerBy d identity).IsFinite where
  name_proper := (reader_isFinite ht d).name_proper
  names_le := (reader_isFinite ht d).names_le
  height := (reader_isFinite ht d).height
  identities := by
    classical
    -- one path for each place is enough to find all identities
    let pathOf : Place → String := fun place =>
      if h : ∃ path, t.resolve path = .ok place then h.choose else ""
    refine ⟨([] :: t.nodes.map (·.1)).map fun place => identity (pathOf place),
      by simp [readerBy, reader], fun {path} hdir => ?_⟩
    obtain ⟨place, hplace, hdir⟩ := isDirectoryPath_iff.mp hdir
    have hex : ∃ path, t.resolve path = .ok place := ⟨path, hplace⟩
    have hpath : t.resolve (pathOf place) = .ok place := by
      simp only [pathOf, dif_pos hex]
      exact hex.choose_spec
    refine List.mem_map.mpr ⟨place, ?_, h hpath hplace hdir⟩
    by_cases hroot : place = []
    · rw [hroot]
      exact List.mem_cons_self
    · exact List.mem_cons_of_mem _
        (List.mem_map.mpr ⟨_, mem_of_node? hroot (beq_iff_eq.mp hdir), rfl⟩)

/-- A slash behind a path does not make it another link. -/
lemma isLinkPath_append_slash (path : String) {name : String} (hname : IsName name) :
    t.isLinkPath (path ++ name ++ "/") = t.isLinkPath (path ++ name) := by
  rw [isLinkPath, isLinkPath, stripSlashes_append_slash path hname, stripSlashes_append path hname]

end Tree

/-! ## Chains -/

namespace Trip

/-- **The directories that one ellipsis enters on the way down**, the last first, and the path that
it has come to: it starts where its turn came, and goes from a directory to a path that a name in it
leads to. -/
inductive Spans (t : Trip) (path : String) (visited : Visited) :
    List String → String → Visited → Prop
  | start : Spans t path visited (if isEnterable path then [path] else []) path
      (t.entered path visited)
  | down {chain : List String} {q q' name : String} {v v' : Visited} {l : Listing}
      (h : Spans t path visited chain q v) (hq : isEnterable q)
      (hl : t.reader.listed t.plan q = .ok l) (hname : name ∈ l.names)
      (hextend : t.extend q v name true = some (q', v')) :
      Spans t path visited (if isEnterable q' then q' :: chain else chain) q' v'
  | noted {chain : List String} {q : String} {v : Visited} (h : Spans t path visited chain q v) :
      Spans t path visited chain q (t.entered q v)

/-- **The directories that a descent lists**, each with those that the same ellipsis has entered on
the way to it; a directory that is listed for a glob stands alone. -/
inductive Lists (t : Trip) : List Component → String → Visited → List String → Prop
  | glob {w : Wildcard} {rest : List Component} {path : String} {visited : Visited} :
      Lists t (.wildcard w :: rest) path visited [path]
  | entry {w : Wildcard} {rest : List Component} {path path' name : String}
      {visited visited' : Visited} {chain : List String}
      (hextend : t.extend path visited name w.descent = some (path', visited'))
      (hrest : Lists t rest path' visited' chain) : Lists t (.wildcard w :: rest) path visited chain
  | literal {name : String} {descent : Bool} {rest : List Component} {path path' : String}
      {visited visited' : Visited} {chain : List String}
      (hextend : t.extend path visited name descent = some (path', visited'))
      (hrest : Lists t rest path' visited' chain) :
      Lists t (.literal name descent :: rest) path visited chain
  | level {rest : List Component} {path q : String} {visited v : Visited} {chain : List String}
      (h : t.Spans path visited (q :: chain) q v) :
      Lists t (.ellipsis :: rest) path visited (q :: chain)
  | beyond {rest : List Component} {path q : String} {visited v : Visited}
      {chain chain' : List String} (h : t.Spans path visited chain' q v)
      (hrest : Lists t rest q v chain) : Lists t (.ellipsis :: rest) path visited chain

variable {t : Trip} {path q : String} {visited v : Visited} {chain : List String}
  {rest : List Component}

/-- A path that may be entered is the last that was. -/
lemma Spans.exists_cons (h : t.Spans path visited chain q v) (hq : isEnterable q) :
    ∃ above, chain = q :: above := by
  induction h with
  | start => exact ⟨[], if_pos hq⟩
  | down h _ _ _ _ _ => exact ⟨_, if_pos hq⟩
  | noted h ih => exact ih hq

/-! ## What is listed -/

/-- What the components behind an ellipsis list, if it has come so far. -/
def ListsBeyond (t : Trip) (rest : List Component) : Prop :=
  ∀ ⦃path visited q⦄, .opened q ∈ t.walk rest path visited →
    ∃ p chain, t.Lists rest path visited (p :: chain) ∧ q = orDot p

/-- Going on behind an ellipsis. -/
lemma ListsBeyond.lists (hrest : t.ListsBeyond rest) {p : String}
    (h : t.Spans path visited chain p v) (hq : .opened q ∈ t.walk rest p v) :
    ∃ p chain, t.Lists (.ellipsis :: rest) path visited (p :: chain) ∧ q = orDot p := by
  obtain ⟨p', chain', hlists, rfl⟩ := hrest hq
  exact ⟨p', chain', .beyond h hlists, rfl⟩

/-- What one directory gives leads one level further down. -/
lemma Spans.reached {p : String} {l : Listing}
    (h : t.Spans path visited chain p v) (hp : isEnterable p)
    (hl : t.reader.listed t.plan p = .ok l) {found : String × Visited}
    (hfound : found ∈ t.reached l.names p v) :
    ∃ chain, t.Spans path visited chain found.1 found.2 := by
  obtain ⟨name, hname, hextend⟩ := List.mem_filterMap.mp hfound
  exact ⟨_, h.down hp hl (List.mem_of_mem_filter hname) hextend⟩

section

variable {next : Descent} {deep : Bool} {p : String}

lemma opened_not_mem_readFault (fault : Option Fault) : .opened q ∉ Deed.readFault p fault := by
  cases fault <;> simp [Deed.readFault]

lemma opened_literal {name : String} {descent : Bool}
    (h : .opened q ∈ t.literal name descent deep next p v) :
    ∃ p' v', t.extend p v name descent = some (p', v') ∧ .opened q ∈ next p' v' := by
  rw [literal] at h
  cases hextend : t.extend p v name descent with
  | none => simp [hextend] at h
  | some found =>
    obtain ⟨p', v'⟩ := found
    refine ⟨p', v', rfl, ?_⟩
    simp only [hextend] at h
    split at h
    · simp at h
    · simpa using h

lemma opened_listing {wanted : String → Bool} {next : String → Descent}
    (h : .opened q ∈ t.listing wanted next p v) :
    q = orDot p ∨ ∃ l, t.reader.listed t.plan p = .ok l ∧
      ∃ name ∈ l.names, .opened q ∈ next name p v := by
  rw [listing] at h
  rcases List.mem_cons.mp h with h | h
  · exact Or.inl (Deed.opened.inj h)
  · cases hl : t.reader.listed t.plan p with
    | error fault => simp [hl, Deed.openFault] at h
    | ok l =>
      simp only [hl, List.mem_append, opened_not_mem_readFault, or_false] at h
      rcases h with h | h
      · obtain ⟨name, hname, h⟩ := List.mem_flatMap.mp h
        refine Or.inr ⟨l, rfl, name, List.mem_of_mem_filter hname, ?_⟩
        simpa using h
      · simp at h

lemma opened_visit {d : String × Visited} (h : .opened q ∈ t.visit deep next d) :
    q = orDot d.1 ∨ ∃ l, t.reader.listed t.plan d.1 = .ok l ∧
      ∃ found ∈ t.reached l.names d.1 d.2, .opened q ∈ next found.1 found.2 := by
  rw [visit] at h
  rcases List.mem_cons.mp h with h | h
  · exact Or.inl (Deed.opened.inj h)
  · cases hl : t.reader.listed t.plan d.1 with
    | error fault => simp [hl, Deed.openFault] at h
    | ok l =>
      simp only [hl, List.mem_append, opened_not_mem_readFault, or_false] at h
      obtain ⟨found, hfound, h⟩ := List.mem_flatMap.mp h
      refine Or.inr ⟨l, rfl, found, List.mem_of_mem_filter hfound, ?_⟩
      simpa using h

lemma opened_combine {under : Descent} (h : .opened q ∈ t.combine next under p v) :
    .opened q ∈ next p (t.entered p v) ∨
      isEnterable p ∧ .opened q ∈ under p (t.entered p v) := by
  rw [combine] at h
  have hparts : .opened q ∈ next p (t.entered p v) ∨
      .opened q ∈ if isEnterable p then under p (t.entered p v) else [] := by
    cases horder : t.plan.order with
    | insideOut =>
      simp only [horder, List.cons_append, List.mem_cons, List.mem_append, reduceCtorEq,
        false_or] at h
      exact h.symm
    | normal | breadthFirst =>
      simpa only [horder, List.cons_append, List.mem_cons, List.mem_append, reduceCtorEq,
        false_or] using h
  refine hparts.imp_right fun h => ?_
  split at h
  · next henter => exact ⟨henter, h⟩
  · cases h

end

lemma lists_nested (hrest : t.ListsBeyond rest) (deep : Bool) (n : ℕ) {p : String}
    (h : t.Spans path visited chain p (t.entered p v))
    (hq : .opened q ∈ t.nested deep (t.walk rest) n p v) :
    ∃ p chain, t.Lists (.ellipsis :: rest) path visited (p :: chain) ∧ q = orDot p := by
  induction n generalizing chain p v with
  | zero =>
    rcases opened_combine hq with hq | ⟨_, hq⟩
    · exact hrest.lists h hq
    · cases hq
  | succ n ih =>
    rcases opened_combine hq with hq | ⟨henter, hq⟩
    · exact hrest.lists h hq
    · rcases opened_listing hq with rfl | ⟨l, hl, name, hname, hq⟩
      · obtain ⟨above, rfl⟩ := h.exists_cons henter
        exact ⟨p, above, .level h, rfl⟩
      · obtain ⟨p', v', hextend, hq⟩ := opened_literal hq
        exact ih (h.down henter hl hname hextend).noted hq

lemma lists_levels (hrest : t.ListsBeyond rest) (deep : Bool) (n : ℕ)
    {dirs : List (String × Visited)}
    (h : ∀ d ∈ dirs, isEnterable d.1 ∧ ∃ chain, t.Spans path visited chain d.1 d.2)
    (hq : .opened q ∈ t.levels deep (t.walk rest) n dirs) :
    ∃ p chain, t.Lists (.ellipsis :: rest) path visited (p :: chain) ∧ q = orDot p := by
  induction n generalizing dirs with
  | zero => cases hq
  | succ n ih =>
    rw [levels] at hq
    rcases List.mem_append.mp hq with hq | hq
    · obtain ⟨d, hd, hq⟩ := List.mem_flatMap.mp hq
      obtain ⟨henter, chain, hspans⟩ := h d hd
      rcases opened_visit hq with rfl | ⟨l, hl, found, hfound, hq⟩
      · obtain ⟨above, rfl⟩ := hspans.exists_cons henter
        exact ⟨d.1, above, .level hspans, rfl⟩
      · obtain ⟨chain', hspans'⟩ := hspans.reached henter hl hfound
        exact hrest.lists hspans' hq
    · refine ih (fun d hd => ?_) hq
      obtain ⟨parent, hparent, hd⟩ := List.mem_flatMap.mp hd
      obtain ⟨henter, chain, hspans⟩ := h parent hparent
      rw [subdirectories] at hd
      split at hd
      · cases hd
      · next l hl =>
        obtain ⟨hreached, hd⟩ := List.mem_filter.mp hd
        exact ⟨hd, hspans.reached henter hl hreached⟩

lemma lists_byLevel (hrest : t.ListsBeyond rest) (deep : Bool) (n : ℕ)
    (hq : .opened q ∈ t.byLevel deep rest.isEmpty (t.walk rest) n path visited) :
    ∃ p chain, t.Lists (.ellipsis :: rest) path visited (p :: chain) ∧ q = orDot p := by
  have hstart : t.Spans path visited _ path (t.entered path visited) := .start
  rw [byLevel] at hq
  simp only [List.mem_append, List.mem_cons, List.not_mem_nil, or_false, reduceCtorEq,
    false_or] at hq
  rcases hq with hq | hq
  · cases hrest' : rest.isEmpty with
    | true => simp [hrest'] at hq
    | false => exact hrest.lists hstart (by simpa [hrest'] using hq)
  · refine lists_levels hrest deep n (fun d hd => ?_) hq
    split at hd
    · next henter =>
      rw [List.mem_singleton.mp hd]
      exact ⟨henter, _, hstart⟩
    · cases hd

/-- **Every directory that a descent asks for is listed for a glob or entered by an ellipsis.** -/
theorem lists_walk (rest : List Component) : t.ListsBeyond rest := by
  induction rest with
  | nil => exact fun path visited q hq => by simp [walk, arrive] at hq
  | cons c rest ih =>
    intro path visited q hq
    cases c with
    | literal name descent =>
      obtain ⟨p', v', hextend, hq⟩ := opened_literal hq
      obtain ⟨p, chain, hlists, rfl⟩ := ih hq
      exact ⟨p, chain, .literal hextend hlists, rfl⟩
    | wildcard w =>
      rcases opened_listing hq with rfl | ⟨l, hl, name, hname, hq⟩
      · exact ⟨path, [], .glob, rfl⟩
      · obtain ⟨p', v', hextend, hq⟩ := opened_literal hq
        obtain ⟨p, chain, hlists, rfl⟩ := ih hq
        exact ⟨p, chain, .entry hextend hlists, rfl⟩
    | ellipsis =>
      rw [walk, ellipsis] at hq
      cases horder : t.plan.order with
      | breadthFirst => exact lists_byLevel ih _ _ (by simpa only [horder] using hq)
      | normal | insideOut => exact lists_nested ih _ _ .start (by simpa only [horder] using hq)

/-! ## What is met on the way -/

/-- Nothing that was entered is forgotten. -/
lemma subset_of_extend {p p' name : String} {descent : Bool} {v v' : Visited}
    (h : t.extend p v name descent = some (p', v')) : ∀ i ∈ v, i ∈ v' := by
  intro i hi
  have hmem : v' = v ∨ v' = v.insert (t.reader.identity (p ++ name)) := by
    simp only [extend] at h
    split_ifs at h
    all_goals
      obtain ⟨-, rfl⟩ := Prod.mk.inj (Option.some.inj h)
      simp
  rcases hmem with rfl | rfl
  · exact hi
  · exact Visited.mem_insert.mpr (Or.inr hi)

lemma orDot_append_slash (path : String) : orDot (path ++ "/") = path ++ "/" := by
  refine if_neg fun h => ?_
  have := congrArg String.length h
  simp at this

section

variable (hr : t.reader.IsFinite)

include hr

/-- **No directory is entered twice on the way down**, by its identity, if links are followed. -/
lemma Spans.nodup (hslash : ∀ path, t.reader.isDirectory path →
      t.reader.identity (path ++ "/") = t.reader.identity path) (hfollow : t.follow)
    (h : t.Spans path visited chain q v) :
    (chain.map fun p => t.reader.identity (orDot p)).Nodup ∧
      ∀ p ∈ chain, t.reader.identity (orDot p) ∈ v := by
  induction h with
  | start =>
    split
    · next henter =>
      refine ⟨by simp, List.forall_mem_singleton.mpr ?_⟩
      rw [entered, hfollow, henter]
      exact Visited.mem_insert.mpr (Or.inl rfl)
    · exact ⟨List.nodup_nil, fun _ hp => absurd hp List.not_mem_nil⟩
  | @down chain q q' name v v' l _ hq hl hname hextend ih =>
    obtain ⟨hnodup, hmem⟩ := ih
    have hkept : ∀ p ∈ chain, t.reader.identity (orDot p) ∈ v' := fun p hp =>
      subset_of_extend hextend _ (hmem p hp)
    split
    · next henter =>
      obtain ⟨rfl, hdir, hnew⟩ := extend_descent hextend (hr.isEnterable_append hl hname) henter
      rw [if_pos hfollow] at hnew
      obtain ⟨hnew, rfl⟩ := hnew
      have hidentity : t.reader.identity (orDot (q ++ name ++ "/"))
          = t.reader.identity (q ++ name) := by
        rw [orDot_append_slash, hslash _ hdir]
      refine ⟨List.nodup_cons.mpr ⟨fun hp => ?_, hnodup⟩, List.forall_mem_cons.mpr ⟨?_, hkept⟩⟩
      · obtain ⟨p, hp, heq⟩ := List.mem_map.mp hp
        exact hnew ((heq.trans hidentity) ▸ hmem p hp)
      · rw [hidentity]
        exact List.mem_cons_self
    · exact ⟨hnodup, hkept⟩
  | noted _ ih =>
    refine ⟨ih.1, fun p hp => ?_⟩
    rw [entered]
    split
    · exact Visited.mem_insert.mpr (Or.inr (ih.2 p hp))
    · exact ih.2 p hp

/-- **No link is entered below the directory that an ellipsis starts at**, if links are not
followed. -/
lemma Spans.noLinks (hslash : ∀ path name, IsName name →
      t.reader.isLink (path ++ name ++ "/") = t.reader.isLink (path ++ name))
    (hfollow : t.follow = false)
    (h : t.Spans path visited chain q v) :
    ∀ p ∈ chain.dropLast, t.reader.isLink p = false := by
  induction h with
  | start =>
    split <;> exact fun _ hp => absurd hp List.not_mem_nil
  | @down chain q q' name v v' l h hq hl hname hextend ih =>
    split
    · next henter =>
      obtain ⟨rfl, _, hnolink⟩ := extend_descent hextend (hr.isEnterable_append hl hname) henter
      rw [if_neg (by rw [hfollow]; exact Bool.false_ne_true)] at hnolink
      obtain ⟨above, rfl⟩ := h.exists_cons hq
      rw [List.dropLast_cons_of_ne_nil (List.cons_ne_nil _ _)]
      refine List.forall_mem_cons.mpr ⟨?_, ih⟩
      rw [hslash _ _ (hr.isName hl hname)]
      exact hnolink.2
    · exact ih
  | noted _ ih => exact ih

end

/-- What holds of the directories that each ellipsis enters holds of those that a descent lists. -/
lemma Lists.of_spans (property : List String → Prop) (hglob : ∀ path, property [path])
    (hspans : ∀ {path visited chain q v}, t.Spans path visited chain q v → property chain)
    (h : t.Lists rest path visited chain) : property chain := by
  induction h with
  | glob => exact hglob _
  | entry _ _ ih => exact ih
  | literal _ _ ih => exact ih
  | level h => exact hspans h
  | beyond _ _ ih => exact ih

end Trip

/-! ## The end of a scan -/

namespace Scan

section

variable {r : Reader} {plan : Plan} {s : Scan}

/-- **A call ends**: it answers what repeating steps without a bound comes to. -/
def Ends (r : Reader) (plan : Plan) (s : Scan) : Prop :=
  (s.advance r plan).2 ≠ .unfinished ∧
    ∃ n, repeatTimes (towardsNext r plan) n s = .inr (s.advance r plan)

/-- The scan after so many calls, each of which may have raised an error. -/
def advanced (r : Reader) (plan : Plan) (s : Scan) (k : ℕ) : Scan :=
  (fun s => (s.advance r plan).1)^[k] s

lemma ends_of_coherent (hr : r.IsFinite) (hsys : r.FailsBySystem plan) (hs : s.Coherent plan) :
    s.Ends r plan := by
  obtain ⟨hrepeat, hcalled⟩ := advance_called hr hsys hs
  refine ⟨?_, hrepeat⟩
  rw [hcalled.outcome]
  cases (perform r plan s.base (s.agenda r plan) s.ledger).2.1 <;> exact fun h => by cases h

lemma Coherent.advanced (hr : r.IsFinite) (hsys : r.FailsBySystem plan) (hs : s.Coherent plan)
    (k : ℕ) : (s.advanced r plan k).Coherent plan := by
  induction k with
  | zero => exact hs
  | succ k ih =>
    rw [Scan.advanced, Function.iterate_succ_apply']
    exact (advance_spec hr hsys ih).coherent

end

variable {t : Tree} {d : Disturbance} {identity : String → Identity} {plan : Plan}

/-- **Every scan of a tree comes to an end**, wherever the links in it lead and whatever the policy
does: each call ends, and after finitely many there is nothing left.  The directories that were
asked for in between are those that the specification lists; below one ellipsis, none is entered
twice if links are followed, and none through a link if not. -/
theorem comes_to_end (ht : t.IsNamed) (hd : d.IsSystem) (hid : t.Identifies identity)
    (hsort : plan.sorting.FailsBySystem) (s : Scan) (spec : PathSpec) :
    (∀ k, ((s.start spec).advanced (t.readerBy d identity) plan k).Ends (t.readerBy d identity)
      plan) ∧
    (∃ outcomes s', (s.start spec).Exhausts (t.readerBy d identity) plan outcomes s' ∧
      s'.isFinished ∧ ∃ asked, s'.ledger.opened = asked ++ s.ledger.opened ∧
        ∀ q ∈ asked, ∃ p chain, (spec.trip (t.readerBy d identity) plan).Lists spec.components
          spec.rootPath [] (p :: chain) ∧ q = orDot p) ∧
    ∀ chain, (spec.trip (t.readerBy d identity) plan).Lists spec.components spec.rootPath [] chain →
      (spec.follow → (chain.map fun p => identity (orDot p)).Nodup) ∧
      (spec.follow = false → ∀ p ∈ chain.dropLast, t.isLinkPath p = false) := by
  have hr : (t.readerBy d identity).IsFinite := hid.isFinite ht d
  have hsys : (t.readerBy d identity).FailsBySystem plan := Tree.listed_failsBySystem hd hsort
  have hs : (s.start spec).Coherent plan := coherent_start s spec
  refine ⟨fun k => ends_of_coherent hr hsys (hs.advanced hr hsys k), ?_, fun chain h => ⟨?_, ?_⟩⟩
  · obtain ⟨s', hexhausts, hagenda, hs', hledger⟩ := exhausts_transcript hr hsys hs
    have hopened := congrArg Ledger.opened hledger
    rw [opened_after, s.agenda_start spec] at hopened
    refine ⟨_, s', hexhausts, isFinished_of_agenda hr hsys hs' hagenda, _, hopened, fun q hq => ?_⟩
    obtain ⟨deed, hdeed, hasked⟩ := List.mem_filterMap.mp (List.mem_reverse.mp hq)
    cases deed with
    | opened path =>
      cases hasked
      exact Trip.lists_walk spec.components ((List.mem_cons.mp hdeed).resolve_left Deed.noConfusion)
    | _ => cases hasked
  · intro hfollow
    exact h.of_spans (fun chain => (chain.map fun p => identity (orDot p)).Nodup) (fun _ => by simp)
      fun hspans => (hspans.nodup hr (fun _ => hid.append_slash) hfollow).1
  · intro hfollow
    exact h.of_spans (fun chain => ∀ p ∈ chain.dropLast, t.isLinkPath p = false)
      (fun _ _ hp => absurd hp List.not_mem_nil) fun hspans => hspans.noLinks hr
        (fun path name hname => Tree.isLinkPath_append_slash path hname) hfollow

/-- A link to itself and one that leads back up, followed level by level, with a directory that
cannot be opened and a policy that stops there. -/
theorem comes_to_end_cycle :
    ∃ t d spec s,
      t = Tree.ofEntries [.path "a/b/c", .path "a/e/", .link "a/b/up" "/a", .link "d" "d"] ∧
      d = ⟨[("a/e", .permission)], [], false⟩ ∧
      spec = ⟨[.ellipsis], (Wildcard.anyEntry false).pattern, true, true⟩ ∧
      s = idle (.fresh .failFast) ∧
      ∃ r plan, r = t.readerBy d (t.reader d).identity ∧
        plan = ⟨.breadthFirst, .byName, none, none, false⟩ ∧
        (∀ k, ((s.start spec).advanced r plan k).Ends r plan) ∧
        (∃ outcomes s', (s.start spec).Exhausts r plan outcomes s' ∧ s'.isFinished ∧
          ∃ asked, s'.ledger.opened = asked ++ s.ledger.opened ∧ ∀ q ∈ asked, ∃ p chain,
            (spec.trip r plan).Lists spec.components spec.rootPath [] (p :: chain) ∧ q = orDot p) ∧
        ∀ chain, (spec.trip r plan).Lists spec.components spec.rootPath [] chain →
          (spec.follow → (chain.map fun p => r.identity (orDot p)).Nodup) ∧
          (spec.follow = false → ∀ p ∈ chain.dropLast, t.isLinkPath p = false) := by
  have hd : Disturbance.IsSystem ⟨[("a/e", .permission)], [], false⟩ :=
    List.forall_mem_singleton.mpr rfl
  exact ⟨_, _, _, _, rfl, rfl, rfl, rfl, _, _, rfl, rfl, comes_to_end (Tree.isNamed_ofEntries _) hd
    (Tree.identifies_reader _ _) (fun _ h => by cases h) _ _⟩

end Scan

end PathExpansion
