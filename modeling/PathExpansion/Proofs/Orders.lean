import PathExpansion.Proofs.Agenda.Results
import PathExpansion.Proofs.Agenda.Transcript
import PathExpansion.Proofs.Cycles
import PathExpansion.Proofs.Traversal

/-!
# One tree, three orders

The order of a walk decides when an ellipsis gives a directory and when its contents, and a walk
level by level is not even the same recursion.  Nevertheless each component leads from a path to the
same further paths, in one order or another, with the same directories entered on the way there;
what the components behind it find is then the same as well.  Only one thing is left out: level by
level, an ellipsis at the end does not give the directory that it starts at.

* `Trip.step`, `Trip.steps`, `Trip.depths`, **`Trip.leads`** — where a component leads, without
  regard to the order.
* `Trip.filterMap_nested`, `Trip.filterMap_byLevel` — the two recursions for an ellipsis.
* `Trip.Noted` — what is entered below an ellipsis is not noted twice, which is all that identities
  have to do with the order.
* `Trip.filterMap_walk_cons` — what there is of a walk is behind the paths that its first component
  leads to; so it is with its results, `Trip.answersIn_walk_cons`.
* **`Scan.orders_agree`** — the three orders find the same paths.
-/

namespace PathExpansion

/-! ## Results of deeds -/

section

variable {r : Reader} {plan : Plan} {base : Option PathSpec}

@[simp] lemma answersIn_nil : answersIn r plan base [] = [] := rfl

@[simp] lemma answersIn_moved (ds : List Deed) :
    answersIn r plan base (.moved :: ds) = answersIn r plan base ds := rfl

@[simp] lemma answersIn_opened (path : String) (ds : List Deed) :
    answersIn r plan base (.opened path :: ds) = answersIn r plan base ds := rfl

@[simp] lemma answersIn_append (ds ds' : List Deed) :
    answersIn r plan base (ds ++ ds') = answersIn r plan base ds ++ answersIn r plan base ds' :=
  List.filterMap_append

/-- The results depend on the pattern of the construction, not on its components. -/
lemma answersIn_components (spec : PathSpec) (components : List Component) (ds : List Deed) :
    answersIn r plan (some { spec with components := components }) ds
      = answersIn r plan (some spec) ds := by
  refine List.filterMap_congr fun d _ => ?_
  cases d with
  | arrived root path => cases root <;> rfl
  | _ => rfl

end

namespace Trip

/-! ## Where one component leads -/

section

variable (t : Trip)

/-- Where going down by a name leads, if it leads anywhere. -/
def step (name : String) (descent deep : Bool) (path : String) (visited : Visited) :
    List (String × Visited) :=
  (t.extend path visited name descent).toList.filter fun p => isEnterable p.1 || !deep

/-- Where the names of one directory lead that a glob wants. -/
def steps (wanted : String → Bool) (descent deep : Bool) (path : String) (visited : Visited) :
    List (String × Visited) :=
  match t.reader.listed t.plan path with
  | .error _ => []
  | .ok l => (l.names.filter wanted).flatMap fun name => t.step name descent deep path visited

/-- Where the directories of a level lead, and those below them, `n` levels in all. -/
def depths (deep : Bool) : (n : ℕ) → List (String × Visited) → List (String × Visited)
  | 0, _ => []
  | n + 1, dirs =>
    dirs.flatMap (fun d => t.steps (!isDotName ·) true deep d.1 d.2)
      ++ depths deep n (dirs.flatMap t.subdirectories)

/-- **Where one component leads** from a path, whatever comes behind it. -/
def leads (deep : Bool) (c : Component) (path : String) (visited : Visited) :
    List (String × Visited) :=
  match c with
  | .literal name descent => t.step name descent deep path visited
  | .wildcard w => t.steps w.wants w.descent deep path visited
  | .ellipsis =>
    let visited := t.entered path visited
    (path, visited) ::
      t.depths deep (t.reader.extent + 1) (if isEnterable path then [(path, visited)] else [])

end

variable {t : Trip} {r : Reader} {plan : Plan} {base : Option PathSpec} {path : String}
  {visited : Visited}

section

variable {α : Type} {f : Deed → Option α} (hmoved : f .moved = none)

include hmoved

/-- What there is of going down by a name is what there is behind it. -/
lemma filterMap_literal (name : String) (descent deep : Bool) (next : Descent) :
    (t.literal name descent deep next path visited).filterMap f
      = (t.step name descent deep path visited).flatMap fun p => (next p.1 p.2).filterMap f := by
  rw [literal, step, List.filterMap_cons_none hmoved]
  cases t.extend path visited name descent with
  | none => rfl
  | some p =>
    simp only [Option.toList_some, List.filter_cons, List.filter_nil]
    cases isEnterable p.1 <;> cases deep <;> simp

variable (hfailed : ∀ incident, f (.failed incident) = none)

include hfailed

omit hmoved in
lemma filterMap_readFault (fault : Option Fault) :
    (Deed.readFault path fault).filterMap f = [] := by
  cases fault with
  | none => rfl
  | some fault => exact List.filterMap_cons_none (hfailed _)

/-- Going down by each name that a glob wants begins with listing the directory. -/
lemma filterMap_listing (wanted : String → Bool) (descent deep : Bool) (next : Descent) :
    (t.listing wanted (fun name => t.literal name descent deep next) path visited).filterMap f
      = [Deed.opened (orDot path)].filterMap f ++ (t.steps wanted descent deep path visited).flatMap
          fun p => (next p.1 p.2).filterMap f := by
  rw [listing, steps, ← List.singleton_append, List.filterMap_append]
  congr 1
  cases t.reader.listed t.plan path with
  | error fault => exact List.filterMap_cons_none (hfailed _)
  | ok l =>
    simp only [names, List.filterMap_append, filterMap_readFault hfailed, List.filterMap_flatMap,
      List.filterMap_cons_none hmoved, List.filterMap_nil, List.append_nil, List.flatMap_assoc,
      filterMap_literal hmoved]

end

/-- The steps from a directory of a level are the paths found in it. -/
lemma filter_reached (names : List String) (deep : Bool) :
    ((t.reached names path visited).filter fun p => isEnterable p.1 || !deep)
      = (names.filter (!isDotName ·)).flatMap fun name => t.step name true deep path visited := by
  rw [reached, List.filterMap_eq_flatMap_toList, List.filter_flatMap]
  rfl

/-- So does listing a directory of a level. -/
lemma filterMap_visit {α : Type} {f : Deed → Option α} (hmoved : f .moved = none)
    (hfailed : ∀ incident, f (.failed incident) = none) (deep : Bool) (next : Descent)
    (d : String × Visited) :
    (t.visit deep next d).filterMap f
      = [Deed.opened (orDot d.1)].filterMap f ++ (t.steps (!isDotName ·) true deep d.1 d.2).flatMap
          fun p => (next p.1 p.2).filterMap f := by
  rw [visit, steps, ← List.singleton_append, List.filterMap_append]
  congr 1
  cases t.reader.listed t.plan d.1 with
  | error fault => exact List.filterMap_cons_none (hfailed _)
  | ok l =>
    simp only [found, List.filterMap_append, filterMap_readFault hfailed, List.append_nil,
      List.filterMap_flatMap, List.filterMap_cons_none hmoved, filter_reached]

/-- **What there is of levels is what there is behind the paths at all depths**, the directories
that are asked for aside. -/
lemma filterMap_levels {α : Type} {f : Deed → Option α} (hmoved : f .moved = none)
    (hfailed : ∀ incident, f (.failed incident) = none) (hopened : ∀ path, f (.opened path) = none)
    (deep : Bool) (next : Descent) (n : ℕ) (dirs : List (String × Visited)) :
    (t.levels deep next n dirs).filterMap f
      = (t.depths deep n dirs).flatMap fun p => (next p.1 p.2).filterMap f := by
  induction n generalizing dirs with
  | zero => rfl
  | succ n ih =>
    rw [levels, depths, List.filterMap_append, ih, List.flatMap_append, List.filterMap_flatMap,
      List.flatMap_assoc]
    simp only [filterMap_visit hmoved hfailed, List.filterMap_cons_none (hopened _),
      List.filterMap_nil, List.nil_append]

/-- Of the steps from a directory, those are listed in their turn that may be entered. -/
lemma subdirectories_eq (deep : Bool) (d : String × Visited) :
    t.subdirectories d
      = (t.steps (!isDotName ·) true deep d.1 d.2).filter fun p => isEnterable p.1 := by
  rw [subdirectories, steps]
  cases t.reader.listed t.plan d.1 with
  | error fault => rfl
  | ok l =>
    simp only [← filter_reached, directories, List.filter_filter]
    refine List.filter_congr fun p _ => ?_
    cases isEnterable p.1 <;> rfl

/-- The paths at all depths below some directories are those below each of them. -/
lemma depths_perm (deep : Bool) (n : ℕ) (dirs : List (String × Visited)) :
    (t.depths deep n dirs).Perm (dirs.flatMap fun d => t.depths deep n [d]) :=
  perm_of_levels (t.depths deep) (fun _ => rfl) (fun _ _ => rfl) n dirs

@[simp] lemma depths_nil (deep : Bool) (n : ℕ) : t.depths deep n [] = [] := by
  induction n with
  | zero => rfl
  | succ n ih => rw [depths, List.flatMap_nil, List.flatMap_nil, ih, List.append_nil]

/-- **A directory that has just been entered need not be noted again.** -/
def Noted (t : Trip) : Prop :=
  ∀ ⦃path visited name path' visited'⦄, IsName name →
    t.extend path visited name true = some (path', visited') → t.entered path' visited' = visited'

section

variable (hr : t.reader.IsFinite)

include hr

/-- The glob by which an ellipsis goes down wants every entry. -/
lemma steps_anyEntry (ignoreCase descent deep : Bool) :
    t.steps (Wildcard.anyEntry ignoreCase).wants descent deep path visited
      = t.steps (!isDotName ·) descent deep path visited := by
  rw [steps, steps]
  cases hl : t.reader.listed t.plan path with
  | error fault => rfl
  | ok l =>
    simp only
    rw [List.filter_congr fun name hname => ?_]
    rw [Wildcard.wants, Wildcard.anyEntry_accepts ignoreCase (hr.isName hl hname).2, Bool.and_true]

lemma entered_of_mem_steps (hnoted : t.Noted) {wanted : String → Bool} {deep : Bool}
    {p : String × Visited} (hp : p ∈ t.steps wanted true deep path visited) :
    t.entered p.1 p.2 = p.2 := by
  rw [steps] at hp
  cases hl : t.reader.listed t.plan path with
  | error fault => simp [hl] at hp
  | ok l =>
    simp only [hl] at hp
    obtain ⟨name, hname, hp⟩ := List.mem_flatMap.mp hp
    have hextend := Option.mem_toList.mp (List.mem_of_mem_filter hp)
    exact hnoted (hr.isName hl (List.mem_of_mem_filter hname)) hextend

omit hr in
/-- What lies below the steps from a directory lies below its subdirectories. -/
lemma depths_steps (deep : Bool) (n : ℕ) (d : String × Visited) :
    ((t.steps (!isDotName ·) true deep d.1 d.2).flatMap fun p =>
        t.depths deep n (if isEnterable p.1 then [p] else [])).Perm
      (t.depths deep n (t.subdirectories d)) := by
  have hfilter : ∀ ps : List (String × Visited),
      (ps.flatMap fun p => t.depths deep n (if isEnterable p.1 then [p] else []))
        = (ps.filter fun p => isEnterable p.1).flatMap fun p => t.depths deep n [p] := by
    intro ps
    induction ps with
    | nil => rfl
    | cons p ps ih =>
      rw [List.flatMap_cons, ih, List.filter_cons]
      cases isEnterable p.1 with
      | true => rfl
      | false => simp
  rw [hfilter, ← subdirectories_eq]
  exact (depths_perm deep n _).symm

end

/-! ## All components -/

section

variable {α : Type} {f : Deed → Option α} (hmoved : f .moved = none)

include hmoved

/-- What there is of an ellipsis is what there is of its remainder and of the levels below, in some
order. -/
lemma filterMap_combine (next under : Descent) :
    ((t.combine next under path visited).filterMap f).Perm
      ((next path (t.entered path visited)).filterMap f ++
        if isEnterable path then (under path (t.entered path visited)).filterMap f else []) := by
  have hunder : (if isEnterable path then under path (t.entered path visited) else []).filterMap f
      = if isEnterable path then (under path (t.entered path visited)).filterMap f else [] := by
    split <;> rfl
  rw [combine, ← hunder]
  cases t.plan.order with
  | insideOut =>
    simp only [List.cons_append, List.filterMap_cons_none hmoved, List.filterMap_append]
    exact List.perm_append_comm
  | normal | breadthFirst =>
    simp only [List.cons_append, List.filterMap_cons_none hmoved, List.filterMap_append]
    exact List.Perm.refl _

variable (hfailed : ∀ incident, f (.failed incident) = none)
  (hopened : ∀ path, f (.opened path) = none)

include hfailed hopened

/-- **What there is of going down directory by directory is what there is behind the paths at all
depths.** -/
lemma filterMap_nested (hr : t.reader.IsFinite) (hnoted : t.Noted) (deep : Bool) (next : Descent)
    (n : ℕ) (path : String) (visited : Visited) :
    ((t.nested deep next n path visited).filterMap f).Perm
      (((path, t.entered path visited) :: t.depths deep n
        (if isEnterable path then [(path, t.entered path visited)] else [])).flatMap fun p =>
          (next p.1 p.2).filterMap f) := by
  induction n generalizing path visited with
  | zero =>
    refine (filterMap_combine hmoved _ _).trans ?_
    rw [depths, List.flatMap_singleton]
    split <;> simp
  | succ n ih =>
    refine (filterMap_combine hmoved _ _).trans ?_
    rw [List.flatMap_cons]
    refine List.Perm.append_left _ ?_
    cases hpath : isEnterable path with
    | false => simp
    | true =>
      simp only [if_true]
      rw [filterMap_listing hmoved hfailed, List.filterMap_cons_none (hopened _),
        List.filterMap_nil, List.nil_append, steps_anyEntry hr]
      set found := t.steps (!isDotName ·) true deep path (t.entered path visited) with hfound
      have heach : ∀ p ∈ found, ((t.nested deep next n p.1 p.2).filterMap f).Perm
          ((p :: t.depths deep n (if isEnterable p.1 then [p] else [])).flatMap fun p =>
            (next p.1 p.2).filterMap f) := by
        intro p hp
        have hp' := ih p.1 p.2
        rw [entered_of_mem_steps hr hnoted hp] at hp'
        exact hp'
      refine (List.Perm.flatMap_left found heach).trans ?_
      rw [← List.flatMap_assoc]
      refine List.Perm.flatMap_right _ ?_
      have hhere := List.flatMap_append_perm found (fun p => [p]) fun p =>
        t.depths deep n (if isEnterable p.1 then [p] else [])
      rw [List.flatMap_singleton'] at hhere
      rw [depths, List.flatMap_singleton, List.flatMap_singleton]
      exact hhere.symm.trans ((depths_steps deep n (path, t.entered path visited)).append_left _)

/-- **Going level by level it is the same**, but for the path itself if it is to be left out. -/
lemma filterMap_byLevel (deep bare : Bool) (next : Descent) (n : ℕ) (path : String)
    (visited : Visited) :
    (t.byLevel deep bare next n path visited).filterMap f
      = (if bare then [] else (next path (t.entered path visited)).filterMap f) ++
        (t.depths deep n
          (if isEnterable path then [(path, t.entered path visited)] else [])).flatMap
          fun p => (next p.1 p.2).filterMap f := by
  rw [byLevel]
  simp only [List.cons_append, List.filterMap_cons_none hmoved, List.filterMap_append,
    List.filterMap_nil, List.append_nil, filterMap_levels hmoved hfailed hopened]
  cases bare <;> rfl

/-- **What there is of a walk is what there is behind the paths that its first component leads to.**
There is one exception, an ellipsis at the end that goes level by level. -/
lemma filterMap_walk_cons (hr : t.reader.IsFinite) (hnoted : t.Noted) {c : Component}
    {rest : List Component} (hbare : t.plan.order = .breadthFirst → c = .ellipsis → rest ≠ [])
    (path : String) (visited : Visited) :
    ((t.walk (c :: rest) path visited).filterMap f).Perm
      ((t.leads (needsDirectory rest) c path visited).flatMap fun p =>
        (t.walk rest p.1 p.2).filterMap f) := by
  cases c with
  | literal name descent => exact .of_eq (filterMap_literal hmoved name descent _ _)
  | wildcard w =>
    refine .of_eq ((filterMap_listing hmoved hfailed w.wants w.descent _ _).trans ?_)
    rw [List.filterMap_cons_none (hopened _)]
    rfl
  | ellipsis =>
    rw [walk, ellipsis]
    cases horder : t.plan.order with
    | breadthFirst =>
      have hempty : rest.isEmpty = false := by simpa using hbare horder rfl
      simp only [filterMap_byLevel hmoved hfailed hopened, hempty]
      exact .refl _
    | normal | insideOut => exact filterMap_nested hmoved hfailed hopened hr hnoted _ _ _ _ _

end

variable {c : Component} {rest : List Component}

/-- So it is with the results of going level by level, -/
lemma answersIn_byLevel (deep bare : Bool) (next : Descent) (n : ℕ) :
    answersIn r plan base (t.byLevel deep bare next n path visited)
      = (if bare then [] else answersIn r plan base (next path (t.entered path visited))) ++
        (t.depths deep n
          (if isEnterable path then [(path, t.entered path visited)] else [])).flatMap
          fun p => answersIn r plan base (next p.1 p.2) :=
  filterMap_byLevel rfl (fun _ => rfl) (fun _ => rfl) deep bare next n path visited

/-- and with the results of a walk. -/
lemma answersIn_walk_cons (hr : t.reader.IsFinite) (hnoted : t.Noted)
    (hbare : t.plan.order = .breadthFirst → c = .ellipsis → rest ≠ []) (path : String)
    (visited : Visited) :
    (answersIn r plan base (t.walk (c :: rest) path visited)).Perm
      ((t.leads (needsDirectory rest) c path visited).flatMap fun p =>
        answersIn r plan base (t.walk rest p.1 p.2)) :=
  filterMap_walk_cons rfl (fun _ => rfl) (fun _ => rfl) hr hnoted hbare path visited

/-- Such an ellipsis leaves out the path itself. -/
lemma answersIn_walk_bare (r : Reader) (plan : Plan) (base : Option PathSpec)
    (horder : t.plan.order = .breadthFirst) (path : String) (visited : Visited) :
    (t.leads false .ellipsis path visited).flatMap
      (fun p => answersIn r plan base (t.walk [] p.1 p.2))
      = answersIn r plan base (t.walk [] path visited) ++
        answersIn r plan base (t.walk [.ellipsis] path visited) := by
  have hwalk : t.walk [.ellipsis] path visited
      = t.byLevel false true t.arrive (t.reader.extent + 1) path visited := by
    rw [walk, ellipsis, horder]
    rfl
  rw [hwalk, answersIn_byLevel]
  rfl

/-- The same trip in another order. -/
def inOrder (t : Trip) (order : WalkOrder) : Trip :=
  { t with plan := { t.plan with order := order } }

lemma depths_inOrder (order : WalkOrder) (deep : Bool) (n : ℕ) (dirs : List (String × Visited)) :
    (t.inOrder order).depths deep n dirs = t.depths deep n dirs := by
  induction n generalizing dirs with
  | zero => rfl
  | succ n ih =>
    rw [depths, depths, ih]
    rfl

/-- **Where a component leads does not depend on the order.** -/
lemma leads_inOrder (order : WalkOrder) (deep : Bool) :
    (t.inOrder order).leads deep c path visited = t.leads deep c path visited := by
  cases c with
  | ellipsis =>
    rw [leads, leads, depths_inOrder]
    rfl
  | _ => rfl

section

variable (hr : t.reader.IsFinite) (hnoted : t.Noted)

include hr hnoted

lemma answersIn_walk_inOrder {order : WalkOrder}
    (hbare : order = .breadthFirst → c = .ellipsis → rest ≠ []) (path : String)
    (visited : Visited) :
    (answersIn r plan base ((t.inOrder order).walk (c :: rest) path visited)).Perm
      ((t.leads (needsDirectory rest) c path visited).flatMap fun p =>
        answersIn r plan base ((t.inOrder order).walk rest p.1 p.2)) := by
  rw [← leads_inOrder order]
  exact answersIn_walk_cons (t := t.inOrder order) hr hnoted hbare path visited

/-- **Two orders have the same results**, if neither goes level by level or the last component is no
ellipsis. -/
lemma walk_perm_walk {order order' : WalkOrder} {components : List Component}
    (h : components.getLast? = some .ellipsis → order ≠ .breadthFirst ∧ order' ≠ .breadthFirst)
    (path : String) (visited : Visited) :
    (answersIn r plan base ((t.inOrder order).walk components path visited)).Perm
      (answersIn r plan base ((t.inOrder order').walk components path visited)) := by
  induction components generalizing path visited with
  | nil => exact .refl _
  | cons c rest ih =>
    have hlast : c = .ellipsis → rest = [] → order ≠ .breadthFirst ∧ order' ≠ .breadthFirst := by
      rintro rfl rfl
      exact h rfl
    have hrest : rest.getLast? = some .ellipsis →
        order ≠ .breadthFirst ∧ order' ≠ .breadthFirst := by
      intro hellipsis
      refine h ?_
      rw [List.getLast?_cons, hellipsis]
      rfl
    refine (answersIn_walk_inOrder hr hnoted (fun ho hc hnil => (hlast hc hnil).1 ho) _ _).trans ?_
    refine (List.Perm.flatMap_left _ fun p _ => ih hrest p.1 p.2).trans ?_
    exact (answersIn_walk_inOrder hr hnoted (fun ho hc hnil => (hlast hc hnil).2 ho) _ _).symm

omit hr hnoted in
/-- Nothing has to be a directory for an ellipsis at the end. -/
lemma needsDirectory_dropLast {components : List Component}
    (h : components.getLast? = some .ellipsis) :
    needsDirectory components.dropLast = needsDirectory components := by
  obtain ⟨front, rfl⟩ := List.getLast?_eq_some_iff.mp h
  simp [needsDirectory, Component.isEllipsis]

/-- **If the last component is an ellipsis**, the results with a directory before its contents are
those level by level and those of the paths at which that ellipsis starts. -/
lemma walk_perm_bare {components : List Component} (h : components.getLast? = some .ellipsis)
    (path : String) (visited : Visited) :
    (answersIn r plan base ((t.inOrder .normal).walk components path visited)).Perm
      (answersIn r plan base ((t.inOrder .breadthFirst).walk components path visited) ++
        answersIn r plan base ((t.inOrder .normal).walk components.dropLast path visited)) := by
  induction components generalizing path visited with
  | nil => cases h
  | cons c rest ih =>
    refine (answersIn_walk_inOrder hr hnoted (fun ho => by cases ho) _ _).trans ?_
    cases rest with
    | nil =>
      obtain rfl : c = .ellipsis := Option.some.inj h
      have hbare := answersIn_walk_bare (t := t.inOrder .breadthFirst) r plan base rfl path visited
      rw [leads_inOrder] at hbare
      exact (List.Perm.of_eq hbare).trans List.perm_append_comm
    | cons c' rest =>
      rw [List.getLast?_cons_cons] at h
      have hdeep := needsDirectory_dropLast h
      refine (List.Perm.flatMap_left _ fun p _ => ih h p.1 p.2).trans ?_
      refine (List.flatMap_append_perm _ _ _).symm.trans ?_
      rw [List.dropLast_cons_cons]
      refine (answersIn_walk_inOrder hr hnoted (fun _ _ => List.cons_ne_nil _ _) _ _).symm.append ?_
      rw [← hdeep]
      exact (answersIn_walk_inOrder hr hnoted (fun ho => by cases ho) _ _).symm

end

/-- A directory is not noted again if a slash behind its path does not change its identity. -/
lemma noted_of_slash (hslash : ∀ path, t.reader.isDirectory path →
    t.reader.identity (path ++ "/") = t.reader.identity path) : t.Noted := by
  intro path visited name path' visited' hname hextend
  cases henter : isEnterable path' with
  | false =>
    rw [entered, henter, Bool.and_false]
    rfl
  | true =>
    obtain ⟨rfl, hdir, h⟩ := extend_descent hextend (isEnterable_append hname) henter
    cases hfollow : t.follow with
    | false =>
      rw [entered, hfollow]
      rfl
    | true =>
      rw [if_pos hfollow] at h
      obtain ⟨-, rfl⟩ := h
      rw [entered, hfollow, henter, orDot_append_slash, hslash _ hdir, Visited.insert]
      simp

end Trip

/-! ## Scans -/

namespace Scan

/-- The results that a caller gets who goes on after errors until there is nothing left. -/
def Answers (r : Reader) (plan : Plan) (s : Scan) (answers : List Answer) : Prop :=
  ∃ outcomes s', s.Exhausts r plan outcomes s' ∧ s'.isFinished ∧ outcomes.answers = answers

lemma answers_start {r : Reader} {plan : Plan} (hr : r.IsFinite) (hsys : r.FailsBySystem plan)
    (s : Scan) (spec : PathSpec) :
    (s.start spec).Answers r plan (answersIn r plan (some spec)
      ((spec.trip r plan).walk spec.components spec.rootPath [])) := by
  obtain ⟨s', hexhausts, hagenda, hs', _⟩ := exhausts_transcript hr hsys (coherent_start s spec)
  rw [s.agenda_start spec] at hexhausts
  exact ⟨_, s', hexhausts, isFinished_of_agenda hr hsys hs' hagenda, answers_transcript _ _⟩

/-- **The three orders find the same paths**, each as often, whatever links the tree has and
whatever cannot be listed in it.  Level by level, an ellipsis at the end leaves out the paths at
which it starts; they are what the other components find by themselves, since nothing has to be a
directory for an ellipsis. -/
theorem orders_agree {t : Tree} (ht : t.IsNamed) {d : Disturbance} (hd : d.IsSystem) {plan : Plan}
    (hsort : plan.sorting.FailsBySystem) (spec : PathSpec) :
    ∃ (results : WalkOrder → List Answer) (bare : List Answer),
      (∀ order s,
        (start s spec).Answers (t.reader d) { plan with order := order } (results order)) ∧
      (∀ s, (start s { spec with components := spec.components.dropLast }).Answers (t.reader d)
        { plan with order := .normal } bare) ∧
      (results .insideOut).Perm (results .normal) ∧
      (spec.components.getLast? ≠ some .ellipsis →
        (results .breadthFirst).Perm (results .normal)) ∧
      (spec.components.getLast? = some .ellipsis →
        (results .normal).Perm (results .breadthFirst ++ bare)) := by
  have hr : (t.reader d).IsFinite := Tree.reader_isFinite ht d
  have hsys : ∀ order, (t.reader d).FailsBySystem { plan with order := order } := fun _ =>
    Tree.listed_failsBySystem hd hsort
  have hnoted : (spec.trip (t.reader d) plan).Noted :=
    Trip.noted_of_slash fun _ => (t.identifies_reader d).append_slash
  refine ⟨fun order => answersIn (t.reader d) plan (some spec)
      (((spec.trip (t.reader d) plan).inOrder order).walk spec.components spec.rootPath []),
    answersIn (t.reader d) plan (some spec) (((spec.trip (t.reader d) plan).inOrder .normal).walk
      spec.components.dropLast spec.rootPath []),
    fun order s => answers_start hr (hsys order) s spec,
    fun s => ?_, ?_, fun hlast => ?_, fun hlast => ?_⟩
  · have h := answers_start hr (hsys .normal) s { spec with components := spec.components.dropLast }
    rw [answersIn_components] at h
    exact h
  · exact Trip.walk_perm_walk hr hnoted (fun _ => ⟨by decide, by decide⟩) _ _
  · exact Trip.walk_perm_walk hr hnoted (fun h => absurd h hlast) _ _
  · exact Trip.walk_perm_bare hr hnoted hlast _ _

/-- Two ellipses, of which the second starts at each directory with a given name, and a link that
leads back to the root. -/
theorem orders_agree_cycle :
    ∃ (t : Tree) (d : Disturbance) (plan : Plan) (spec : PathSpec),
      t = Tree.ofEntries [.path "a/b/c", .path "b/", .link "a/b/up" "/"] ∧ d = .none ∧
      plan = ⟨.normal, .byName, none, none, false⟩ ∧
      spec = ⟨[.ellipsis, .literal "b" false, .ellipsis], (Wildcard.anyEntry false).pattern, true,
        true⟩ ∧
      ∃ (results : WalkOrder → List Answer) (bare : List Answer),
        (∀ order s,
          (start s spec).Answers (t.reader d) { plan with order := order } (results order)) ∧
        (∀ s, (start s { spec with components := spec.components.dropLast }).Answers (t.reader d)
          { plan with order := .normal } bare) ∧
        (results .insideOut).Perm (results .normal) ∧
        (results .normal).Perm (results .breadthFirst ++ bare) := by
  have hd : Disturbance.none.IsSystem := fun _ h => absurd h List.not_mem_nil
  have hsort : (⟨.normal, .byName, none, none, false⟩ : Plan).sorting.FailsBySystem :=
    fun _ h => by cases h
  obtain ⟨results, bare, hresults, hbare, hinsideOut, _, hlast⟩ :=
    orders_agree (Tree.isNamed_ofEntries [.path "a/b/c", .path "b/", .link "a/b/up" "/"]) hd hsort
      ⟨[.ellipsis, .literal "b" false, .ellipsis], (Wildcard.anyEntry false).pattern, true, true⟩
  exact ⟨_, _, _, _, rfl, rfl, rfl, rfl, results, bare, hresults, hbare, hinsideOut, hlast rfl⟩

end Scan

end PathExpansion
