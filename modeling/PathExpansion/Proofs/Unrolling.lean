import Mathlib
import PathExpansion.Proofs.Following

/-!
# An ellipsis unrolled

An ellipsis stands for no level, or for any entry and the ellipsis behind it.  So a path with an
ellipsis among its parts finds what two others find together: the path without that part, and the
path with a star in front of it.  The three are scanned with three patterns, each made from its own
parts, but a scan gives all that it arrives at, so that the patterns are in the way of nothing.

The star is not the glob by which an ellipsis goes down: that one minds links and what has been
entered.  In a tree without links neither makes a difference, but for a part `..` between two
ellipses (`Trip.walk_unfollowing`).

* `Wildcard.star` — the star as a part of a path.
* `Trip.ends`, `Trip.arrivalsIn_walk_perm` — where components lead, and so does a walk.
* `Trip.arrivalsIn_unrolled` — where the three walks arrive, in any order;
  `Trip.arrivalsIn_unrolled_names` — in the order of the walks, behind names only.
* `PathSpec.Yields` — the paths that a scan gives.
* **`PathSpec.yields_unrolled`** — an ellipsis unrolled; `PathSpec.yields_unrolled_return` — a part
  `..`  between two ellipses.
-/

namespace PathExpansion

/-- The star as a part of a path. -/
def Wildcard.star (ignoreCase : Bool) : Wildcard := { anyEntry ignoreCase with descent := false }

lemma Component.compile_star (ignoreCase : Bool) :
    Component.compile ignoreCase "*" = .ok (.wildcard (.star ignoreCase)) := by
  rw [compile, if_neg (by decide), if_pos (by decide), Wildcard.compile, Glob.pattern_star,
    compilePattern, Pattern.compile_anyEntry]
  rfl

/-- What is found at a path and what is found below it, in the order of a walk. -/
def WalkOrder.inTurn {α : Type} (order : WalkOrder) (here below : List α) : List α :=
  match order with
  | .insideOut => below ++ here
  | _ => here ++ below

lemma WalkOrder.inTurn_perm {α : Type} (order : WalkOrder) (here below : List α) :
    (order.inTurn here below).Perm (here ++ below) := by
  cases order with
  | insideOut => exact List.perm_append_comm
  | normal | breadthFirst => exact .refl _

lemma needsDirectory_append {suf : List Component} (hsuf : needsDirectory suf)
    (pre middle : List Component) : needsDirectory (pre ++ (middle ++ suf)) := by
  rw [needsDirectory] at hsuf ⊢
  rw [List.any_append, List.any_append, hsuf, Bool.or_true, Bool.or_true]

/-! ## Walks -/

namespace Trip

section

variable {t : Trip} {path : String} {visited : Visited}

/-- Where components lead, one after the other. -/
def ends (t : Trip) : List Component → String → Visited → List String
  | [], path, _ => [path]
  | c :: rest, path, visited =>
    (t.leads (needsDirectory rest) c path visited).flatMap fun q => ends t rest q.1 q.2

/-- A name leads to one path at most. -/
lemma step_eq (t : Trip) (name : String) (descent deep : Bool) (path : String) (visited : Visited) :
    t.step name descent deep path visited = [] ∨
      ∃ q, t.step name descent deep path visited = [q] := by
  rw [step]
  cases t.extend path visited name descent with
  | none => exact Or.inl rfl
  | some q =>
    rw [Option.toList_some, List.filter_singleton]
    cases isEnterable q.1 || !deep with
    | true => exact Or.inr ⟨q, rfl⟩
    | false => exact Or.inl rfl

/-- With nothing left to take, a walk arrives at its path. -/
lemma arrivalsIn_nil (path : String) (visited : Visited) :
    arrivalsIn t.reader (t.walk [] path visited) = [path].filter t.reader.isPresent := by
  change [Deed.arrived t.root path].filterMap (·.arrival? t.reader) = _
  cases hpresent : t.reader.isPresent path <;> simp [Deed.arrival?, hpresent]

section

variable (hr : t.reader.IsFinite) (horder : t.plan.order ≠ .breadthFirst) (hnoted : t.Noted)

include hr horder hnoted

/-- A walk arrives where it does behind the paths that its first component leads to. -/
lemma arrivalsIn_walk_cons (c : Component) (rest : List Component) (path : String)
    (visited : Visited) :
    (arrivalsIn t.reader (t.walk (c :: rest) path visited)).Perm
      ((t.leads (needsDirectory rest) c path visited).flatMap fun q =>
        arrivalsIn t.reader (t.walk rest q.1 q.2)) :=
  filterMap_walk_cons rfl (fun _ => rfl) (fun _ => rfl) hr hnoted
    (fun hbreadth => absurd hbreadth horder) path visited

/-- **A walk arrives where its components lead**, one after the other, if that exists. -/
theorem arrivalsIn_walk_perm (components : List Component) (path : String) (visited : Visited) :
    (arrivalsIn t.reader (t.walk components path visited)).Perm
      ((t.ends components path visited).filter t.reader.isPresent) := by
  induction components generalizing path visited with
  | nil => exact .of_eq (arrivalsIn_nil path visited)
  | cons c rest ih =>
    rw [ends, List.filter_flatMap]
    refine (arrivalsIn_walk_cons hr horder hnoted c rest path visited).trans ?_
    exact List.Perm.flatMap_left _ fun q _ => ih q.1 q.2

end

lemma arrivalsIn_literal {rest : List Component} (hrest : needsDirectory rest)
    (t : Trip) (r : Reader) (name path : String) (visited : Visited) :
    arrivalsIn r (t.walk (.literal name false :: rest) path visited)
      = (t.step name false true path visited).flatMap fun q =>
          arrivalsIn r (t.walk rest q.1 q.2) := by
  rw [walk, hrest]
  exact filterMap_literal rfl name false true _

end

section

variable {t : Trip} (hfollow : t.follow = false) {path : String} {visited : Visited}

include hfollow

lemma entered_of_not_follow : t.entered path visited = visited := by
  rw [entered, hfollow]
  rfl

/-- Without links, the star leads where the glob leads by which an ellipsis goes down. -/
lemma walk_star (hlinks : ∀ path, t.reader.isLink path = false) (ignoreCase : Bool)
    (rest : List Component) :
    t.walk (.wildcard (.star ignoreCase) :: rest) path visited
      = t.walk (.wildcard (.anyEntry ignoreCase) :: rest) path visited := by
  have hextend : ∀ path visited name,
      t.extend path visited name false = t.extend path visited name true := by
    intro path visited name
    simp [extend, hfollow, hlinks]
  have hliteral : ∀ name, t.literal name false (needsDirectory rest) (t.walk rest)
      = t.literal name true (needsDirectory rest) (t.walk rest) := by
    intro name
    funext path visited
    rw [literal, literal, hextend]
  exact congrArg (fun sub => t.listing (Wildcard.anyEntry ignoreCase).wants sub path visited)
    (funext hliteral)

variable (hr : t.reader.IsFinite) (hlinks : ∀ path, t.reader.isLink path = false)
  (horder : t.plan.order ≠ .breadthFirst) {suf : List Component}

include hr hlinks horder

/-- Where an ellipsis arrives: where its remainder does, and where it does behind a star. -/
lemma arrivalsIn_ellipsis (hpath : isEnterable path) :
    arrivalsIn t.reader (t.walk (.ellipsis :: suf) path visited)
      = t.plan.order.inTurn (arrivalsIn t.reader (t.walk suf path visited))
          (arrivalsIn t.reader (t.walk (.wildcard (.star t.plan.ignoreCase)
            :: .ellipsis :: suf) path visited)) := by
  rw [walk_star hfollow hlinks, walk_ellipsis hr horder, combine, entered_of_not_follow hfollow]
  simp only [hpath, if_true]
  cases horder' : t.plan.order with
  | insideOut =>
    rw [List.cons_append, arrivalsIn_moved, arrivalsIn_append]
    rfl
  | normal =>
    rw [List.cons_append, arrivalsIn_append, arrivalsIn_moved, arrivalsIn_moved]
    rfl
  | breadthFirst => exact absurd horder' horder

/-- **Where a walk arrives with an ellipsis unrolled**, whatever is in front of it. -/
theorem arrivalsIn_unrolled (hsuf : needsDirectory suf) (pre : List Component) {path : String}
    (hpath : isEnterable path) (visited : Visited) :
    (arrivalsIn t.reader (t.walk (pre ++ .ellipsis :: suf) path visited)).Perm
      (arrivalsIn t.reader (t.walk (pre ++ suf) path visited) ++
        arrivalsIn t.reader (t.walk (pre ++ .wildcard (.star t.plan.ignoreCase) :: .ellipsis :: suf)
          path visited)) := by
  induction pre generalizing path visited with
  | nil =>
    simp only [List.nil_append]
    rw [arrivalsIn_ellipsis hfollow hr hlinks horder hpath]
    exact t.plan.order.inTurn_perm _ _
  | cons c pre ih =>
    have hnoted : t.Noted := fun _ _ _ _ _ _ _ => entered_of_not_follow hfollow
    have hcons : ∀ middle,
        (arrivalsIn t.reader (t.walk (c :: (pre ++ (middle ++ suf))) path visited)).Perm
        ((t.leads true c path visited).flatMap fun q =>
          arrivalsIn t.reader (t.walk (pre ++ (middle ++ suf)) q.1 q.2)) := by
      intro middle
      have h := arrivalsIn_walk_cons hr horder hnoted c (pre ++ (middle ++ suf)) path visited
      rwa [needsDirectory_append hsuf pre middle] at h
    refine (hcons [.ellipsis]).trans ?_
    refine (List.Perm.flatMap_left _ fun q hq =>
      ih (isEnterable_of_mem_leads hpath hq) q.2).trans ?_
    refine (List.flatMap_append_perm _ _ _).symm.trans ?_
    exact ((hcons []).append (hcons [.wildcard (.star t.plan.ignoreCase), .ellipsis])).symm

/-- Behind names, the two follow one another as the order has it. -/
theorem arrivalsIn_unrolled_names (hsuf : needsDirectory suf) {pre : List Component}
    (hpre : ∀ c ∈ pre, ∃ name, c = .literal name false) {path : String} (hpath : isEnterable path)
    (visited : Visited) :
    arrivalsIn t.reader (t.walk (pre ++ .ellipsis :: suf) path visited)
      = t.plan.order.inTurn (arrivalsIn t.reader (t.walk (pre ++ suf) path visited))
          (arrivalsIn t.reader (t.walk (pre ++ .wildcard (.star t.plan.ignoreCase)
            :: .ellipsis :: suf) path visited)) := by
  induction pre generalizing path visited with
  | nil => exact arrivalsIn_ellipsis hfollow hr hlinks horder hpath
  | cons c pre ih =>
    rw [List.forall_mem_cons] at hpre
    obtain ⟨⟨name, rfl⟩, hpre⟩ := hpre
    have hcons := fun middle =>
      arrivalsIn_literal (needsDirectory_append hsuf pre middle) t t.reader name path visited
    refine (hcons [.ellipsis]).trans ?_
    refine .trans ?_ (congrArg₂ t.plan.order.inTurn (hcons [])
      (hcons [.wildcard (.star t.plan.ignoreCase), .ellipsis])).symm
    rcases t.step_eq name false true path visited with hstep | ⟨q, hstep⟩
    · rw [hstep]
      cases t.plan.order <;> rfl
    · have hq : q ∈ t.leads true (.literal name false) path visited := by
        rw [leads, hstep]
        exact List.mem_singleton_self q
      rw [hstep]
      simp only [List.flatMap_singleton]
      exact ih hpre (isEnterable_of_mem_leads hpath hq) q.2

end

end Trip

/-! ## Paths in parts -/

lemma Component.text_of_compile {ignoreCase : Bool} {part : String} {c : Component}
    (h : compile ignoreCase part = .ok c) : c.text = part ∧ c.IsFlat := by
  rw [compile] at h
  split_ifs at h with hempty
  · cases h
    exact ⟨hempty.symm, trivial⟩
  · cases hw : Wildcard.compile ignoreCase part false with
    | error problem =>
      rw [hw] at h
      cases h
    | ok w =>
      rw [hw] at h
      cases h
      obtain ⟨p, -, hw⟩ := bind_eq_ok.mp hw
      cases hw
      exact ⟨rfl, rfl⟩
  · cases h
    exact ⟨rfl, rfl⟩

lemma mapM_append_eq_ok {ε α β : Type} {f : α → Except ε β} {xs ys : List α} {zs : List β} :
    (xs ++ ys).mapM f = .ok zs ↔
      ∃ as bs, xs.mapM f = .ok as ∧ ys.mapM f = .ok bs ∧ as ++ bs = zs := by
  simp only [List.mapM_append, bind_eq_ok, pure, Except.pure, Except.ok.injEq, exists_and_left]

namespace PathSpec

/-- A path that is given in parts. -/
def PathInput.ofParts (parts : List String) : PathInput := .presplit (parts.map .text)

lemma textParts_map_text (parts : List String) : textParts (parts.map .text) = .ok parts := by
  induction parts with
  | nil => rfl
  | cons part parts ih =>
    rw [List.map_cons, textParts, ih]
    rfl

lemma PathInput.split_ofParts (parts : List String) (absolute : Bool) :
    (PathInput.ofParts parts).split (some absolute) = .ok (parts, absolute) := by
  rw [ofParts, split, textParts_map_text]
  rfl

lemma PathInput.isSlashFree_ofParts {parts : List String}
    (h : ∀ part ∈ parts, '/' ∉ part.toList) : (PathInput.ofParts parts).IsSlashFree := by
  intro part hpart
  obtain ⟨part', hpart', heq⟩ := List.mem_map.mp hpart
  cases heq
  exact h part hpart'

section

variable {ignoreCase absolute follow : Bool} {parts : List String} {components : List Component}
  {spec : PathSpec}

lemma text_of_mapM_compile (h : parts.mapM (Component.compile ignoreCase) = .ok components) :
    components.map Component.text = parts := by
  induction parts generalizing components with
  | nil =>
    cases h
    rfl
  | cons part parts ih =>
    rw [List.mapM_cons] at h
    obtain ⟨c, hc, h⟩ := bind_eq_ok.mp h
    obtain ⟨cs, hcs, h⟩ := bind_eq_ok.mp h
    cases h
    rw [List.map_cons, ih hcs, (Component.text_of_compile hc).1]

lemma getLast?_ne_of_mapM_compile
    (h : parts.mapM (Component.compile ignoreCase) = .ok components)
    (hlast : parts.getLast? ≠ some "") : components.getLast? ≠ some .ellipsis := by
  intro hellipsis
  rw [← text_of_mapM_compile h, List.getLast?_map, hellipsis] at hlast
  exact hlast rfl

/-- Without an ellipsis at the end, something has to be found inside. -/
lemma needsDirectory_of_mapM_compile
    (h : parts.mapM (Component.compile ignoreCase) = .ok components) (hne : parts ≠ [])
    (hlast : parts.getLast? ≠ some "") : needsDirectory components := by
  have htexts := text_of_mapM_compile h
  refine Trip.needsDirectory_of_getLast? (fun hempty => hne ?_)
    (getLast?_ne_of_mapM_compile h hlast)
  rw [← htexts, hempty]
  rfl

/-- Parts without anything magic are names. -/
lemma exists_literal_of_mapM_compile
    (h : parts.mapM (Component.compile ignoreCase) = .ok components)
    (hnames : ∀ part ∈ parts, part ≠ "" ∧ Glob.hasMagic part = false) :
    ∀ c ∈ components, ∃ name, c = .literal name false := by
  intro c hc
  obtain ⟨part, hpart, hcompile⟩ := exists_of_mapM_compile h c hc
  obtain ⟨hempty, hmagic⟩ := hnames part hpart
  rw [Component.compile, if_neg hempty, if_neg (by rw [hmagic]; simp)] at hcompile
  exact ⟨part, (Except.ok.inj hcompile).symm⟩

/-- What a path in parts is compiled to. -/
lemma of_compile_ofParts
    (h : compile ignoreCase (.ofParts parts) (some absolute) none follow = .ok spec) :
    parts.mapM (Component.compile ignoreCase) = .ok spec.components ∧ spec.absolute = absolute ∧
      spec.follow = follow :=
  of_compile_of_split (PathInput.split_ofParts parts absolute) h

/-- A path in parts can be compiled if its parts can. -/
lemma exists_compile_ofParts (h : parts.mapM (Component.compile ignoreCase) = .ok components)
    (absolute follow : Bool) :
    ∃ spec, compile ignoreCase (.ofParts parts) (some absolute) none follow = .ok spec ∧
      spec.components = components :=
  exists_compile_of_split (PathInput.split_ofParts parts absolute) h follow

/-- With an ellipsis among its parts, a path can be compiled without it, and with a star in front of
it. -/
lemma exists_compile_unrolled {pre suf : List String}
    (h : compile ignoreCase (.ofParts (pre ++ "" :: suf)) (some absolute) none follow = .ok spec) :
    ∃ front rest here below, pre.mapM (Component.compile ignoreCase) = .ok front ∧
      suf.mapM (Component.compile ignoreCase) = .ok rest ∧
      spec.components = front ++ .ellipsis :: rest ∧
      compile ignoreCase (.ofParts (pre ++ suf)) (some absolute) none follow = .ok here ∧
      here.components = front ++ rest ∧
      compile ignoreCase (.ofParts (pre ++ "*" :: "" :: suf)) (some absolute) none follow
        = .ok below ∧
      below.components = front ++ .wildcard (.star ignoreCase) :: .ellipsis :: rest := by
  obtain ⟨front, behind, hfront, hbehind, hcomponents⟩ :=
    mapM_append_eq_ok.mp (of_compile_ofParts h).1
  rw [List.mapM_cons] at hbehind
  obtain ⟨_, hellipsis, hbehind⟩ := bind_eq_ok.mp hbehind
  cases hellipsis
  obtain ⟨rest, hrest, hbehind⟩ := bind_eq_ok.mp hbehind
  cases hbehind
  have hstar : ("*" :: "" :: suf).mapM (Component.compile ignoreCase)
      = .ok (.wildcard (.star ignoreCase) :: .ellipsis :: rest) := by
    rw [List.mapM_cons, Component.compile_star, List.mapM_cons, hrest]
    rfl
  obtain ⟨here, hhere, hhereComponents⟩ := exists_compile_ofParts
    (mapM_append_eq_ok.mpr ⟨_, _, hfront, hrest, rfl⟩) absolute follow
  obtain ⟨below, hbelow, hbelowComponents⟩ := exists_compile_ofParts
    (mapM_append_eq_ok.mpr ⟨_, _, hfront, hstar, rfl⟩) absolute follow
  exact ⟨front, rest, here, below, hfront, hrest, hcomponents.symm, hhere, hhereComponents, hbelow,
    hbelowComponents⟩

end

lemma getLast?_append_of_cons {α : Type} {pre suf : List α} {x : α}
    (h : (pre ++ x :: suf).getLast? ≠ some x) :
    suf ≠ [] ∧ ∀ front : List α, (front ++ suf).getLast? ≠ some x := by
  cases suf with
  | nil => exact absurd (List.getLast?_concat) h
  | cons y ys =>
    refine ⟨List.cons_ne_nil y ys, fun front => ?_⟩
    rw [List.getLast?_append_of_ne_nil _ (List.cons_ne_nil y ys)]
    rwa [List.append_cons, List.getLast?_append_of_ne_nil _ (List.cons_ne_nil y ys)] at h

/-- A star comes between no two ellipses that are not there without it. -/
lemma sublist_of_star {pre suf : List String}
    (h : ["", "..", ""].Sublist (pre ++ "*" :: "" :: suf)) :
    ["", "..", ""].Sublist (pre ++ "" :: suf) := by
  have hkept : ["", "..", ""].filter (· ≠ "*") = ["", "..", ""] := by decide
  have hfilter := h.filter (· ≠ "*")
  have hstar : (pre ++ "*" :: "" :: suf).filter (· ≠ "*")
      = (pre ++ "" :: suf).filter (· ≠ "*") := by
    simp only [List.filter_append, List.filter_cons_of_neg, ne_eq, not_true_eq_false, decide_false,
      Bool.false_eq_true, not_false_eq_true]
  rw [hkept, hstar] at hfilter
  exact hfilter.trans List.filter_sublist

/-! ## Scans -/

/-- **The paths that a scan gives**, whatever has gone before: all of them and no error, each with
the result that the pattern of the specification makes of it. -/
def Yields (r : Reader) (plan : Plan) (spec : PathSpec) (paths : List String) : Prop :=
  plan.Fits spec.matcher → ∀ s : Scan, ∃ s',
    (s.start spec).Gives r plan (paths.map (plan.answer spec.matcher)) s' ∧ s'.isFinished

section

variable {t : Tree} (ht : t.IsPlain) (hnewline : ∀ n ∈ t.nodes, ∀ name ∈ n.1, '\n' ∉ name.toList)
  {d : Disturbance} (hd : d.IsQuiet) {plan : Plan} (hsort : plan.sorting.NeverRaises)
  (horder : plan.order ≠ .breadthFirst) {absolute follow : Bool} {spec : PathSpec}

include ht hnewline hd hsort horder

/-- In a tree without links it is what the walk arrives at that does not follow any. -/
lemma yields_walk {parts : List String} (hslash : ∀ part ∈ parts, '/' ∉ part.toList)
    (hlast : parts.getLast? ≠ some "")
    (hreturn : follow = false ∨ ¬ ["", "..", ""].Sublist parts)
    (hspec : compile plan.ignoreCase (.ofParts parts) (some absolute) none follow = .ok spec) :
    spec.Yields (t.reader d) plan (arrivalsIn (t.reader d) (Trip.walk
      ⟨t.reader d, plan, false, .construction⟩ spec.components (if absolute then "/" else "")
      [])) := by
  obtain ⟨hcomponents, habsolute, hfollow⟩ := of_compile_ofParts hspec
  have hpath := PathInput.isSlashFree_ofParts hslash
  have htexts := text_of_mapM_compile hcomponents
  have hlast' : spec.components.getLast? ≠ some .ellipsis :=
    getLast?_ne_of_mapM_compile hcomponents hlast
  have hflat : ∀ c ∈ spec.components, c.IsFlat := by
    intro c hc
    obtain ⟨part, -, hpart⟩ := exists_of_mapM_compile hcomponents c hc
    exact (Component.text_of_compile hpart).2
  have hwalk : Trip.walk ⟨t.reader d, plan, false, .construction⟩ spec.components spec.rootPath []
      = (spec.trip (t.reader d) plan).walk spec.components spec.rootPath [] := by
    rcases hreturn with rfl | hreturn
    · rw [trip, hfollow]
    · exact Trip.walk_unfollowing (t := spec.trip (t.reader d) plan) ht rfl horder hflat
        (fun name descent hmem => isName_of_compile hpath hspec hmem) hlast'
        (htexts.symm ▸ hreturn) (Or.inl rfl) (t.leadsTo_root spec)
        fun i hi => absurd hi List.not_mem_nil
  intro hfits s
  rw [← habsolute, ← rootPath, hwalk]
  exact gives_arrivals ht.isNamed hnewline hd hsort hpath hspec hlast' hfits s

/-- **An ellipsis unrolled.**  A scan gives, in some order, the paths that two others give: the one
without the ellipsis, and the one with a star in front of it.  If nothing but names is in front of
the ellipsis, the former come first, or last if the contents of a directory do. -/
theorem yields_unrolled (pre suf : List String)
    (hslash : ∀ part ∈ pre ++ "" :: suf, '/' ∉ part.toList)
    (hlast : (pre ++ "" :: suf).getLast? ≠ some "")
    (hreturn : follow = false ∨ ¬ ["", "..", ""].Sublist (pre ++ "" :: suf))
    (hspec : compile plan.ignoreCase (.ofParts (pre ++ "" :: suf)) (some absolute) none follow
      = .ok spec) :
    ∃ here below paths pathsHere pathsBelow,
      compile plan.ignoreCase (.ofParts (pre ++ suf)) (some absolute) none follow = .ok here ∧
      compile plan.ignoreCase (.ofParts (pre ++ "*" :: "" :: suf)) (some absolute) none follow
        = .ok below ∧
      spec.Yields (t.reader d) plan paths ∧ here.Yields (t.reader d) plan pathsHere ∧
      below.Yields (t.reader d) plan pathsBelow ∧ paths.Perm (pathsHere ++ pathsBelow) ∧
      ((∀ part ∈ pre, part ≠ "" ∧ Glob.hasMagic part = false) →
        (plan.order = .normal → paths = pathsHere ++ pathsBelow) ∧
        (plan.order = .insideOut → paths = pathsBelow ++ pathsHere)) := by
  obtain ⟨front, rest, here, below, hfront, hrest, hcomponents, hhere, hhereComponents, hbelow,
    hbelowComponents⟩ := exists_compile_unrolled hspec
  obtain ⟨hsuf, hlast⟩ := getLast?_append_of_cons hlast
  -- what is assumed of the first path holds of the other two
  have hsub : (pre ++ suf).Sublist (pre ++ "" :: suf) :=
    (List.sublist_cons_self "" suf).append_left pre
  have hslashBelow : ∀ part ∈ pre ++ "*" :: "" :: suf, '/' ∉ part.toList := by
    intro part hpart
    by_cases hstar : part = "*"
    · rw [hstar]
      decide
    · exact hslash part (by simpa [hstar] using hpart)
  have hyields := yields_walk ht hnewline hd hsort horder hslash
    (by simpa using hlast (pre ++ [""])) hreturn hspec
  have hyieldsHere := yields_walk ht hnewline hd hsort horder
    (fun part hpart => hslash part (hsub.subset hpart)) (hlast pre)
    (hreturn.imp_right fun h hreturns => h (hreturns.trans hsub)) hhere
  have hyieldsBelow := yields_walk ht hnewline hd hsort horder hslashBelow
    (by simpa using hlast (pre ++ ["*", ""]))
    (hreturn.imp_right fun h hreturns => h (sublist_of_star hreturns)) hbelow
  rw [hcomponents] at hyields
  rw [hhereComponents] at hyieldsHere
  rw [hbelowComponents] at hyieldsBelow
  -- where the three walks arrive
  have hdeep : needsDirectory rest := needsDirectory_of_mapM_compile hrest hsuf (hlast [])
  have hr : (t.reader d).IsFinite := Tree.reader_isFinite ht.isNamed d
  have hpath : isEnterable (if absolute then "/" else "") := by cases absolute <;> rfl
  refine ⟨here, below, _, _, _, hhere, hbelow, hyields, hyieldsHere, hyieldsBelow,
    Trip.arrivalsIn_unrolled (t := ⟨t.reader d, plan, false, .construction⟩) rfl hr
      (fun path => ht.isLinkPath_eq path) horder hdeep front hpath [], fun hpre => ?_⟩
  have hturn := Trip.arrivalsIn_unrolled_names (t := ⟨t.reader d, plan, false, .construction⟩)
    rfl hr (fun path => ht.isLinkPath_eq path) horder hdeep
      (exists_literal_of_mapM_compile hfront hpre)
    hpath []
  refine ⟨fun ho => hturn.trans ?_, fun ho => hturn.trans ?_⟩
  · rw [ho]
    rfl
  · rw [ho]
    rfl

end

/-- Links are followed, and the contents of a directory come first. -/
theorem yields_unrolled_insideOut :
    ∃ (t : Tree) (plan : Plan) (spec here below : PathSpec)
    (paths pathsHere pathsBelow : List String),
      t = ⟨[(["a"], .directory), (["b", "a"], .directory), (["x", "b", "a"], .file)]⟩ ∧
      plan = ⟨.insideOut, .byName, none, none, false⟩ ∧
      compile false (.ofParts ["a", "", "x"]) (some true) none true = .ok spec ∧
      compile false (.ofParts ["a", "x"]) (some true) none true = .ok here ∧
      compile false (.ofParts ["a", "*", "", "x"]) (some true) none true = .ok below ∧
      spec.Yields (t.reader .none) plan paths ∧ here.Yields (t.reader .none) plan pathsHere ∧
      below.Yields (t.reader .none) plan pathsBelow ∧ paths = pathsBelow ++ pathsHere := by
  have hentry : ∀ name ∈ ["a", "b", "x"], Tree.IsEntryName name := by
    simp only [List.forall_mem_cons]
    exact ⟨⟨⟨by decide, by decide⟩, rfl⟩, ⟨⟨by decide, by decide⟩, rfl⟩,
      ⟨⟨by decide, by decide⟩, rfl⟩, fun _ h => absurd h List.not_mem_nil⟩
  have htree : Tree.IsPlain ⟨[(["a"], .directory), (["b", "a"], .directory),
      (["x", "b", "a"], .file)]⟩ := by
    refine ⟨by decide, ?_, by decide⟩
    simp only [List.forall_mem_cons]
    exact ⟨⟨"a", [], rfl, hentry "a" (by simp), rfl⟩,
      ⟨"b", ["a"], rfl, hentry "b" (by simp), by decide⟩,
      ⟨"x", ["b", "a"], rfl, hentry "x" (by simp), by decide⟩, fun _ h => absurd h List.not_mem_nil⟩
  have hsort : (Plan.mk .insideOut .byName none none false).sorting.NeverRaises :=
    fun _ h => by cases h
  obtain ⟨spec, hspec, -⟩ := exists_compile false true (.ofParts ["a", "", "x"]) (some true)
    (fun _ => true) (by decide +kernel)
  obtain ⟨here, below, paths, pathsHere, pathsBelow, hhere, hbelow, hyields, hyieldsHere,
      hyieldsBelow, -, hnames⟩ :=
    yields_unrolled htree (by decide) (d := .none) ⟨rfl, rfl⟩ hsort (by decide) ["a"] ["x"]
      (by decide) (by decide) (Or.inr (by decide)) hspec
  exact ⟨_, _, spec, here, below, paths, pathsHere, pathsBelow, rfl, rfl, hspec, hhere,
    hbelow, hyields, hyieldsHere, hyieldsBelow, (hnames (by decide)).2 rfl⟩

/-- In any tree, a scan gives what its components lead to, in some order. -/
lemma exists_yields {t : Tree} (ht : t.IsNamed)
    (hnewline : ∀ n ∈ t.nodes, ∀ name ∈ n.1, '\n' ∉ name.toList) {d : Disturbance} (hd : d.IsQuiet)
    {plan : Plan} (hsort : plan.sorting.NeverRaises) (horder : plan.order ≠ .breadthFirst)
    {parts : List String} (hslash : ∀ part ∈ parts, '/' ∉ part.toList) {components : List Component}
    (hcomponents : parts.mapM (Component.compile plan.ignoreCase) = .ok components)
    (hlast : components.getLast? ≠ some .ellipsis) (absolute follow : Bool) :
    ∃ spec paths, compile plan.ignoreCase (.ofParts parts) (some absolute) none follow = .ok spec ∧
      spec.Yields (t.reader d) plan paths ∧
      paths.Perm ((Trip.ends ⟨t.reader d, plan, follow, .construction⟩ components
        (if absolute then "/" else "") []).filter (t.reader d).isPresent) := by
  obtain ⟨spec, hspec, rfl⟩ := exists_compile_ofParts hcomponents absolute follow
  obtain ⟨-, rfl, rfl⟩ := of_compile_ofParts hspec
  have hr : (t.reader d).IsFinite := Tree.reader_isFinite ht d
  refine ⟨spec, _, hspec,
    gives_arrivals ht hnewline hd hsort (PathInput.isSlashFree_ofParts hslash) hspec hlast,
    Trip.arrivalsIn_walk_perm (t := spec.trip (t.reader d) plan) hr horder ?_ _ _ _⟩
  exact Trip.noted_of_slash fun _ => (t.identifies_reader d).append_slash

/-- **With links followed, a part `..` between two ellipses is in the way**: behind the first, the
second does not go down again into the directory that the first has entered, though there is no link
at all. -/
theorem yields_unrolled_return :
    ∃ (t : Tree) (plan : Plan) (spec here below : PathSpec),
      t = ⟨[(["d"], .directory), (["x", "d"], .file)]⟩ ∧
      plan = ⟨.normal, .byName, none, none, false⟩ ∧ t.IsPlain ∧
      compile false (.ofParts (["d"] ++ "" :: ["..", "", "x"])) (some false) none true = .ok spec ∧
      compile false (.ofParts (["d"] ++ ["..", "", "x"])) (some false) none true = .ok here ∧
      compile false (.ofParts (["d"] ++ "*" :: "" :: ["..", "", "x"])) (some false) none true
        = .ok below ∧
      spec.Yields (t.reader .none) plan [] ∧ here.Yields (t.reader .none) plan ["d/../d/x"] ∧
      below.Yields (t.reader .none) plan [] ∧
      (∀ matcher, plan.Fits matcher) ∧ ¬ ([] : List String).Perm (["d/../d/x"] ++ []) := by
  set t : Tree := ⟨[(["d"], .directory), (["x", "d"], .file)]⟩ with ht
  set plan : Plan := ⟨.normal, .byName, none, none, false⟩
  have hd : Tree.IsEntryName "d" := ⟨⟨by decide, by decide⟩, rfl⟩
  have hx : Tree.IsEntryName "x" := ⟨⟨by decide, by decide⟩, rfl⟩
  have hplain : t.IsPlain := by
    refine ⟨by decide, ?_, by decide⟩
    simp only [ht, List.forall_mem_cons]
    exact ⟨⟨"d", [], rfl, hd, rfl⟩, ⟨"x", ["d"], rfl, hx, by decide⟩,
      fun _ h => absurd h List.not_mem_nil⟩
  have hnewline : ∀ n ∈ t.nodes, ∀ name ∈ n.1, '\n' ∉ name.toList := by decide
  have hquiet : Disturbance.none.IsQuiet := ⟨rfl, rfl⟩
  have hsort : plan.sorting.NeverRaises := fun _ h => by cases h
  have horder : plan.order ≠ .breadthFirst := by decide
  have hfits : ∀ matcher, plan.Fits matcher := fun _ _ h => by cases h
  -- what the parts of the three paths are compiled to
  have hspec : (["d"] ++ "" :: ["..", "", "x"]).mapM (Component.compile false)
      = .ok [.literal "d" false, .ellipsis, .literal ".." false, .ellipsis, .literal "x" false] :=
    Regex.eq_ok_of_toOption (by decide +kernel)
  have hhere : (["d"] ++ ["..", "", "x"]).mapM (Component.compile false)
      = .ok [.literal "d" false, .literal ".." false, .ellipsis, .literal "x" false] :=
    Regex.eq_ok_of_toOption (by decide +kernel)
  have hbelow : (["d"] ++ "*" :: "" :: ["..", "", "x"]).mapM (Component.compile false)
      = .ok [.literal "d" false, .wildcard (.star false), .ellipsis, .literal ".." false, .ellipsis,
        .literal "x" false] :=
    Regex.eq_ok_of_toOption (by decide +kernel)
  -- and where that leads
  obtain ⟨spec, paths, hspec, hyields, hperm⟩ :=
    exists_yields hplain.isNamed hnewline hquiet hsort horder (by decide) hspec (by decide)
      false true
  obtain ⟨here, pathsHere, hhere, hyieldsHere, hpermHere⟩ :=
    exists_yields hplain.isNamed hnewline hquiet hsort horder (by decide) hhere (by decide)
      false true
  obtain ⟨below, pathsBelow, hbelow, hyieldsBelow, hpermBelow⟩ :=
    exists_yields hplain.isNamed hnewline hquiet hsort horder (by decide) hbelow (by decide)
      false true
  obtain rfl : paths = [] := List.perm_nil.mp (hperm.trans (.of_eq (by cbv)))
  obtain rfl : pathsHere = ["d/../d/x"] :=
    List.perm_singleton.mp (hpermHere.trans (.of_eq (by cbv)))
  obtain rfl : pathsBelow = [] := List.perm_nil.mp (hpermBelow.trans (.of_eq (by cbv)))
  exact ⟨t, plan, spec, here, below, rfl, rfl, hplain, hspec, hhere, hbelow, hyields, hyieldsHere,
    hyieldsBelow, hfits, by decide⟩

end PathSpec

end PathExpansion
