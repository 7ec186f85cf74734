import PathExpansion.Proofs.Descent
import PathExpansion.Proofs.Tree.Finite

/-!
# A scan is a recursive enumeration

The stack of a scan stands for a recursion.  In the orders that go to the bottom first, an ellipsis
is what remains behind it, here, and the same ellipsis under any entry.  With that equation a
descent is a recursion that knows nothing of frames, cursors or interruptions.

* `IsEnumeration` — a descent with the equation for ellipses.
* `IsEnumeration.unique` — there is at most one, because an ellipsis has no room to go down for
  ever.
* `PathSpec.isEnumeration_sightsFrom` — there is one: the walk of a specification.
* **`Scan.shows_enumeration`** — a scan shows what the recursion enumerates.
-/

namespace PathExpansion

/-- **A recursive enumeration**, for the orders that go to the bottom first. -/
structure IsEnumeration (r : Reader) (plan : Plan) (spec : PathSpec)
    (E : String → List Component → Visited → List Sight) : Prop
    extends IsDescent r plan spec E where
  /-- An ellipsis stands for no level and, if the path can be entered, for any entry and the
  ellipsis again; which of them comes first is a matter of the order. -/
  ellipsis : ∀ path rest visited, E path (.ellipsis :: rest) visited
    = let visited := (spec.trip r plan).entered path visited
      let here := E path rest visited
      let below :=
        if isEnterable path then
          E path (.wildcard (.anyEntry plan.ignoreCase) :: .ellipsis :: rest) visited
        else []
      match plan.order with
      | .insideOut => below ++ here
      | _ => here ++ below

section

variable {r : Reader} {plan : Plan} {spec : PathSpec}

/-- **There is an enumeration**: what a descent has to do gives one. -/
theorem PathSpec.isEnumeration_sightsFrom (hr : r.IsFinite) (horder : plan.order ≠ .breadthFirst)
    (spec : PathSpec) : IsEnumeration r plan spec (spec.sightsFrom r plan) where
  toIsDescent := spec.isDescent_sightsFrom
  ellipsis := by
    intro path rest visited
    have hplan : (spec.trip r plan).plan = plan := rfl
    rw [sightsFrom, Trip.walk_ellipsis hr horder, Trip.combine]
    simp only [hplan]
    cases horder' : plan.order with
    | insideOut =>
      simp only [List.cons_append, sightsIn_moved, sightsIn_append]
      split_ifs <;> rfl
    | normal =>
      simp only [List.cons_append, sightsIn_moved, sightsIn_append]
      split_ifs <;> rfl
    | breadthFirst => exact absurd horder' horder

variable {E F : String → List Component → Visited → List Sight}

/-- What is enumerated under an ellipsis matters only if the path can be entered. -/
lemma IsEnumeration.agree_ellipsis (hE : IsEnumeration r plan spec E)
    (hF : IsEnumeration r plan spec F) {rest : List Component} {path : String} {visited : Visited}
    (hrest : ∀ path visited, E path rest visited = F path rest visited)
    (hbelow : isEnterable path →
      E path (.wildcard (.anyEntry plan.ignoreCase) :: .ellipsis :: rest)
          ((spec.trip r plan).entered path visited)
        = F path (.wildcard (.anyEntry plan.ignoreCase) :: .ellipsis :: rest)
          ((spec.trip r plan).entered path visited)) :
    E path (.ellipsis :: rest) visited = F path (.ellipsis :: rest) visited := by
  rw [hE.ellipsis, hF.ellipsis]
  simp only [hrest]
  by_cases hpath : isEnterable path
  · simp only [if_pos hpath, hbelow hpath]
  · simp only [if_neg hpath]

/-- **Two recursive enumerations agree.**  The induction is on the components and, for an ellipsis,
on the room that is left to go down. -/
theorem IsEnumeration.unique (hr : r.IsFinite) (hE : IsEnumeration r plan spec E)
    (hF : IsEnumeration r plan spec F) (components : List Component) (path : String)
    (visited : Visited) : E path components visited = F path components visited := by
  induction components generalizing path visited with
  | nil => rw [hE.nil, hF.nil]
  | cons c rest ih =>
    cases hc : c.isEllipsis with
    | false => exact hE.agree hF.toIsDescent ih hc path visited
    | true =>
      obtain rfl := Component.eq_ellipsis hc
      obtain ⟨room, hroom⟩ := Reader.IsFinite.exists_room (t := spec.trip r plan) hr
      generalize hn : room path visited = n
      induction n using Nat.strong_induction_on generalizing path visited with
      | _ n ihn =>
        have hentered := hroom.entered_le path visited
        set visited' := (spec.trip r plan).entered path visited with hvisited'
        refine hE.agree_ellipsis hF ih fun hpath => ?_
        rw [← hvisited', hE.wildcard, hF.wildcard]
        cases hl : r.listed plan path with
        | error fault => rfl
        | ok l =>
          refine congrArg _ (List.flatMap_congr fun name hname => ?_)
          obtain ⟨hmem, hwanted⟩ := List.mem_filter.mp hname
          have hdot : isDotName name = false := by
            rw [Wildcard.wants, Bool.and_eq_true, Bool.not_eq_true'] at hwanted
            exact hwanted.1
          rw [hE.literal, hF.literal]
          cases hext : (spec.trip r plan).extend path visited' name
              (Wildcard.anyEntry plan.ignoreCase).descent with
          | none => rfl
          | some p =>
            obtain ⟨path₁, visited₁⟩ := p
            -- one level down there is less room, or nothing can be entered
            have hnext : E path₁ (.ellipsis :: rest) visited₁
                = F path₁ (.ellipsis :: rest) visited₁ := by
              by_cases hpath₁ : isEnterable path₁
              · have hless := hroom.extend_lt hpath hl hmem hdot hext hpath₁
                exact ihn (room path₁ visited₁) (by omega) path₁ visited₁ rfl
              · exact hE.agree_ellipsis hF ih fun h => absurd h hpath₁
            simp only [hnext]

end

/-! ## The scan -/

/-- **A scan shows what the recursion enumerates**, whatever links the tree has and whatever cannot
be listed in it: from the start of a specification on, its results are those of the paths that the
recursion finds, in the same order, and it lists the same directories.  There is just one recursion
to speak of. -/
theorem Scan.shows_enumeration {t : Tree} (ht : t.IsNamed) {d : Disturbance} (hd : d.IsSystem)
    {plan : Plan} (horder : plan.order ≠ .breadthFirst) (hsort : plan.sorting.NeverRaises)
    {spec : PathSpec} (hfits : plan.Fits spec.matcher) {s : Scan}
    (hpolicy : s.policy.NeverStops) :
    (∃ E, IsEnumeration (t.reader d) plan spec E) ∧
    ∀ E, IsEnumeration (t.reader d) plan spec E →
      (s.start spec).Shows (t.reader d) plan spec.matcher
        (E spec.rootPath spec.components []) := by
  have hr : (t.reader d).IsFinite := Tree.reader_isFinite ht d
  have hsys : (t.reader d).FailsBySystem plan := Tree.reader_failsBySystem hd hsort
  have hwalk := spec.isEnumeration_sightsFrom hr horder
  refine ⟨⟨_, hwalk⟩, ?_⟩
  intro E hE
  rw [hE.unique hr hwalk]
  exact s.start_shows hr hsys spec hfits (hpolicy.bears _)

/-- A link that leads back to the root, followed in the order that gives contents first. -/
theorem Scan.shows_enumeration_cycle :
    (∃ E, IsEnumeration ((Tree.ofEntries [.path "a/b", .link "a/up" "/"]).reader .none)
      ⟨.insideOut, .byName, none, none, false⟩
      ⟨[.ellipsis, .literal "b" false], (Wildcard.anyEntry false).pattern, true, true⟩ E) ∧
    ∀ E, IsEnumeration ((Tree.ofEntries [.path "a/b", .link "a/up" "/"]).reader .none)
        ⟨.insideOut, .byName, none, none, false⟩
        ⟨[.ellipsis, .literal "b" false], (Wildcard.anyEntry false).pattern, true, true⟩ E →
      ((Scan.idle .standard).start
          ⟨[.ellipsis, .literal "b" false], (Wildcard.anyEntry false).pattern, true, true⟩).Shows
        ((Tree.ofEntries [.path "a/b", .link "a/up" "/"]).reader .none)
        ⟨.insideOut, .byName, none, none, false⟩ (Wildcard.anyEntry false).pattern
        (E "/" [.ellipsis, .literal "b" false] []) :=
  Scan.shows_enumeration (Tree.isNamed_ofEntries _) (fun _ h => absurd h List.not_mem_nil)
    (by decide) (fun _ h => by cases h) (fun _ h => by cases h) (fun _ _ => rfl)

end PathExpansion
