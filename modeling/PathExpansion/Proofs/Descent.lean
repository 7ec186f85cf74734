import PathExpansion.Proofs.Agenda.Results

/-!
# Descents as recursion

What a scan shows from some path on can be said by recursion on the components that are left.  Three
of the equations are the same in every order of walking; that for an ellipsis is not, and is left to
`IsEnumeration` and `IsLevelOrder`.

* `IsDescent` — the three equations.
* `PathSpec.sightsFrom`, **`PathSpec.isDescent_sightsFrom`** — the walk of a specification satisfies
  them.
* `IsDescent.agree` — where two solutions agree on the rest, they agree on one component more.
-/

namespace PathExpansion

/-- **What is seen of a descent**, but for ellipses: `E path components visited` is what is seen
from `path` on, with `components` left to take and the directories in `visited` entered on the
way. -/
structure IsDescent (r : Reader) (plan : Plan) (spec : PathSpec)
    (E : String → List Component → Visited → List Sight) : Prop where
  /-- With nothing left to take, the path itself, if the pattern accepts it and it exists. -/
  nil : ∀ path visited, E path [] visited
    = if spec.matcher.finds path && r.isPresent path then [.found path] else []
  /-- A name extends the path; nothing comes of a path that is left out, or that cannot be entered
  if something has to be found inside. -/
  literal : ∀ path name descent rest visited, E path (.literal name descent :: rest) visited
    = match (spec.trip r plan).extend path visited name descent with
      | none => []
      | some (path, visited) =>
        if !isEnterable path && needsDirectory rest then [] else E path rest visited
  /-- For a glob the directory is listed; it stands for each of the names that it wants. -/
  wildcard : ∀ path w rest visited, E path (.wildcard w :: rest) visited
    = .listed (orDot path) :: match r.listed plan path with
      | .error _ => []
      | .ok l => (l.names.filter w.wants).flatMap fun name =>
          E path (.literal name w.descent :: rest) visited

variable {r : Reader} {plan : Plan} {spec : PathSpec}

/-- What is seen on the walk of a specification. -/
def PathSpec.sightsFrom (spec : PathSpec) (r : Reader) (plan : Plan) (path : String)
    (components : List Component) (visited : Visited) : List Sight :=
  sightsIn r (some spec) ((spec.trip r plan).walk components path visited)

/-- **What is seen on the walk of a specification is what is seen of a descent.** -/
theorem PathSpec.isDescent_sightsFrom (spec : PathSpec) :
    IsDescent r plan spec (spec.sightsFrom r plan) where
  nil := by
    intro path visited
    have hroot : (spec.trip r plan).root.spec (some spec) = spec := rfl
    rw [sightsFrom, Trip.walk, Trip.arrive, sightsIn, List.filterMap_cons, List.filterMap_nil,
      Deed.sight?, hroot]
    split_ifs <;> rfl
  literal := by
    intro path name descent rest visited
    rw [sightsFrom, Trip.walk, Trip.literal, sightsIn_moved]
    cases (spec.trip r plan).extend path visited name descent with
    | none => rfl
    | some p =>
      simp only
      split_ifs <;> rfl
  wildcard := by
    intro path w rest visited
    have hreader : (spec.trip r plan).reader.listed (spec.trip r plan).plan path
        = r.listed plan path := rfl
    rw [sightsFrom, Trip.walk, Trip.listing, sightsIn_opened, hreader]
    cases r.listed plan path with
    | error fault => rfl
    | ok l =>
      simp only [sightsIn_append, sightsIn_readFault, sightsIn_moved, sightsIn_nil,
        List.append_nil]
      rw [Trip.names, sightsIn_flatMap]
      rfl

section

variable {E F : String → List Component → Visited → List Sight} {rest : List Component}

lemma IsDescent.agree_literal (hE : IsDescent r plan spec E) (hF : IsDescent r plan spec F)
    (hrest : ∀ path visited, E path rest visited = F path rest visited) (path name : String)
    (descent : Bool) (visited : Visited) :
    E path (.literal name descent :: rest) visited
      = F path (.literal name descent :: rest) visited := by
  rw [hE.literal, hF.literal]
  cases (spec.trip r plan).extend path visited name descent with
  | none => rfl
  | some p =>
    simp only
    rw [hrest]

/-- Where two descents agree on the rest, they agree on a name or a glob in front of it. -/
lemma IsDescent.agree (hE : IsDescent r plan spec E) (hF : IsDescent r plan spec F)
    (hrest : ∀ path visited, E path rest visited = F path rest visited) {c : Component}
    (hc : c.isEllipsis = false) (path : String) (visited : Visited) :
    E path (c :: rest) visited = F path (c :: rest) visited := by
  cases c with
  | literal name descent => exact hE.agree_literal hF hrest path name descent visited
  | wildcard w =>
    rw [hE.wildcard, hF.wildcard]
    cases r.listed plan path with
    | error fault => rfl
    | ok l =>
      simp only [hE.agree_literal hF hrest path]
  | ellipsis => cases hc

end

end PathExpansion
