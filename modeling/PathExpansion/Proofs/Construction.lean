import PathExpansion.Expansion
import PathExpansion.Proofs.Templates
import PathExpansion.Proofs.WholePath

/-!
# Setting up

Options are looked at before anything is made of them, so that an expansion is set up completely or
not at all, and an error says what is wrong with the options.  Some things are not looked for:
whether templates, and a path that is no text, can be gone through; whether a part of a path that is
no text can be shown; whether a pattern stays within the limits of patterns; and whether the
numerals of a template are short enough.  There the error is the one that is met on the way.  Nor
can an expansion be given to itself.

Setting up goes step by step, and of each step there is one lemma that says which errors it has.
How deep patterns and data may be nested is not among the limits: where an implementation goes into
them by recursion, its stack is a further one.

* `CompileProblem.isReported`, `SetupError.isReported` — the errors of setting up, as against those
  met on the way.
* `Options.SetsUp` — what an expansion is that is set up from options.
* `Options.Escapes`, `Expansion.Escapes` — what is not looked for, and the error that it leads to.
* `Options.problems_eq_error`, `Options.pathSpec_eq_error`, `Options.plan_eq_error` — the errors of
  the steps.
* **`Expansion.create_reports`** — what setting up comes to; `Expansion.create_escapes` — what
  escapes.
-/

namespace PathExpansion

/-! ## What is reported -/

/-- The problem is reported as one with a path or a pattern; others are met by what a path or a
pattern is handed to, or in the making of the report. -/
def CompileProblem.isReported : CompileProblem → Bool
  | .path (.indivisible _) | .path .partTooLong | .pattern _ (.beyond _) => false
  | _ => true

/-- The error says that an expansion cannot be set up; others are met on the way. -/
def SetupError.isReported : SetupError → Bool
  | .option _ | .invalid _ => true
  | .compile problem => problem.isReported
  | .type _ | .template _ => false

namespace Options

/-- **An expansion that is set up from options**: nothing is wrong with them, and all that is made
of them is there.  Patterns are those that `Pattern.compile` accepts, which knows no character by
its name. -/
structure SetsUp (o : Options) (e : Expansion) : Prop where
  unproblematic : o.problems = .ok []
  options : e.options = o
  ignoreCase : o.ignoreCase = .ok e.plan.ignoreCase
  order : o.order.toOrder? = some e.plan.order
  sorting : e.plan.sorting = o.sorting
  exclude : o.excludePattern e.plan.ignoreCase = .ok e.plan.exclude
  templates : o.templates = .ok e.plan.templates
  scan : ∃ spec, o.pathSpec e.plan.ignoreCase = .ok spec ∧
    e.scan = (Scan.idle o.errorPolicy).start spec

/-- A pattern that is made from options: the one of results, the one of paths that are left out, or
one of a glob in the path. -/
inductive Spells (o : Options) : String → Prop
  | matching {source : String} (h : o.matching = .datum (.text source)) : Spells o source
  | exclude {source : String} (h : o.exclude = .datum (.text source)) : Spells o source
  | glob {parts : List String} {rooted : Bool} {part : String}
      (hsplit : o.path.toPathInput.split o.absolute.truth? = .ok (parts, rooted))
      (hpart : part ∈ parts) (hmagic : Glob.hasMagic part) : Spells o (Glob.pattern part)

/-- **What is wrong with options and not looked for**, with the error that it leads to: templates or
a path that cannot be gone through, a first part of a path that is no text and cannot be shown, a
pattern beyond a limit, and a template with a numeral that is too long. -/
inductive Escapes (o : Options) : SetupError → Prop
  | derive (hgiven : o.derive.isNothing = false) (hnone : o.derive.elements? = none) :
      Escapes o (.type (.notIterable o.derive.fullTypeName))
  | path (hgiven : o.path.isNothing = false) (hnone : o.path.elements? = none)
      (habsolute : o.absolute.isNothing = false) :
      Escapes o (.compile (.path (.indivisible o.path.fullTypeName)))
  | part {texts : List String} {part : Datum} {rest : List Datum}
      (hpath : o.path.elements? = some (texts.map .text ++ part :: rest))
      (hpart : part.text? = none)
      (hlong : part.isWritable = false) (habsolute : o.absolute.isNothing = false) :
      Escapes o (.compile (.path .partTooLong))
  | pattern {ignoreCase : Bool} {source : String} {limit : Regex.Limit}
      (hcase : o.ignoreCase = .ok ignoreCase) (hsource : o.Spells source)
      (hlimit : Pattern.compile ignoreCase source = .error (.beyond limit)) :
      Escapes o (.compile (.pattern source (.beyond limit)))
  | template {templates : List Datum} {source : String} {ds : List Char}
      (hderive : o.derive.elements? = some templates) (hsource : .text source ∈ templates)
      (hds : Template.Mentions ds source.toList) (hlong : 4300 < ds.length) :
      Escapes o (.template (.numeralTooLong ds.length))

end Options

/-! ## Compiling -/

lemma mapM_eq_error {ε α β : Type} {f : α → Except ε β} {xs : List α} {error : ε}
    (h : xs.mapM f = .error error) : ∃ x ∈ xs, f x = .error error := by
  induction xs with
  | nil => cases h
  | cons x xs ih =>
    rw [List.mapM_cons, bind_eq_error] at h
    rcases h with h | ⟨y, -, h⟩
    · exact ⟨x, List.mem_cons_self, h⟩
    · rcases bind_eq_error.mp h with h | ⟨ys, -, h⟩
      · exact (ih h).imp fun x' hx' => ⟨List.mem_cons_of_mem x hx'.1, hx'.2⟩
      · cases h

lemma mapError_eq_error {ε ε' α : Type} {f : ε → ε'} {x : Except ε α} {error : ε'} :
    x.mapError f = .error error ↔ ∃ cause, x = .error cause ∧ f cause = error := by
  cases x <;> simp [Except.mapError]

lemma mapError_eq_ok {ε ε' α : Type} {f : ε → ε'} {x : Except ε α} {a : α} :
    x.mapError f = .ok a ↔ x = .ok a := by
  cases x <;> simp [Except.mapError]

section

variable {ignoreCase : Bool} {problem : CompileProblem}

/-- A text that is no pattern is reported, unless it is beyond a limit. -/
lemma compilePattern_eq_error {source : String}
    (h : compilePattern ignoreCase source = .error problem) :
    problem.isReported ∨ ∃ limit, Pattern.compile ignoreCase source = .error (.beyond limit) ∧
      problem = .pattern source (.beyond limit) := by
  obtain ⟨cause, hcause, rfl⟩ := mapError_eq_error.mp h
  cases cause with
  | malformed cause position => exact Or.inl rfl
  | beyond limit => exact Or.inr ⟨limit, hcause, rfl⟩

/-- A setting that is no pattern is reported, unless it is a text beyond a limit. -/
lemma Setting.compile_eq_error {s : Setting}
    (h : s.toPatternInput.compile ignoreCase = .error problem) :
    problem.isReported ∨ ∃ source limit, s = .datum (.text source) ∧
      Pattern.compile ignoreCase source = .error (.beyond limit) ∧
      problem = .pattern source (.beyond limit) := by
  rw [toPatternInput.eq_def] at h
  split at h
  · next source =>
    refine (compilePattern_eq_error h).imp_right ?_
    rintro ⟨limit, hlimit⟩
    exact ⟨source, limit, rfl, hlimit⟩
  · cases h
  · cases h
    exact Or.inl rfl

/-- A part of a path is, unless it is a glob whose pattern is beyond a limit. -/
lemma Component.compile_eq_error {part : String} (h : compile ignoreCase part = .error problem) :
    problem.isReported ∨ ∃ limit, Glob.hasMagic part ∧
      Pattern.compile ignoreCase (Glob.pattern part) = .error (.beyond limit) ∧
      problem = .pattern (Glob.pattern part) (.beyond limit) := by
  rw [compile] at h
  split_ifs at h with hempty hmagic
  cases hw : Wildcard.compile ignoreCase part false with
  | ok w =>
    rw [hw] at h
    cases h
  | error cause =>
    rw [hw] at h
    cases h
    rcases bind_eq_error.mp hw with hw | ⟨p, -, hw⟩
    · refine (compilePattern_eq_error hw).imp_right ?_
      rintro ⟨limit, hlimit⟩
      exact ⟨limit, hmagic, hlimit⟩
    · cases hw

/-- The problem with the parts of a path is that of the first which is no text. -/
lemma PathSpec.textParts_eq_error {parts : List Datum} {cause : SplitProblem}
    (h : textParts parts = .error cause) :
    ∃ (texts : List String) (part : Datum) (rest : List Datum),
      parts = texts.map .text ++ part :: rest ∧ part.text? = none ∧ cause = .ofPart part := by
  induction parts generalizing cause with
  | nil => cases h
  | cons part rest ih =>
    cases part with
    | text s =>
      cases hrest : textParts rest with
      | ok texts =>
        rw [textParts, hrest] at h
        cases h
      | error cause' =>
        rw [textParts, hrest] at h
        cases h
        obtain ⟨texts, part, behind, rfl, hpart, hcause⟩ := ih hrest
        exact ⟨s :: texts, part, behind, rfl, hpart, hcause⟩
    | _ =>
      cases h
      exact ⟨[], _, rest, rfl, rfl, rfl⟩

lemma Setting.isNothing_eq_false {s : Setting} (h : s ≠ .datum .nothing) : s.isNothing = false := by
  rw [isNothing.eq_def]
  split
  · exact absurd rfl h
  · rfl

/-- A path that cannot be split is reported, unless it is nothing that could be gone through, or its
first part that is no text cannot be shown. -/
lemma Setting.split_eq_error {s : Setting} {absolute : Option Bool} {cause : PathSpec.SplitProblem}
    (h : s.toPathInput.split absolute = .error cause) :
    (CompileProblem.path cause).isReported ∨ absolute.isSome ∧
      (s.isNothing = false ∧ s.elements? = none ∧ cause = .indivisible s.fullTypeName ∨
        ∃ (texts : List String) (part : Datum) (rest : List Datum),
          s.elements? = some (texts.map .text ++ part :: rest) ∧ part.text? = none ∧
            part.isWritable = false ∧ cause = .partTooLong) := by
  rw [toPathInput.eq_def] at h
  split at h
  · cases h
  · cases h
  · next hnothing htext =>
    split at h
    · next parts hparts =>
      cases absolute with
      | none =>
        cases h
        exact Or.inl rfl
      | some rooted =>
        have htexts : PathSpec.textParts parts = .error cause := by
          cases htexts : PathSpec.textParts parts with
          | ok texts =>
            rw [PathSpec.PathInput.split, htexts] at h
            cases h
          | error cause' =>
            rw [PathSpec.PathInput.split, htexts] at h
            cases h
            rfl
        obtain ⟨texts, part, rest, rfl, hpart, rfl⟩ := PathSpec.textParts_eq_error htexts
        rw [PathSpec.SplitProblem.ofPart]
        cases hlong : part.isWritable with
        | true => exact Or.inl rfl
        | false => exact Or.inr ⟨rfl, Or.inr ⟨texts, part, rest, hparts, hpart, hlong, rfl⟩⟩
    · next hnone =>
      cases absolute with
      | none =>
        cases h
        exact Or.inl rfl
      | some rooted =>
        cases h
        exact Or.inr ⟨rfl, Or.inl ⟨isNothing_eq_false hnothing, hnone, rfl⟩⟩

end

/-! ## Looking at options -/

lemma Datum.eq_text {d : Datum} {s : String} (h : d.text? = some s) : d = .text s := by
  cases d with
  | text s' => exact congrArg text (Option.some.inj h)
  | _ => cases h

namespace Options

variable {o : Options}

/-- Only templates that cannot be gone through are in the way of looking at options. -/
lemma problems_eq_error {cause : TypeProblem} (h : o.problems = .error cause) :
    o.Escapes (.type cause) := by
  rcases bind_eq_error.mp h with h | ⟨_, -, h⟩
  · rw [deriveProblem?.eq_def] at h
    split at h
    · cases h
    · cases h
    · next hnothing htext =>
      split at h
      · next hnone =>
        cases h
        exact .derive (Setting.isNothing_eq_false hnothing) hnone
      · cases h
  · cases h

lemma walkOrder_eq_ok_iff {order : WalkOrder} :
    o.walkOrder = .ok order ↔ o.order.toOrder? = some order := by
  rw [walkOrder]
  cases o.order.toOrder? <;> simp

/-- If nothing is wrong with options, it can be asked whether case is ignored. -/
lemma ignoreCase_ne_error (h : o.problems = .ok []) (cause : TypeProblem) :
    o.ignoreCase ≠ .error cause := by
  have horacle : oracleProblem? o.caseOracle = none := by
    obtain ⟨derive, -, h⟩ := bind_eq_ok.mp h
    have hlisted := Except.ok.inj h
    simp only [List.append_eq_nil_iff, Option.toList_eq_nil_iff] at hlisted
    exact hlisted.2
  intro herror
  rw [ignoreCase.eq_def] at herror
  split at herror
  · cases herror
  · split at herror
    · cases herror
    · next hnone =>
      rw [oracleProblem?.eq_def] at horacle
      split at horacle
      · next hsome => exact hnone _ hsome
      · cases horacle

/-- A path that cannot be compiled. -/
lemma pathSpec_eq_error {ignoreCase : Bool} {problem : CompileProblem}
    (hcase : o.ignoreCase = .ok ignoreCase) (h : o.pathSpec ignoreCase = .error problem) :
    problem.isReported ∨ o.Escapes (.compile problem) := by
  rcases bind_eq_error.mp h with h | ⟨⟨parts, rooted⟩, hsplit, h⟩
  · obtain ⟨cause, hcause, rfl⟩ := mapError_eq_error.mp h
    refine (Setting.split_eq_error hcause).imp_right ?_
    rintro ⟨hsome, hescapes⟩
    have habsolute : o.absolute.isNothing = false := by
      cases hnothing : o.absolute.isNothing with
      | false => rfl
      | true =>
        rw [Setting.truth?, if_pos hnothing] at hsome
        cases hsome
    rcases hescapes with ⟨hgiven, hnone, rfl⟩ | ⟨texts, part, rest, hpath, hpart, hlong, rfl⟩
    · exact .path hgiven hnone habsolute
    · exact .part hpath hpart hlong habsolute
  · rw [mapError_eq_ok] at hsplit
    rcases bind_eq_error.mp h with h | ⟨components, hcomponents, h⟩
    · obtain ⟨part, hpart, h⟩ := mapM_eq_error h
      refine (Component.compile_eq_error h).imp_right ?_
      rintro ⟨limit, hmagic, hlimit, rfl⟩
      exact .pattern hcase (.glob hsplit hpart hmagic) hlimit
    · -- the pattern that is made from the components can always be compiled
      obtain ⟨matcher, hmatcher⟩ := exists_compilePattern_wholePath
        (fun c hc => (PathSpec.exists_of_mapM_compile hcomponents c hc).imp
          fun part hpart => hpart.2) rooted
      cases hmatching : o.matching.isNothing with
      | true =>
        rw [matchInput, if_pos hmatching] at h
        rcases bind_eq_error.mp h with h | ⟨_, -, h⟩
        · rw [hmatcher] at h
          cases h
        · cases h
      | false =>
        rw [matchInput, hmatching, if_neg Bool.false_ne_true] at h
        rcases bind_eq_error.mp h with h | ⟨_, -, h⟩
        · refine (Setting.compile_eq_error h).imp_right ?_
          rintro ⟨source, limit, hsource, hlimit, rfl⟩
          exact .pattern hcase (.matching hsource) hlimit
        · cases h

/-- A pattern of paths to leave out that cannot be compiled. -/
lemma plan_eq_error {ignoreCase : Bool} {error : SetupError} (hcase : o.ignoreCase = .ok ignoreCase)
    (h : o.plan ignoreCase = .error error) : error.isReported ∨ o.Escapes error := by
  rcases bind_eq_error.mp h with h | ⟨exclude, -, h⟩
  · obtain ⟨problem, hproblem, rfl⟩ := mapError_eq_error.mp h
    rw [excludePattern] at hproblem
    split_ifs at hproblem
    cases hcompile : o.exclude.toPatternInput.compile ignoreCase with
    | ok p =>
      rw [hcompile] at hproblem
      cases hproblem
    | error problem' =>
      rw [hcompile] at hproblem
      cases hproblem
      refine (Setting.compile_eq_error hcompile).imp_right ?_
      rintro ⟨source, limit, hsource, hlimit, rfl⟩
      exact .pattern hcase (.exclude hsource) hlimit
  rcases bind_eq_error.mp h with h | ⟨order, -, h⟩
  · obtain ⟨problem, -, rfl⟩ := mapError_eq_error.mp h
    exact Or.inl rfl
  rcases bind_eq_error.mp h with h | ⟨templates, -, h⟩
  · obtain ⟨limit, hlimit, rfl⟩ := mapError_eq_error.mp h
    refine Or.inr ?_
    rw [templates] at hlimit
    split_ifs at hlimit
    cases hparse : ((o.derive.elements?.getD []).filterMap Datum.text?).mapM Template.parse with
    | ok ts =>
      rw [hparse] at hlimit
      cases hlimit
    | error limit' =>
      rw [hparse] at hlimit
      cases hlimit
      obtain ⟨source, hsource, hparse⟩ := mapM_eq_error hparse
      obtain ⟨ds, hds, hlong, rfl⟩ := Template.exists_mentions_of_parse hparse
      obtain ⟨d, hd, htext⟩ := List.mem_filterMap.mp hsource
      cases helements : o.derive.elements? with
      | none =>
        rw [helements] at hd
        cases hd
      | some members =>
        rw [helements] at hd
        rw [Datum.eq_text htext] at hd
        exact .template helements hd hds hlong
  · cases h

end Options

namespace Expansion

variable {o : Options}

/-- An expansion is set up from options just as they say. -/
lemma ofOptions_eq_ok_iff {e : Expansion} : ofOptions o = .ok e ↔ o.SetsUp e := by
  constructor
  · intro h
    obtain ⟨problems, hproblems, h⟩ := bind_eq_ok.mp h
    split_ifs at h with hne
    obtain ⟨ignoreCase, hcase, h⟩ := bind_eq_ok.mp h
    obtain ⟨spec, hspec, h⟩ := bind_eq_ok.mp h
    obtain ⟨plan, hplan, h⟩ := bind_eq_ok.mp h
    obtain ⟨exclude, hexclude, hplan⟩ := bind_eq_ok.mp hplan
    obtain ⟨order, horder, hplan⟩ := bind_eq_ok.mp hplan
    obtain ⟨templates, htemplates, hplan⟩ := bind_eq_ok.mp hplan
    cases hplan
    cases h
    rw [mapError_eq_ok] at hproblems hcase hspec hexclude horder htemplates
    rw [not_not.mp hne] at hproblems
    exact ⟨hproblems, rfl, hcase, Options.walkOrder_eq_ok_iff.mp horder, rfl, hexclude,
      htemplates, spec, hspec, rfl⟩
  · rintro ⟨hproblems, rfl, hcase, horder, hsorting, hexclude, htemplates, spec, hspec, hscan⟩
    have hplan : e.options.plan e.plan.ignoreCase = .ok e.plan := by
      refine bind_eq_ok.mpr ⟨_, mapError_eq_ok.mpr hexclude, bind_eq_ok.mpr ⟨_, mapError_eq_ok.mpr
        (Options.walkOrder_eq_ok_iff.mpr horder),
        bind_eq_ok.mpr ⟨_, mapError_eq_ok.mpr htemplates, ?_⟩⟩⟩
      rw [← hsorting]
      rfl
    refine bind_eq_ok.mpr ⟨[], mapError_eq_ok.mpr hproblems, ?_⟩
    rw [if_neg (not_not.mpr rfl)]
    refine bind_eq_ok.mpr ⟨_, mapError_eq_ok.mpr hcase, bind_eq_ok.mpr ⟨_, mapError_eq_ok.mpr hspec,
      bind_eq_ok.mpr ⟨_, hplan, ?_⟩⟩⟩
    rw [← hscan]
    rfl

lemma ofOptions_eq_error {error : SetupError} (h : ofOptions o = .error error) :
    error.isReported ∨ o.Escapes error := by
  rcases bind_eq_error.mp h with h | ⟨problems, hproblems, h⟩
  · obtain ⟨cause, hcause, rfl⟩ := mapError_eq_error.mp h
    exact Or.inr (Options.problems_eq_error hcause)
  · rw [mapError_eq_ok] at hproblems
    split_ifs at h with hne
    · cases h
      exact Or.inl rfl
    · rw [not_not.mp hne] at hproblems
      rcases bind_eq_error.mp h with h | ⟨ignoreCase, hcase, h⟩
      · obtain ⟨cause, hcause, -⟩ := mapError_eq_error.mp h
        exact absurd hcause (Options.ignoreCase_ne_error hproblems cause)
      · rw [mapError_eq_ok] at hcase
        rcases bind_eq_error.mp h with h | ⟨spec, -, h⟩
        · obtain ⟨problem, hproblem, rfl⟩ := mapError_eq_error.mp h
          exact Options.pathSpec_eq_error hcase hproblem
        rcases bind_eq_error.mp h with h | ⟨plan, -, h⟩
        · exact Options.plan_eq_error hcase h
        · cases h

/-- No options are made from values among which there is one for the options themselves. -/
lemma ne_self_of_build {positional : List Setting} {named : List (String × Setting)}
    (h : Options.build positional named = .ok o) : ∀ row ∈ named, row.1 ≠ "self" := by
  obtain ⟨o', hnamed, -⟩ := bind_eq_ok.mp h
  clear h
  generalize (Options.setters.zip positional).foldl (fun o row => row.1.2 o row.2) {}
    = start at hnamed
  induction named generalizing start with
  | nil => exact fun _ hrow => absurd hrow List.not_mem_nil
  | cons row named ih =>
    rw [List.foldlM_cons] at hnamed
    obtain ⟨next, hrow, hnamed⟩ := bind_eq_ok.mp hnamed
    refine List.forall_mem_cons.mpr ⟨fun hself => ?_, ih next hnamed⟩
    simp only [hself, List.contains_cons, beq_self_eq_true, Bool.true_or, if_true] at hrow
    cases hrow

/-- **What is not looked for when an expansion is set up from options by name**: whether the
expansion itself is among them, and what is not looked for in the options. -/
inductive Escapes (named : List (String × Setting)) : SetupError → Prop
  | self (hself : named.any (·.1 == "self")) : Escapes named (.type .selfGiven)
  | options {o : Options} {error : SetupError} (ho : Options.build [] named = .ok o)
      (hescapes : o.Escapes error) : Escapes named error

/-- **Setting up.**  An expansion is set up if and only if there are options of the given names,
nothing is wrong with them, and all that is made of them can be made; it is then what the options
say.  Otherwise the error is one of setting up, unless something is wrong with the options that is
not looked for. -/
theorem create_reports (named : List (String × Setting)) :
    (∀ e, create named = .ok e ↔ ∃ o, Options.build [] named = .ok o ∧ o.SetsUp e) ∧
      ∀ error, create named = .error error → error.isReported ∨ Escapes named error := by
  refine ⟨fun e => ?_, fun error h => ?_⟩
  · rw [create]
    split_ifs with hself
    · refine ⟨fun h => (by cases h), ?_⟩
      rintro ⟨o, ho, -⟩
      obtain ⟨row, hrow, hname⟩ := List.any_eq_true.mp hself
      exact absurd (beq_iff_eq.mp hname) (ne_self_of_build ho row hrow)
    · rw [bind_eq_ok]
      simp only [mapError_eq_ok, ofOptions_eq_ok_iff]
  · rw [create] at h
    split_ifs at h with hself
    · cases h
      exact Or.inr (.self hself)
    rcases bind_eq_error.mp h with h | ⟨o, ho, h⟩
    · obtain ⟨cause, -, rfl⟩ := mapError_eq_error.mp h
      exact Or.inl rfl
    · rw [mapError_eq_ok] at ho
      exact (ofOptions_eq_error h).imp_right (.options ho)

/-- A path in parts, with a template. -/
theorem create_reports_parts :
    ∃ o e, Options.build [] [("path", .datum (.list [.text "a", .text "*"])),
        ("absolute", .datum (.truth false)),
        ("derive", .datum (.list [.text "$1"]))] = .ok o ∧ o.SetsUp e := by
  cases h : create [("path", .datum (.list [.text "a", .text "*"])),
      ("absolute", .datum (.truth false)), ("derive", .datum (.list [.text "$1"]))] with
  | ok e =>
    obtain ⟨o, ho, hsetsUp⟩ := ((create_reports _).1 e).mp h
    exact ⟨o, e, ho, hsetsUp⟩
  | error error =>
    have hok : (create [("path", .datum (.list [.text "a", .text "*"])),
        ("absolute", .datum (.truth false)),
        ("derive", .datum (.list [.text "$1"]))]).isOk := by decide +kernel
    rw [h] at hok
    cases hok

/-- **A number for templates, or for a path, is not looked for**, though templates that are no texts
are, and so are the parts of a path. -/
theorem create_escapes :
    create [("path", .datum (.text "a")), ("derive", .datum (.integer 5))]
        = .error (.type (.notIterable "int")) ∧
      create [("path", .datum (.integer 7)), ("absolute", .datum (.truth true))]
        = .error (.compile (.path (.indivisible "int"))) := by
  constructor
  · rfl
  · rfl

end Expansion

end PathExpansion
