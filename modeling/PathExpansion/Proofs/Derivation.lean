import Mathlib.Data.List.Forall2
import PathExpansion.Listing
import PathExpansion.Template

/-!
# Derived paths, call by call

A template is read from left to right: some of it stands for itself, some for the text of a group.
What is derived from a path is the template with those texts filled in.  Templates are looked at for
groups that a pattern does not have only when the pattern is another one than the last that they
were found to fit, so what a call comes to could depend on the calls before it.  It does not.

* `Template.Refers`, `Template.Reads` — what a reference is, and what a template says; no template
  says two things (`Template.Reads.unique`).
* `Template.reads_parse` — parsing finds out what a template says.
* `IsFirstMissing` — the reference that is reported if a pattern has not all groups.
* `derivations` — calls in a row, each with what was looked at before.
* `IsDerivation` — what one call has to come to, whatever was called before.
* **`derivations_exact`** — each call in a row comes to that.
-/

namespace PathExpansion

/-- What a template says at one place: a character, or the text of a group. -/
inductive Sign where
  | char (c : Char)
  | group (index : ℕ)

/-- What a piece of a template says. -/
def TemplatePiece.signs : TemplatePiece → List Sign
  | .text s => s.toList.map .char
  | .group i => [.group i]

namespace Template

/-! ## What a template says -/

/-- Digits that are a number. -/
def IsNumeral (ds : List Char) : Prop := ds ≠ [] ∧ ∀ d ∈ ds, Text.isDigit d = true

/-- **A reference, behind its dollar sign**, and what comes after it: a second dollar sign, digits
in braces, or as many digits as there are. -/
inductive Refers : List Char → Option (List Char) → List Char → Prop
  | dollar (after : List Char) : Refers ('$' :: after) none after
  | braced {ds : List Char} (hds : IsNumeral ds) (after : List Char) :
      Refers ('{' :: (ds ++ '}' :: after)) (some ds) after
  | bare {ds after : List Char} (hds : IsNumeral ds)
      (hmost : ∀ c ∈ after.head?, Text.isDigit c = false) : Refers (ds ++ after) (some ds) after

/-- **What a template says**, read from left to right.  Two dollar signs are one, digits behind one
are the number of a group, and whatever else there is stands for itself, a dollar sign included that
no reference follows. -/
inductive Reads : List Char → List Sign → Prop
  | done : Reads [] []
  | char {c : Char} {rest : List Char} {signs : List Sign} (hc : c ≠ '$') (h : Reads rest signs) :
      Reads (c :: rest) (.char c :: signs)
  | dollar {rest after : List Char} {signs : List Sign} (href : Refers rest none after)
      (h : Reads after signs) : Reads ('$' :: rest) (.char '$' :: signs)
  | group {rest ds after : List Char} {signs : List Sign} (href : Refers rest (some ds) after)
      (h : Reads after signs) : Reads ('$' :: rest) (.group (Text.numberOfDigits ds) :: signs)
  | lone {rest : List Char} {signs : List Sign} (hnone : ∀ what after, ¬ Refers rest what after)
      (h : Reads rest signs) : Reads ('$' :: rest) (.char '$' :: signs)

variable {cs rest after ds : List Char} {what : Option (List Char)} {signs signs' : List Sign}

/-- Digits are taken as far as they go. -/
lemma takeWhile_numeral (hds : ∀ d ∈ ds, Text.isDigit d = true)
    (hmost : ∀ c ∈ after.head?, Text.isDigit c = false) :
    (ds ++ after).takeWhile Text.isDigit = ds ∧ (ds ++ after).dropWhile Text.isDigit = after := by
  rw [List.takeWhile_append_of_pos hds, List.dropWhile_append_of_pos hds]
  cases after with
  | nil => simp
  | cons c after => simp [hmost c (by simp)]

/-- What is taken are digits, and what is left does not begin with one. -/
lemma digits_takeWhile (cs : List Char) :
    (∀ d ∈ cs.takeWhile Text.isDigit, Text.isDigit d = true) ∧
      ∀ c ∈ (cs.dropWhile Text.isDigit).head?, Text.isDigit c = false := by
  induction cs with
  | nil => simp
  | cons c cs ih =>
    cases hc : Text.isDigit c with
    | true =>
      rw [List.takeWhile_cons_of_pos hc, List.dropWhile_cons_of_pos hc]
      exact ⟨List.forall_mem_cons.mpr ⟨hc, ih.1⟩, ih.2⟩
    | false => simp [hc]

lemma refers_of_reference? (h : reference? rest = some (what, after)) : Refers rest what after := by
  unfold reference? at h
  split at h
  · obtain ⟨rfl, rfl⟩ := Prod.mk.inj (Option.some.inj h)
    exact .dollar _
  · next inner =>
    split at h
    · next d ds tail htake hdrop =>
      obtain ⟨rfl, rfl⟩ := Prod.mk.inj (Option.some.inj h)
      have hds := (digits_takeWhile inner).1
      rw [htake] at hds
      rw [← List.takeWhile_append_dropWhile (p := Text.isDigit) (l := inner), htake, hdrop]
      exact .braced ⟨List.cons_ne_nil d ds, hds⟩ tail
    · cases h
  · split at h
    · cases h
    · next hne =>
      obtain ⟨rfl, rfl⟩ := Prod.mk.inj (Option.some.inj h)
      obtain ⟨hds, hmost⟩ := digits_takeWhile rest
      have hbare := Refers.bare ⟨hne, hds⟩ hmost
      rwa [List.takeWhile_append_dropWhile] at hbare

lemma Refers.reference? (h : Refers rest what after) : reference? rest = some (what, after) := by
  cases h with
  | dollar => rfl
  | @braced ds hds =>
    have hbrace : ∀ c ∈ ('}' :: after).head?, Text.isDigit c = false := by
      rintro c ⟨⟩
      decide
    obtain ⟨htake, hdrop⟩ := takeWhile_numeral hds.2 hbrace
    obtain ⟨d, ds, rfl⟩ := List.exists_cons_of_ne_nil hds.1
    rw [Template.reference?, htake, hdrop]
    rfl
  | @bare ds _ hds hmost =>
    obtain ⟨htake, hdrop⟩ := takeWhile_numeral hds.2 hmost
    obtain ⟨d, ds, rfl⟩ := List.exists_cons_of_ne_nil hds.1
    have hdigit := hds.2 d List.mem_cons_self
    have hdollar : d ≠ '$' := by
      rintro rfl
      exact absurd hdigit (by decide)
    have hbrace : d ≠ '{' := by
      rintro rfl
      exact absurd hdigit (by decide)
    rw [List.cons_append] at htake hdrop ⊢
    simp [Template.reference?, htake, hdrop, hdollar, hbrace]

/-- **Reading a reference finds what it is.** -/
lemma reference?_eq_some_iff : reference? rest = some (what, after) ↔ Refers rest what after :=
  ⟨refers_of_reference?, Refers.reference?⟩

/-- A template says one thing. -/
lemma Reads.unique (h : Reads cs signs) (h' : Reads cs signs') : signs = signs' := by
  induction h generalizing signs' with
  | done =>
    cases h'
    rfl
  | char hc _ ih =>
    cases h' with
    | char _ h' => rw [ih h']
    | _ => exact absurd rfl hc
  | dollar href _ ih =>
    cases h' with
    | char hc => exact absurd rfl hc
    | dollar href' h' =>
      cases href.reference?.symm.trans href'.reference?
      rw [ih h']
    | group href' => cases href.reference?.symm.trans href'.reference?
    | lone hnone => exact absurd href (hnone _ _)
  | group href _ ih =>
    cases h' with
    | char hc => exact absurd rfl hc
    | dollar href' => cases href.reference?.symm.trans href'.reference?
    | group href' h' =>
      cases href.reference?.symm.trans href'.reference?
      rw [ih h']
    | lone hnone => exact absurd href (hnone _ _)
  | lone hnone _ ih =>
    cases h' with
    | char hc => exact absurd rfl hc
    | dollar href' => exact absurd href' (hnone _ _)
    | group href' => exact absurd href' (hnone _ _)
    | lone _ h' => rw [ih h']

/-! ## Parsing -/

/-- What pieces of a template say. -/
def signsOf (pieces : List TemplatePiece) : List Sign := pieces.flatMap TemplatePiece.signs

lemma signsOf_append (pieces more : List TemplatePiece) :
    signsOf (pieces ++ more) = signsOf pieces ++ signsOf more :=
  List.flatMap_append

lemma signsOf_textPiece (found : List Char) :
    signsOf (textPiece found) = found.reverse.map .char := by
  rw [textPiece]
  split_ifs with hfound
  · rw [hfound]
    rfl
  · rw [signsOf, List.flatMap_singleton, TemplatePiece.signs, String.toList_ofList]

/-- The pieces that are read say what the rest of the template does, behind the text that was
read before. -/
lemma reads_parseList {found : List Char} {pieces : List TemplatePiece}
    (h : parseList found cs = .ok pieces) :
    ∃ signs, Reads cs signs ∧ signsOf pieces = found.reverse.map .char ++ signs := by
  fun_induction parseList found cs generalizing pieces with
  | case1 found =>
    cases h
    exact ⟨[], .done, by rw [signsOf_textPiece, List.append_nil]⟩
  | case2 found rest hnone ih =>
    obtain ⟨signs, hreads, hsigns⟩ := ih h
    refine ⟨.char '$' :: signs, .lone (fun what after href => ?_) hreads, ?_⟩
    · rw [href.reference?] at hnone
      cases hnone
    · rw [hsigns, List.reverse_cons, List.map_append, List.append_assoc]
      rfl
  | case3 found rest after href ih =>
    obtain ⟨more, hmore, hpieces⟩ := bind_eq_ok.mp h
    cases hpieces
    obtain ⟨signs, hreads, hsigns⟩ := ih hmore
    refine ⟨.char '$' :: signs, .dollar (reference?_eq_some_iff.mp href) hreads, ?_⟩
    rw [signsOf_append, signsOf_textPiece, signsOf, List.flatMap_cons, ← signsOf, hsigns]
    rfl
  | case4 => cases h
  | case5 found rest ds after href hdigits ih =>
    obtain ⟨more, hmore, hpieces⟩ := bind_eq_ok.mp h
    cases hpieces
    obtain ⟨signs, hreads, hsigns⟩ := ih hmore
    refine ⟨_, .group (reference?_eq_some_iff.mp href) hreads, ?_⟩
    rw [signsOf_append, signsOf_textPiece, signsOf, List.flatMap_cons, ← signsOf, hsigns]
    rfl
  | case6 found c rest hc ih =>
    obtain ⟨signs, hreads, hsigns⟩ := ih h
    refine ⟨.char c :: signs, .char hc hreads, ?_⟩
    rw [hsigns, List.reverse_cons, List.map_append, List.append_assoc]
    rfl

/-- **A template that is parsed says what its pieces do**, and was written as it was. -/
lemma reads_parse {source : String} {t : Template} (h : parse source = .ok t) :
    t.source = source ∧ Reads source.toList (signsOf t.pieces) := by
  unfold parse at h
  split at h
  · next pieces hpieces =>
    cases h
    obtain ⟨signs, hreads, hsigns⟩ := reads_parseList hpieces
    rw [hsigns]
    exact ⟨rfl, hreads⟩
  · cases h

/-- Templates that are parsed one after the other say one thing each, and are kept as they were
written. -/
lemma reads_mapM {sources : List String} {templates : List Template}
    (h : sources.mapM parse = .ok templates) :
    templates.map source = sources ∧
      ∀ t ∈ templates, ∀ signs, Reads t.source.toList signs ↔ signs = signsOf t.pieces := by
  induction sources generalizing templates with
  | nil =>
    cases h
    simp
  | cons source sources ih =>
    rw [List.mapM_cons] at h
    obtain ⟨t, ht, h⟩ := bind_eq_ok.mp h
    obtain ⟨rest, hrest, h⟩ := bind_eq_ok.mp h
    cases h
    obtain ⟨rfl, hreads⟩ := reads_parse ht
    obtain ⟨hsources, hrest⟩ := ih hrest
    refine ⟨by rw [List.map_cons, hsources], List.forall_mem_cons.mpr ⟨fun signs => ?_, hrest⟩⟩
    constructor
    · intro h
      exact h.unique hreads
    · rintro rfl
      exact hreads

/-! ## Filling in -/

/-- The text of a group where a pattern matches first in a path.  It is empty if the pattern does
not match, or if the group has no part in the match. -/
def groupText (matcher : Pattern) (path : String) (index : ℕ) : String :=
  match matcher.search? path with
  | none => ""
  | some m => (m.group? index).getD ""

end Template

/-- What a template is with the groups filled in. -/
def Sign.text (matcher : Pattern) (path : String) : Sign → List Char
  | .char c => [c]
  | .group i => (Template.groupText matcher path i).toList

namespace Template

/-- What is said with the groups filled in. -/
def told (matcher : Pattern) (path : String) (signs : List Sign) : String :=
  String.ofList (signs.flatMap (Sign.text matcher path))

lemma toList_fillPiece (matcher : Pattern) (path : String) (piece : TemplatePiece) :
    (fillPiece (matcher.search? path) piece).toList
      = piece.signs.flatMap (Sign.text matcher path) := by
  cases piece with
  | text s => simp [fillPiece, TemplatePiece.signs, Sign.text, List.flatMap_map]
  | group i =>
    cases hsearch : matcher.search? path <;>
      simp [fillPiece, TemplatePiece.signs, Sign.text, groupText, hsearch]

/-- A template is filled in as it is told. -/
lemma fill_eq_told (matcher : Pattern) (path : String) (t : Template) :
    fill (matcher.search? path) t = told matcher path (signsOf t.pieces) := by
  rw [← String.toList_inj, told, String.toList_ofList, fill, String.toList_join, List.flatMap_map,
    signsOf, List.flatMap_assoc]
  simp only [toList_fillPiece]

end Template

/-! ## Missing groups -/

/-- What is said refers to no group beyond the given number. -/
def IsWithin (groups : ℕ) (signs : List Sign) : Prop := ∀ i, .group i ∈ signs → i ≤ groups

/-- **The first missing group**: the first of the templates that refers beyond the groups there are,
and its first such reference. -/
structure IsFirstMissing (readings : List (String × List Sign)) (groups : ℕ) (e : MissingGroup) :
    Prop where
  groups_eq : e.groups = groups
  beyond : groups < e.index
  first : ∃ before signs after, readings = before ++ (e.template, signs) :: after ∧
    (∀ r ∈ before, IsWithin groups r.2) ∧
    ∃ fore aft, signs = fore ++ .group e.index :: aft ∧ IsWithin groups fore

namespace Template

/-- What a template says, with how it was written. -/
def reading (t : Template) : String × List Sign := (t.source, signsOf t.pieces)

variable {groups i : ℕ} {t : Template}

lemma group_mem_signsOf {pieces : List TemplatePiece} :
    .group i ∈ signsOf pieces ↔ .group i ∈ pieces := by
  rw [signsOf, List.mem_flatMap]
  constructor
  · rintro ⟨_ | j, hpiece, hi⟩
    · simp [TemplatePiece.signs] at hi
    · cases List.mem_singleton.mp hi
      exact hpiece
  · intro hi
    exact ⟨_, hi, List.mem_singleton_self _⟩

lemma isWithin_of_firstBeyond? (h : t.firstBeyond? groups = none) :
    IsWithin groups (signsOf t.pieces) := by
  intro i hi
  have hpiece := List.findSome?_eq_none_iff.mp h _ (group_mem_signsOf.mp hi)
  simpa using hpiece

lemma first_of_firstBeyond? (h : t.firstBeyond? groups = some i) :
    groups < i ∧ ∃ fore aft, signsOf t.pieces = fore ++ .group i :: aft ∧ IsWithin groups fore := by
  obtain ⟨before, piece, after, hpieces, hpiece, hbefore⟩ := List.findSome?_eq_some_iff.mp h
  cases piece with
  | text s => cases hpiece
  | group j =>
    obtain ⟨hj, hi⟩ := Option.ite_none_right_eq_some.mp hpiece
    cases hi
    refine ⟨hj, signsOf before, signsOf after, ?_, fun k hk => ?_⟩
    · rw [hpieces, signsOf_append]
      rfl
    · have hwithin := hbefore _ (group_mem_signsOf.mp hk)
      simpa using hwithin

end Template

section

variable {templates : List Template} {matcher : Pattern} {e : MissingGroup}

/-- **Looking at templates finds the first missing group.** -/
lemma isFirstMissing_of_missingGroup? (h : missingGroup? templates matcher = some e) :
    IsFirstMissing (templates.map Template.reading) matcher.groups e := by
  obtain ⟨before, t, after, rfl, ht, hbefore⟩ := List.findSome?_eq_some_iff.mp h
  obtain ⟨i, hi, rfl⟩ := Option.map_eq_some_iff.mp ht
  obtain ⟨hbeyond, hfirst⟩ := Template.first_of_firstBeyond? hi
  refine ⟨rfl, hbeyond, before.map Template.reading, _, after.map Template.reading, ?_, ?_, hfirst⟩
  · rw [List.map_append, List.map_cons]
    rfl
  · rw [List.forall_mem_map]
    intro t ht
    exact Template.isWithin_of_firstBeyond? (Option.map_eq_none_iff.mp (hbefore t ht))

lemma isWithin_of_missingGroup? (h : missingGroup? templates matcher = none) :
    ∀ r ∈ templates.map Template.reading, IsWithin matcher.groups r.2 := by
  rw [List.forall_mem_map]
  intro t ht
  have hnone := List.findSome?_eq_none_iff.mp h t ht
  exact Template.isWithin_of_firstBeyond? (Option.map_eq_none_iff.mp hnone)

end

/-! ## Calls in a row -/

/-- What calls in a row come to, each a pattern and a path.  Every call keeps for the next one what
it has looked at. -/
def derivations (templates : List Template) :
    (last : Option Fitting) → (calls : List (Pattern × String)) →
      List (Except MissingGroup (List String))
  | _, [] => []
  | last, (matcher, path) :: calls =>
    let looked := derivePathsWith last templates matcher path
    looked.2 :: derivations templates looked.1 calls

/-- **What a call has to come to.**  It is refused if and only if some template refers to a group
that the pattern does not have; the first is reported.  Otherwise there is the path, and behind it
each template with its groups filled in. -/
structure IsDerivation (readings : List (String × List Sign)) (call : Pattern × String)
    (answer : Except MissingGroup (List String)) : Prop where
  refused_iff : (∃ e, answer = .error e) ↔
    ∃ r ∈ readings, ∃ i, .group i ∈ r.2 ∧ call.1.groups < i
  first : ∀ e, answer = .error e → IsFirstMissing readings call.1.groups e
  paths : ∀ paths, answer = .ok paths →
    paths = call.2 :: readings.map fun r => Template.told call.1 call.2 r.2

lemma isDerivation_derivePaths (templates : List Template) (call : Pattern × String) :
    IsDerivation (templates.map Template.reading) call (derivePaths templates call.1 call.2) := by
  rw [derivePaths]
  cases hmissing : missingGroup? templates call.1 with
  | some e =>
    have hfirst := isFirstMissing_of_missingGroup? hmissing
    refine ⟨⟨fun _ => ?_, fun _ => ⟨e, rfl⟩⟩, ?_, fun _ h => by cases h⟩
    · obtain ⟨before, signs, after, hreadings, -, fore, aft, hsigns, -⟩ := hfirst.first
      refine ⟨(e.template, signs), ?_, e.index, ?_, hfirst.beyond⟩
      · rw [hreadings]
        exact List.mem_append_right before List.mem_cons_self
      · rw [hsigns]
        exact List.mem_append_right fore List.mem_cons_self
    · rintro _ ⟨⟩
      exact hfirst
  | none =>
    have hwithin := isWithin_of_missingGroup? hmissing
    refine ⟨⟨?_, ?_⟩, ?_, ?_⟩
    · rintro ⟨_, ⟨⟩⟩
    · rintro ⟨r, hr, i, hi, hbeyond⟩
      exact absurd (hwithin r hr i hi) (Nat.not_le.mpr hbeyond)
    · rintro _ ⟨⟩
    · rintro _ ⟨⟩
      rw [List.map_map]
      exact congrArg _ (List.map_congr_left fun t _ => Template.fill_eq_told call.1 call.2 t)

/-- **Derivation is exact and has no memory.**  Templates that are parsed say one thing each.
However many calls are made, with whichever patterns, and whatever was looked at before, each comes
to what these templates, its own pattern and its own path are, also behind calls that were
refused. -/
theorem derivations_exact {sources : List String} {templates : List Template}
    (h : sources.mapM Template.parse = .ok templates) :
    ∃ readings : List (String × List Sign),
      readings.map (·.1) = sources ∧
      (∀ r ∈ readings, ∀ signs, Template.Reads r.1.toList signs ↔ signs = r.2) ∧
      ∀ last calls,
        List.Forall₂ (IsDerivation readings) calls (derivations templates last calls) := by
  obtain ⟨hsources, hreads⟩ := Template.reads_mapM h
  refine ⟨templates.map Template.reading, ?_, ?_, fun last calls => ?_⟩
  · rw [List.map_map]
    exact hsources
  · intro r hr
    obtain ⟨t, ht, rfl⟩ := List.mem_map.mp hr
    exact hreads t ht
  · induction calls generalizing last with
    | nil => exact .nil
    | cons call calls ih =>
      refine .cons ?_ (ih _)
      rw [derivePathsWith_snd]
      exact isDerivation_derivePaths templates call

/-- Two templates, one with a doubled dollar sign and one with a lone one. -/
theorem derivations_exact_dollars :
    ∃ templates, ["a$$b$1", "$\x7b2\x7d$x"].mapM Template.parse = .ok templates ∧
      templates.map (·.pieces)
        = [[.text "a", .text "$", .text "b", .group 1], [.group 2, .text "$x"]] ∧
      ∃ readings : List (String × List Sign),
        readings.map (·.1) = ["a$$b$1", "$\x7b2\x7d$x"] ∧
        (∀ r ∈ readings, ∀ signs, Template.Reads r.1.toList signs ↔ signs = r.2) ∧
        ∀ last calls,
          List.Forall₂ (IsDerivation readings) calls (derivations templates last calls) := by
  have hparse : ["a$$b$1", "$\x7b2\x7d$x"].mapM Template.parse
      = .ok [⟨"a$$b$1", [.text "a", .text "$", .text "b", .group 1]⟩,
        ⟨"$\x7b2\x7d$x", [.group 2, .text "$x"]⟩] := by decide +kernel
  exact ⟨_, hparse, rfl, derivations_exact hparse⟩

end PathExpansion
