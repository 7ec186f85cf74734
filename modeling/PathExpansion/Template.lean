import PathExpansion.Pattern
import PathExpansion.Text.Digit

/-!
# Templates for derived paths

A template makes a path from the groups of a match.  A dollar sign with a number behind it, bare or
in braces, stands for the text of that group, zero for the whole match; two dollar signs stand for
one; everything else, other dollar signs included, stands for itself.

* `Template.parse` — the pieces of a template.
* `Template.fill` — a template with the groups of a match filled in.
* `derivePaths` — the paths derived from a result.
* `Fitting`, `derivePathsWith` — the same, where the templates were looked at before.
-/

namespace PathExpansion

/-- A piece of a template: text, or the number of a group. -/
inductive TemplatePiece where
  | text (s : String)
  | group (index : Nat)
deriving DecidableEq, Repr

/-- A template: how it was written, and its pieces. -/
structure Template where
  source : String
  pieces : List TemplatePiece
deriving DecidableEq, Repr

namespace Template

/-- A reference at the start of a text, behind its dollar sign: what it stands for, a dollar sign
or the digits of a group, and the text behind it. -/
def reference? (rest : List Char) : Option (Option (List Char) × List Char) :=
  match rest with
  | '$' :: after => some (none, after)
  | '{' :: inner =>
    match inner.takeWhile Text.isDigit, inner.dropWhile Text.isDigit with
    | d :: ds, '}' :: after => some (some (d :: ds), after)
    | _, _ => none
  | _ =>
    match rest.takeWhile Text.isDigit with
    | [] => none
    | ds => some (some ds, rest.dropWhile Text.isDigit)

/-- What a reference leaves is shorter than what it was read from. -/
theorem reference?_length {rest after : List Char} {what : Option (List Char)}
    (h : reference? rest = some (what, after)) : after.length < rest.length := by
  unfold reference? at h
  split at h
  · simp only [Option.some.injEq, Prod.mk.injEq] at h
    simp [← h.2]
  · next inner =>
    split at h
    · next d ds tail _ hd =>
      simp only [Option.some.injEq, Prod.mk.injEq] at h
      have := (List.dropWhile_sublist Text.isDigit (l := inner)).length_le
      rw [hd] at this
      simp only [List.length_cons] at this ⊢
      rw [← h.2]
      omega
    · simp at h
  · split at h
    · simp at h
    · next ds hne =>
      simp only [Option.some.injEq, Prod.mk.injEq] at h
      have hlen : (rest.takeWhile Text.isDigit).length + (rest.dropWhile Text.isDigit).length
          = rest.length := by
        rw [← List.length_append, List.takeWhile_append_dropWhile]
      have : 0 < (rest.takeWhile Text.isDigit).length := List.length_pos_iff.2 (by simpa using hne)
      rw [← h.2]
      omega

/-- A text piece, unless it is empty; the characters come latest first. -/
def textPiece (found : List Char) : List TemplatePiece :=
  if found = [] then [] else [.text (String.ofList found.reverse)]

/-- The pieces of a text, with the characters of the text piece that is being read, latest first.
A number of more digits than can be converted is reported by their count. -/
def parseList (found : List Char) (cs : List Char) : Except Nat (List TemplatePiece) :=
  match cs with
  | [] => .ok (textPiece found)
  | c :: rest =>
    if c = '$' then
      match _h : reference? rest with
      | none => parseList (c :: found) rest
      | some (none, after) => do
        let pieces ← parseList [] after
        return textPiece found ++ .text "$" :: pieces
      | some (some ds, after) =>
        if 4300 < ds.length then .error ds.length
        else do
          let pieces ← parseList [] after
          return textPiece found ++ .group (Text.numberOfDigits ds) :: pieces
    else parseList (c :: found) rest
termination_by cs.length
decreasing_by
  all_goals try have shorter := reference?_length _h
  all_goals simp only [List.length_cons]
  all_goals omega

/-- The template that a text spells.  It fails only on a number that has too many digits. -/
def parse (source : String) : Except Regex.Limit Template :=
  match parseList [] source.toList with
  | .ok pieces => .ok ⟨source, pieces⟩
  | .error digits => .error (.numeralTooLong digits)

/-- The text of a piece; a group that took no part is empty, and so is every group if there is no
match. -/
def fillPiece (m : Option Match) : TemplatePiece → String
  | .text s => s
  | .group i => ((m.bind (·.group? i))).getD ""

/-- A template with the groups of a match filled in. -/
def fill (m : Option Match) (t : Template) : String :=
  String.join (t.pieces.map (fillPiece m))

/-- The first group of a template beyond the given number. -/
def firstBeyond? (groups : Nat) (t : Template) : Option Nat :=
  t.pieces.findSome? fun
    | .group i => if groups < i then some i else none
    | .text _ => none

end Template

/-! ## Derivation -/

/-- A template refers to a group that the pattern does not have. -/
structure MissingGroup where
  template : String
  index : Nat
  groups : Nat
deriving DecidableEq, Repr

/-- The wording of the problem. -/
def MissingGroup.message (e : MissingGroup) : String :=
  "Derive template " ++ Text.quote e.template ++ " references $" ++ toString e.index
    ++ " but the match pattern only has " ++ toString e.groups ++ " capture group(s)"

/-- The first template, and in it the first reference, that the pattern has no group for. -/
def missingGroup? (templates : List Template) (matcher : Pattern) : Option MissingGroup :=
  templates.findSome? fun t =>
    (t.firstBeyond? matcher.groups).map fun i => ⟨t.source, i, matcher.groups⟩

/-- The path itself and the paths derived from it, one for each template.  The groups are those of
the pattern's first match in the path. -/
def derivePaths (templates : List Template) (matcher : Pattern) (path : String) :
    Except MissingGroup (List String) :=
  match missingGroup? templates matcher with
  | some e => .error e
  | none => .ok (path :: templates.map (Template.fill (matcher.search? path)))

/-- Templates and a pattern that has all groups they refer to. -/
structure Fitting where
  templates : List Template
  matcher : Pattern
  fits : missingGroup? templates matcher = none

/-- It is about these templates and this pattern. -/
def Fitting.isOf (f : Fitting) (templates : List Template) (matcher : Pattern) : Bool :=
  f.templates = templates && f.matcher = matcher

/-- The derived paths, and what was last found to fit.  Templates are not looked at again for the
pattern that they were found to fit last. -/
def derivePathsWith (last : Option Fitting) (templates : List Template) (matcher : Pattern)
    (path : String) : Option Fitting × Except MissingGroup (List String) :=
  if last.any (·.isOf templates matcher) then
    (last, .ok (path :: templates.map (Template.fill (matcher.search? path))))
  else
    match hmissing : missingGroup? templates matcher with
    | some e => (last, .error e)
    | none =>
      (some ⟨templates, matcher, hmissing⟩,
        .ok (path :: templates.map (Template.fill (matcher.search? path))))

/-- It makes no difference to the paths what was looked at before. -/
theorem derivePathsWith_snd (last : Option Fitting) (templates : List Template) (matcher : Pattern)
    (path : String) :
    (derivePathsWith last templates matcher path).2 = derivePaths templates matcher path := by
  rw [derivePathsWith, derivePaths]
  by_cases hlast : last.any (·.isOf templates matcher)
  · rw [if_pos hlast]
    cases last with
    | none => cases hlast
    | some f =>
      rw [Option.any_some, Fitting.isOf, Bool.and_eq_true, decide_eq_true_eq,
        decide_eq_true_eq] at hlast
      obtain ⟨rfl, rfl⟩ := hlast
      rw [f.fits]
  · rw [if_neg hlast]
    split
    · next hmissing => simp only [hmissing]
    · next hmissing => simp only [hmissing]

end PathExpansion
