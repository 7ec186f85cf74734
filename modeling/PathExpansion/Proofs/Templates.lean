import PathExpansion.Proofs.Derivation
import PathExpansion.Proofs.Retelling

/-!
# Templates can say anything

Texts and groups in any order are said by a template: every dollar sign of a text is doubled, and a
group is its number in braces.  Neither spelling depends on what stands beside it, so the pieces are
read one by one.

In the other direction every text says something as a template, and one thing only.  Parsing finds
it unless the template has a numeral of more than 4300 digits, which cannot be converted to a
number.  Which numerals a template has is told in the same way as what it says, from left to right
(`Template.Mentions`).

* `TemplatePiece.spelled` — a piece as it is written in a template.
* `Template.withValues` — pieces with values for the groups.
* `Template.reads_spelled`, `Template.exists_reads` — what is spelled is read again, and every
  template is read as something.
* `Template.Mentions` — the numerals of a template.
* **`Template.parse_exact`** — pieces that are spelled can be parsed and mean the same, and parsing
  finds what a template says if it has no numeral of more than 4300 digits.
-/

namespace PathExpansion

lemma Text.numberOfDigits_zeros (n : ℕ) (ds : List Char) :
    numberOfDigits (List.replicate n '0' ++ ds) = numberOfDigits ds := by
  induction n with
  | zero => rfl
  | succ n ih => exact ih

namespace TemplatePiece

/-- A piece as it is written in a template. -/
def spelled : TemplatePiece → List Char
  | .text s => s.toList.flatMap fun c => if c = '$' then ['$', '$'] else [c]
  | .group i => '$' :: '{' :: (Nat.toDigits 10 i ++ ['}'])

/-- What a piece is with values for the groups. -/
def withValue (value : ℕ → String) : TemplatePiece → String
  | .text s => s
  | .group i => value i

end TemplatePiece

/-- What is said at one place with values for the groups. -/
def Sign.withValue (value : ℕ → String) : Sign → List Char
  | .char c => [c]
  | .group i => (value i).toList

namespace Template

/-- The texts and values of pieces, one behind the other. -/
def withValues (value : ℕ → String) (pieces : List TemplatePiece) : String :=
  String.join (pieces.map (TemplatePiece.withValue value))

/-- The value of a group in a match.  It is empty if there is no match, or if the group has no part
in it. -/
def valueIn (m : Option Match) (index : ℕ) : String := (m.bind (·.group? index)).getD ""

lemma fill_eq_withValues (m : Option Match) (t : Template) :
    t.fill m = withValues (valueIn m) t.pieces := by
  have hpiece : fillPiece m = TemplatePiece.withValue (valueIn m) := by
    funext piece
    cases piece <;> rfl
  rw [fill, withValues, hpiece]

lemma toList_withValue (value : ℕ → String) (piece : TemplatePiece) :
    (piece.withValue value).toList = piece.signs.flatMap (Sign.withValue value) := by
  cases piece with
  | text s => simp [TemplatePiece.withValue, TemplatePiece.signs, Sign.withValue, List.flatMap_map]
  | group i => simp [TemplatePiece.withValue, TemplatePiece.signs, Sign.withValue]

lemma toList_withValues (value : ℕ → String) (pieces : List TemplatePiece) :
    (withValues value pieces).toList = (signsOf pieces).flatMap (Sign.withValue value) := by
  rw [withValues, String.toList_join, List.flatMap_map, signsOf, List.flatMap_assoc]
  simp only [toList_withValue]

/-- Pieces that say the same are the same for all values. -/
lemma withValues_congr {pieces pieces' : List TemplatePiece} (h : signsOf pieces = signsOf pieces')
    (value : ℕ → String) : withValues value pieces = withValues value pieces' := by
  rw [← String.toList_inj, toList_withValues, toList_withValues, h]

variable {cs rest after ds : List Char} {what : Option (List Char)} {signs : List Sign}
  {pieces : List TemplatePiece} {source : String}

/-! ## Reading what is spelled -/

lemma isNumeral_toDigits (n : ℕ) : IsNumeral (Nat.toDigits 10 n) := by
  refine ⟨Nat.toDigits_ne_nil, fun d hd => ?_⟩
  have hdigit := Nat.isDigit_of_mem_toDigits (by decide) (by decide) hd
  rw [Text.isDigit, Text.digitValue?_of_isDigit hdigit]
  rfl

/-- A number in braces is read as the group, whatever stands behind it. -/
lemma Reads.braced (h : Reads after signs) (n : ℕ) :
    Reads ('$' :: '{' :: (Nat.toDigits 10 n ++ '}' :: after)) (.group n :: signs) := by
  have hgroup := Reads.group (.braced (isNumeral_toDigits n) after) h
  rwa [Text.numberOfDigits_toDigits] at hgroup

/-- A text with every dollar sign doubled is read as the text, whatever stands behind it. -/
lemma Reads.doubled (h : Reads after signs) (text : List Char) :
    Reads ((text.flatMap fun c => if c = '$' then ['$', '$'] else [c]) ++ after)
      (text.map .char ++ signs) := by
  induction text with
  | nil => exact h
  | cons c text ih =>
    rw [List.flatMap_cons, List.append_assoc, List.map_cons, List.cons_append]
    split_ifs with hc
    · rw [hc]
      exact .dollar (.dollar _) ih
    · exact .char hc ih

/-- **Pieces that are spelled are read as what they say.** -/
lemma reads_spelled (pieces : List TemplatePiece) :
    Reads (pieces.flatMap TemplatePiece.spelled) (signsOf pieces) := by
  induction pieces with
  | nil => exact .done
  | cons piece pieces ih =>
    rw [List.flatMap_cons, signsOf, List.flatMap_cons, ← signsOf]
    cases piece with
    | text s => exact ih.doubled s.toList
    | group i =>
      have hbraced := ih.braced i
      rwa [TemplatePiece.spelled, List.cons_append, List.cons_append, List.append_assoc]

/-! ## Everything says something -/

/-- A dollar sign has at most one reference behind it. -/
lemma refers_or_lone (rest : List Char) :
    (∃ what after, Refers rest what after) ∨ ∀ what after, ¬ Refers rest what after := by
  cases href : reference? rest with
  | some found => exact Or.inl ⟨found.1, found.2, reference?_eq_some_iff.mp href⟩
  | none =>
    refine Or.inr fun what after h => ?_
    rw [h.reference?] at href
    cases href

lemma Refers.length_lt (h : Refers rest what after) : after.length < rest.length :=
  reference?_length h.reference?

/-- **Every template says something.** -/
lemma exists_reads (cs : List Char) : ∃ signs, Reads cs signs := by
  -- the text behind a reference is no tail of the pattern match, so the induction is on the length
  induction hlength : cs.length using Nat.strong_induction_on generalizing cs with
  | _ n ih =>
    cases cs with
    | nil => exact ⟨[], .done⟩
    | cons c rest =>
      rw [List.length_cons] at hlength
      obtain ⟨signs, hrest⟩ := ih rest.length (by omega) rest rfl
      by_cases hc : c = '$'
      · rw [hc]
        rcases refers_or_lone rest with ⟨what, after, href⟩ | hnone
        · have := href.length_lt
          obtain ⟨signs, hafter⟩ := ih after.length (by omega) after rfl
          cases what with
          | none => exact ⟨_, .dollar href hafter⟩
          | some ds => exact ⟨_, .group href hafter⟩
        · exact ⟨_, .lone hnone hrest⟩
      · exact ⟨_, .char hc hrest⟩

/-! ## The numerals of a template -/

/-- **A template has a reference with these digits** at a place where a reference is read, from left
to right. -/
inductive Mentions (ds : List Char) : List Char → Prop
  | here {rest after : List Char} (href : Refers rest (some ds) after) : Mentions ds ('$' :: rest)
  | behind {rest after : List Char} {what : Option (List Char)} (href : Refers rest what after)
      (h : Mentions ds after) : Mentions ds ('$' :: rest)
  | char {c : Char} {rest : List Char} (hc : c ≠ '$') (h : Mentions ds rest) :
      Mentions ds (c :: rest)
  | lone {rest : List Char} (hnone : ∀ what after, ¬ Refers rest what after)
      (h : Mentions ds rest) :
      Mentions ds ('$' :: rest)

lemma not_mentions_nil : ¬ Mentions ds [] := nofun

lemma mentions_char {c : Char} (hc : c ≠ '$') : Mentions ds (c :: rest) ↔ Mentions ds rest := by
  refine ⟨fun h => ?_, .char hc⟩
  cases h with
  | char _ h => exact h
  | _ => exact absurd rfl hc

lemma mentions_lone (hnone : ∀ what after, ¬ Refers rest what after) :
    Mentions ds ('$' :: rest) ↔ Mentions ds rest := by
  refine ⟨fun h => ?_, .lone hnone⟩
  cases h with
  | here href => exact absurd href (hnone _ _)
  | behind href => exact absurd href (hnone _ _)
  | char hc => exact absurd rfl hc
  | lone _ h => exact h

lemma mentions_refers (href : Refers rest what after) :
    Mentions ds ('$' :: rest) ↔ what = some ds ∨ Mentions ds after := by
  constructor
  · intro h
    cases h with
    | here href' =>
      cases href.reference?.symm.trans href'.reference?
      exact Or.inl rfl
    | behind href' h =>
      cases href.reference?.symm.trans href'.reference?
      exact Or.inr h
    | char hc => exact absurd rfl hc
    | lone hnone => exact absurd href (hnone _ _)
  · rintro (rfl | h)
    · exact .here href
    · exact .behind href h

lemma not_refers_of_reference? (h : reference? rest = none) (what : Option (List Char))
    (after : List Char) : ¬ Refers rest what after := by
  intro href
  rw [href.reference?] at h
  cases h

/-- All numerals of a template that is parsed are short. -/
lemma length_le_of_parseList {found : List Char} (h : parseList found cs = .ok pieces)
    (hds : Mentions ds cs) : ds.length ≤ 4300 := by
  fun_induction parseList found cs generalizing pieces with
  | case1 => exact absurd hds not_mentions_nil
  | case2 found rest hnone ih =>
    exact ih h ((mentions_lone (not_refers_of_reference? hnone)).mp hds)
  | case3 found rest after href ih =>
    obtain ⟨more, hmore, -⟩ := bind_eq_ok.mp h
    rcases (mentions_refers (refers_of_reference? href)).mp hds with hnone | hds
    · cases hnone
    · exact ih hmore hds
  | case4 => cases h
  | case5 found rest ds' after href hdigits ih =>
    obtain ⟨more, hmore, -⟩ := bind_eq_ok.mp h
    rcases (mentions_refers (refers_of_reference? href)).mp hds with heq | hds
    · cases heq
      exact Nat.not_lt.mp hdigits
    · exact ih hmore hds
  | case6 found c rest hc ih => exact ih h ((mentions_char hc).mp hds)

/-- What cannot be parsed has a long numeral, and its digits are counted. -/
lemma exists_mentions_of_parseList {found : List Char} {n : ℕ} (h : parseList found cs = .error n) :
    ∃ ds, Mentions ds cs ∧ 4300 < ds.length ∧ n = ds.length := by
  fun_induction parseList found cs with
  | case1 => cases h
  | case2 found rest hnone ih =>
    obtain ⟨ds, hds, hlong⟩ := ih h
    exact ⟨ds, .lone (not_refers_of_reference? hnone) hds, hlong⟩
  | case3 found rest after href ih =>
    rcases bind_eq_error.mp h with hafter | ⟨_, -, h⟩
    · obtain ⟨ds, hds, hlong⟩ := ih hafter
      exact ⟨ds, .behind (refers_of_reference? href) hds, hlong⟩
    · cases h
  | case4 found rest ds after href hlong =>
    cases h
    exact ⟨ds, .here (refers_of_reference? href), hlong, rfl⟩
  | case5 found rest ds after href hdigits ih =>
    rcases bind_eq_error.mp h with hafter | ⟨_, -, h⟩
    · obtain ⟨ds, hds, hlong⟩ := ih hafter
      exact ⟨ds, .behind (refers_of_reference? href) hds, hlong⟩
    · cases h
  | case6 found c rest hc ih =>
    obtain ⟨ds, hds, hlong⟩ := ih h
    exact ⟨ds, .char hc hds, hlong⟩

lemma exists_mentions_of_parse {limit : Regex.Limit} (h : parse source = .error limit) :
    ∃ ds, Mentions ds source.toList ∧ 4300 < ds.length ∧ limit = .numeralTooLong ds.length := by
  unfold parse at h
  split at h
  · cases h
  · next n hn =>
    cases h
    obtain ⟨ds, hds, hlong, rfl⟩ := exists_mentions_of_parseList hn
    exact ⟨ds, hds, hlong, rfl⟩

/-- **A template can be parsed if and only if its numerals are short.** -/
lemma parse_eq_ok_iff :
    (∃ t, parse source = .ok t) ↔ ∀ ds, Mentions ds source.toList → ds.length ≤ 4300 := by
  constructor
  · rintro ⟨t, h⟩ ds hds
    unfold parse at h
    split at h
    · next pieces hpieces => exact length_le_of_parseList hpieces hds
    · cases h
  · intro hshort
    cases hparse : parse source with
    | ok t => exact ⟨t, rfl⟩
    | error limit =>
      obtain ⟨ds, hds, hlong, -⟩ := exists_mentions_of_parse hparse
      exact absurd (hshort ds hds) (Nat.not_le.mpr hlong)

lemma mentions_doubled {text : List Char}
    (h : Mentions ds ((text.flatMap fun c => if c = '$' then ['$', '$'] else [c]) ++ after)) :
    Mentions ds after := by
  induction text with
  | nil => exact h
  | cons c text ih =>
    rw [List.flatMap_cons, List.append_assoc] at h
    split_ifs at h with hc
    · rcases (mentions_refers (.dollar _)).mp h with hnone | h
      · cases hnone
      · exact ih h
    · exact ih ((mentions_char hc).mp h)

/-- What is spelled has the numerals of its groups only. -/
lemma exists_group_of_mentions_spelled (h : Mentions ds (pieces.flatMap TemplatePiece.spelled)) :
    ∃ i, .group i ∈ pieces ∧ ds = Nat.toDigits 10 i := by
  induction pieces with
  | nil => exact absurd h not_mentions_nil
  | cons piece pieces ih =>
    have hbehind (h : Mentions ds (pieces.flatMap TemplatePiece.spelled)) :
        ∃ i, .group i ∈ piece :: pieces ∧ ds = Nat.toDigits 10 i := by
      obtain ⟨i, hi, rfl⟩ := ih h
      exact ⟨i, List.mem_cons_of_mem _ hi, rfl⟩
    rw [List.flatMap_cons] at h
    cases piece with
    | text s => exact hbehind (mentions_doubled h)
    | group i =>
      rw [TemplatePiece.spelled, List.cons_append, List.cons_append, List.append_assoc] at h
      rcases (mentions_refers (.braced (isNumeral_toDigits i) _)).mp h with heq | h
      · cases heq
        exact ⟨i, List.mem_cons_self, rfl⟩
      · exact hbehind h

/-- **Templates can say anything, and parsing finds what they say.**

Texts and groups that are spelled one behind the other, whichever they are, can be parsed unless the
number of a group has more than 4300 digits; with any values for the groups the result is the texts
and the values, and so it is filled in from a match.

Every text says one thing as a template, read from left to right.  It can be parsed if and only if
its numerals have at most 4300 digits, and what is parsed says the same as the text.  Otherwise the
digits of a longer numeral are counted. -/
theorem parse_exact (pieces : List TemplatePiece) (source : String) :
    ((∀ i, .group i ∈ pieces → (Nat.toDigits 10 i).length ≤ 4300) →
      ∃ t, parse (String.ofList (pieces.flatMap TemplatePiece.spelled)) = .ok t ∧
        (∀ value, withValues value t.pieces = withValues value pieces) ∧
        ∀ m, t.fill m = withValues (valueIn m) pieces) ∧
    ∃ signs : List Sign,
      (∀ signs', Reads source.toList signs' ↔ signs' = signs) ∧
      ((∃ t, parse source = .ok t) ↔ ∀ ds, Mentions ds source.toList → ds.length ≤ 4300) ∧
      (∀ t, parse source = .ok t → t.source = source ∧ signsOf t.pieces = signs) ∧
      ∀ limit, parse source = .error limit →
        ∃ ds, Mentions ds source.toList ∧ 4300 < ds.length ∧ limit = .numeralTooLong ds.length := by
  refine ⟨fun hshort => ?_, ?_⟩
  · set spelled := String.ofList (pieces.flatMap TemplatePiece.spelled) with hspelled
    have hchars : spelled.toList = pieces.flatMap TemplatePiece.spelled := String.toList_ofList
    obtain ⟨t, hparse⟩ := parse_eq_ok_iff.mpr fun ds (hds : Mentions ds spelled.toList) => by
      rw [hchars] at hds
      obtain ⟨i, hi, rfl⟩ := exists_group_of_mentions_spelled hds
      exact hshort i hi
    have hreads := (reads_parse hparse).2
    rw [hchars] at hreads
    have hvalues := withValues_congr (hreads.unique (reads_spelled pieces))
    exact ⟨t, hparse, hvalues, fun m => by rw [fill_eq_withValues, hvalues]⟩
  · obtain ⟨signs, hreads⟩ := exists_reads source.toList
    refine ⟨signs, fun signs' => ⟨fun h => h.unique hreads, ?_⟩, parse_eq_ok_iff, fun t ht => ?_,
      fun limit hlimit => exists_mentions_of_parse hlimit⟩
    · rintro rfl
      exact hreads
    · obtain ⟨hsource, hsigns⟩ := reads_parse ht
      exact ⟨hsource, hsigns.unique hreads⟩

/-- Texts that end in a dollar sign and begin with digits or a brace, beside groups. -/
theorem parse_exact_dollars :
    ∃ t, parse (String.ofList
        ([.text "$", .group 12, .text "3\x7d$$\x7b4\x7d", .group 0].flatMap TemplatePiece.spelled))
          = .ok t ∧
      t.source = "$$$\x7b12\x7d3\x7d$$$$\x7b4\x7d$\x7b0\x7d" ∧
      (∀ value, withValues value t.pieces = "$" ++ value 12 ++ "3\x7d$$\x7b4\x7d" ++ value 0) := by
  obtain ⟨hspelled, signs, -, -, hsource, -⟩ :=
    parse_exact [.text "$", .group 12, .text "3\x7d$$\x7b4\x7d", .group 0] (String.ofList
      ([.text "$", .group 12, .text "3\x7d$$\x7b4\x7d", .group 0].flatMap TemplatePiece.spelled))
  obtain ⟨t, hparse, hvalues, -⟩ := hspelled (by
    intro i hi
    simp only [List.mem_cons, reduceCtorEq, TemplatePiece.group.injEq, false_or, List.not_mem_nil,
      or_false] at hi
    obtain rfl | rfl := hi <;> decide)
  refine ⟨t, hparse, (hsource t hparse).1.trans (by decide +kernel), fun value => ?_⟩
  rw [hvalues, withValues]
  simp [TemplatePiece.withValue, String.append_assoc]

/-- **A numeral of 4301 digits is the number of a group and cannot be parsed**, though all of its
digits but one are zeros. -/
theorem parse_longNumeral :
    Reads ('$' :: (List.replicate 4300 '0' ++ ['1'])) [.group 1] ∧
      parse (String.ofList ('$' :: (List.replicate 4300 '0' ++ ['1'])))
        = .error (.numeralTooLong 4301) := by
  have hnumeral : IsNumeral (List.replicate 4300 '0' ++ ['1']) := by
    refine ⟨List.append_ne_nil_of_right_ne_nil _ (List.cons_ne_nil _ _), fun d hd => ?_⟩
    rcases List.mem_append.mp hd with hd | hd
    · rw [List.eq_of_mem_replicate hd]
      decide
    · rw [List.mem_singleton.mp hd]
      decide
  have hlength : (List.replicate 4300 '0' ++ ['1']).length = 4301 := by
    rw [List.length_append, List.length_replicate, List.length_singleton]
  have href : Refers (List.replicate 4300 '0' ++ ['1'])
      (some (List.replicate 4300 '0' ++ ['1'])) [] := by
    have hmost : ∀ c ∈ ([] : List Char).head?, Text.isDigit c = false := nofun
    have hbare := Refers.bare hnumeral hmost
    rwa [List.append_nil] at hbare
  constructor
  · have hreads := Reads.group href .done
    rwa [Text.numberOfDigits_zeros] at hreads
  · cases hparse : parse (String.ofList ('$' :: (List.replicate 4300 '0' ++ ['1']))) with
    | ok t =>
      have hshort := parse_eq_ok_iff.mp ⟨t, hparse⟩ (List.replicate 4300 '0' ++ ['1'])
        (by rw [String.toList_ofList]; exact .here href)
      omega
    | error limit =>
      obtain ⟨ds, hds, -, rfl⟩ := exists_mentions_of_parse hparse
      rw [String.toList_ofList] at hds
      rcases (mentions_refers href).mp hds with heq | hds
      · cases heq
        rw [hlength]
      · exact absurd hds not_mentions_nil

end Template

end PathExpansion
