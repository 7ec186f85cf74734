import Mathlib.Data.List.TakeWhile
import PathExpansion.Listing
import PathExpansion.PathSpec.Compile
import PathExpansion.Proofs.Regex.Parts

/-!
# Globs read as patterns

The pattern of a glob is written piece by piece, and each piece comes to a few parts that are read
one by one.  Only an empty set is different: its closing bracket is read as a member, so that the
set goes on to the next closing bracket that the pattern has, wherever it comes from.

* `Glob.AreSound` — what is known of the pieces of a glob (`Glob.areSound_pieces`).
* `Regex.IsWritten` — tokens that are parts, and perhaps a set that nothing closes.
* **`Glob.isWritten_pattern`** — the pattern of a glob is written so.
* **`Wildcard.exists_parts`** — a glob that has been compiled is parts, and its pattern is what they
  add up to.
-/

namespace PathExpansion

namespace Glob

/-! ## Pieces -/

/-- The piece is a set. -/
def Piece.isSet : Piece → Bool
  | .set _ _ => true
  | _ => false

/-- **What is known of the pieces of a glob.**  A closing bracket stands only at the start of a set,
and behind an empty set there is none that could close another. -/
def AreSound : List Piece → Prop
  | [] => True
  | .set _ body :: ps =>
    (']' ∉ body.tail ∧ (body = [] → ∀ p ∈ ps, p.isSet = false)) ∧ AreSound ps
  | .parenthesis c :: ps => (c = '(' ∨ c = ')') ∧ AreSound ps
  | _ :: ps => AreSound ps

lemma not_mem_takeWhile (c : Char) (cs : List Char) : c ∉ cs.takeWhile (· != c) := by
  intro h
  have hne := List.mem_takeWhile_imp h
  exact absurd rfl (bne_iff_ne.mp hne)

/-- The body of a set, and what follows it, come from the text. -/
structure ClosesSet (cs body after : List Char) : Prop where
  closing : ']' ∈ cs
  inside : ']' ∉ body.tail
  behind : body = [] → ']' ∉ after
  sublist : after.Sublist cs

lemma closeSet?_closes {cs body after : List Char} (h : closeSet? cs = some (body, after)) :
    ClosesSet cs body after := by
  have hdrop : ∀ cs : List Char, ((cs.dropWhile (· != ']')).drop 1).Sublist cs := fun cs =>
    (List.drop_sublist 1 _).trans (List.dropWhile_sublist _)
  unfold closeSet? at h
  split at h
  · next rest =>
    split_ifs at h with hmem
    · cases h
      exact ⟨List.mem_cons_self, not_mem_takeWhile ']' rest, (fun hempty => by cases hempty),
        (hdrop rest).trans (List.sublist_cons_self _ _)⟩
    · have hbehind : ']' ∉ rest := by simpa using hmem
      cases h
      exact ⟨List.mem_cons_self, List.not_mem_nil, fun _ => hbehind,
        List.sublist_cons_self _ _⟩
  · next hfirst =>
    split_ifs at h with hmem
    · cases h
      refine ⟨by simpa using hmem, fun hin => ?_, fun hempty => ?_, hdrop cs⟩
      · exact not_mem_takeWhile ']' cs (List.mem_of_mem_tail hin)
      · cases cs with
        | nil => simp at hmem
        | cons c rest =>
          have hc : c = ']' := by
            by_contra hne
            simp [hne] at hempty
          exact absurd (by rw [hc]) (hfirst rest)

/-- An opening bracket begins a set that is closed, or stands for itself. -/
lemma bracket_cases (rest : List Char) :
    bracket rest = (.literal '[', rest) ∨
      ∃ negated body after, bracket rest = (.set negated body, after) ∧
        ClosesSet rest body after := by
  rw [bracket]
  cases hclose : closeSet? (if rest.head? = some '!' then rest.drop 1 else rest) with
  | none => exact Or.inl rfl
  | some read =>
    obtain ⟨body, after⟩ := read
    have hcloses := closeSet?_closes hclose
    refine Or.inr ⟨_, body, after, rfl, ?_⟩
    split_ifs at hcloses
    · exact ⟨List.mem_of_mem_drop hcloses.closing, hcloses.inside, hcloses.behind,
        hcloses.sublist.trans (List.drop_sublist 1 rest)⟩
    · exact hcloses

lemma first_sublist (c : Char) (rest : List Char) : (first c rest).2.Sublist rest := by
  rw [first]
  split_ifs
  · exact List.dropWhile_sublist _
  · exact List.dropWhile_sublist _
  · rcases bracket_cases rest with h | ⟨negated, body, after, h, hcloses⟩
    · rw [h]
    · rw [h]
      exact hcloses.sublist
  · exact List.Sublist.refl rest
  · exact List.Sublist.refl rest

/-- Without a closing bracket there is no set. -/
lemma isSet_eq_false {cs : List Char} (h : ']' ∉ cs) : ∀ p ∈ pieces cs, p.isSet = false := by
  fun_induction pieces cs with
  | case1 => exact fun p hp => absurd hp List.not_mem_nil
  | case2 c rest ih =>
    have hrest : ']' ∉ rest := fun hmem => h (List.mem_cons_of_mem c hmem)
    rw [List.forall_mem_cons]
    refine ⟨?_, ih fun hmem => hrest ((first_sublist c rest).subset hmem)⟩
    rw [first]
    split_ifs
    · rfl
    · rfl
    · rcases bracket_cases rest with h | ⟨negated, body, after, h, hcloses⟩
      · rw [h]
        rfl
      · exact absurd hcloses.closing hrest
    · rfl
    · rfl

/-- The pieces that a text is read as are sound. -/
theorem areSound_pieces (cs : List Char) : AreSound (pieces cs) := by
  fun_induction pieces cs with
  | case1 => trivial
  | case2 c rest ih =>
    rw [first] at ih ⊢
    split_ifs at ih ⊢ with hseveral hanything hset hparenthesis
    · exact ih
    · exact ih
    · rcases bracket_cases rest with h | ⟨negated, body, after, h, hcloses⟩
      · rw [h] at ih ⊢
        exact ih
      · rw [h] at ih ⊢
        exact ⟨⟨hcloses.inside, fun hempty => isSet_eq_false (hcloses.behind hempty)⟩, ih⟩
    · exact ⟨by simpa using hparenthesis, ih⟩
    · exact ih

/-! ## How pieces are written -/

section

open Regex (Part Token IsSetBody AreMembers unmarked IsMember)

lemma tokens_plain {cs : List Char} (h : '\\' ∉ cs) : Regex.tokens cs = cs.map .plain := by
  induction cs with
  | nil => rfl
  | cons c cs ih =>
    rw [List.mem_cons, not_or] at h
    rw [Regex.tokens_cons (Ne.symm h.1), ih h.2, List.map_cons]

lemma dangling_not_mem_map (cs : List Char) : Token.dangling ∉ cs.map Token.plain := by
  simp

/-- Text without a backslash is read for itself. -/
lemma tokens_plain_append {cs : List Char} (h : '\\' ∉ cs) (ds : List Char) :
    Regex.tokens (cs ++ ds) = cs.map .plain ++ Regex.tokens ds := by
  have htokens := tokens_plain h
  rw [Regex.tokens_append (by rw [htokens]; exact dangling_not_mem_map cs), htokens]

/-- A character of a text, escaped, is a part. -/
lemma tokens_escapeList (cs ds : List Char) :
    Regex.tokens (escapeList cs ++ ds)
      = (cs.map Part.char).flatMap Part.tokens ++ Regex.tokens ds := by
  induction cs with
  | nil => rfl
  | cons c cs ih =>
    rw [escapeList]
    split_ifs with hc
    · rw [List.cons_append, List.cons_append, Regex.tokens, ih, List.map_cons, List.flatMap_cons,
        Part.tokens, if_pos hc]
      rfl
    · have hslash : c ≠ '\\' := by
        rintro rfl
        exact hc rfl
      rw [List.cons_append, Regex.tokens_cons hslash, ih, List.map_cons, List.flatMap_cons,
        Part.tokens, if_neg hc]
      rfl

/-- How a character of a set is written. -/
def memberToken (c : Char) : Token :=
  if c = '\\' || c = '[' || c = '^' then .escaped c else .plain c

lemma tokens_escapeBody (body ds : List Char) :
    Regex.tokens (escapeBody body ++ ds) = body.map memberToken ++ Regex.tokens ds := by
  induction body with
  | nil => rfl
  | cons c body ih =>
    rw [escapeBody, List.map_cons, memberToken]
    split_ifs with hc
    · rw [List.cons_append, List.cons_append, Regex.tokens, ih]
      rfl
    · have hslash : c ≠ '\\' := by
        rintro rfl
        exact hc rfl
      rw [List.cons_append, Regex.tokens_cons hslash, ih]
      rfl

/-- How the mark of negation is written. -/
def markTokens (negated : Bool) : List Token := if negated then [.plain '^'] else []

lemma tokens_set (negated : Bool) (body ds : List Char) :
    Regex.tokens ((Piece.set negated body).pattern ++ ds)
      = .plain '[' :: (markTokens negated ++ body.map memberToken
          ++ .plain ']' :: Regex.tokens ds) := by
  have hclose : (']' : Char) ≠ '\\' := by decide
  have hbody : Regex.tokens (escapeBody body ++ ']' :: ds)
      = body.map memberToken ++ .plain ']' :: Regex.tokens ds := by
    rw [tokens_escapeBody, Regex.tokens_cons hclose]
  have hpattern : (Piece.set negated body).pattern ++ ds
      = '[' :: ((if negated then ['^'] else []) ++ (escapeBody body ++ ']' :: ds)) := by
    cases negated with
    | true =>
      show "[^".toList ++ escapeBody body ++ [']'] ++ ds = _
      simp
    | false =>
      show '[' :: escapeBody body ++ [']'] ++ ds = _
      simp
  have hmark : '\\' ∉ (if negated then ['^'] else []) := by
    cases negated <;> simp
  rw [hpattern, Regex.tokens_cons (by decide), tokens_plain_append hmark, hbody]
  cases negated <;> simp [markTokens]

/-- What stands between the brackets of the set of all characters but the slash. -/
def noSlash : List Token := [.plain '^', .plain '/']

lemma tokens_several (count : ℕ) (ds : List Char) :
    Regex.tokens ((Piece.several count).pattern ++ ds)
      = Part.opening.tokens ++ ((Part.repeatedSet noSlash (some count)).tokens
          ++ (Part.closing.tokens ++ Regex.tokens ds)) := by
  have hpattern : (Piece.several count).pattern
      = ['(', '[', '^', '/', ']', '\x7b'] ++ Nat.toDigits 10 count ++ ['\x7d', ')'] := by
    show "([^/]\x7b".toList ++ Nat.toDigits 10 count ++ "\x7d)".toList = _
    simp
  have hdigits : '\\' ∉ (Piece.several count).pattern := by
    rw [hpattern, List.mem_append, List.mem_append]
    rintro ((h | h) | h)
    · simp at h
    · exact absurd (Nat.isDigit_of_mem_toDigits (by decide) (by decide) h) (by decide)
    · simp at h
  rw [tokens_plain_append hdigits, hpattern]
  simp [Part.tokens, Part.countTokens, noSlash]

lemma tokens_anything (ds : List Char) :
    Regex.tokens (Piece.anything.pattern ++ ds)
      = Part.opening.tokens ++ ((Part.repeatedSet noSlash none).tokens
          ++ (Part.closing.tokens ++ Regex.tokens ds)) := by
  have hpattern : Piece.anything.pattern = ['(', '[', '^', '/', ']', '*', ')'] := by
    show "([^/]*)".toList = _
    simp
  rw [hpattern, tokens_plain_append (by simp)]
  simp [Part.tokens, Part.countTokens, noSlash]

/-! ## Pieces are parts -/

lemma isMember_memberToken (c : Char) : IsMember (memberToken c) := by
  rw [memberToken]
  split_ifs with hc
  · simp only [Bool.or_eq_true, decide_eq_true_eq] at hc
    rcases hc with (rfl | rfl) | rfl
    all_goals rfl
  · trivial

lemma eq_of_memberToken {c d : Char} (h : memberToken c = .plain d) : c = d := by
  rw [memberToken] at h
  split_ifs at h
  exact Token.plain.inj h

/-- Only the mark of negation is read as one, because a circumflex of the glob is escaped. -/
lemma head?_members_iff (negated : Bool) {body : List Char} (hne : body ≠ []) :
    (markTokens negated ++ body.map memberToken).head? = some (.plain '^') ↔ negated = true := by
  cases negated with
  | true => exact iff_of_true rfl rfl
  | false =>
    obtain ⟨c, cs, rfl⟩ := List.exists_cons_of_ne_nil hne
    refine iff_of_false (fun h => ?_) Bool.false_ne_true
    have htoken : memberToken c = .plain '^' := Option.some.inj h
    rw [eq_of_memberToken htoken] at htoken
    cases htoken

lemma unmarked_members (negated : Bool) {body : List Char} (hne : body ≠ []) :
    unmarked (markTokens negated ++ body.map memberToken) = body.map memberToken := by
  cases negated with
  | true => rfl
  | false => exact if_neg fun h => Bool.false_ne_true ((head?_members_iff false hne).mp h)

/-- A set that is not empty can be read as one. -/
lemma isSetBody_members (negated : Bool) {body : List Char} (hne : body ≠ [])
    (hbody : ']' ∉ body.tail) : IsSetBody (markTokens negated ++ body.map memberToken) := by
  have hmembers : AreMembers true (body.map memberToken) := by
    refine ⟨fun t ht => ?_, (fun h => by cases h), fun hmem => ?_⟩
    · obtain ⟨c, _, rfl⟩ := List.mem_map.mp ht
      exact isMember_memberToken c
    · rw [← List.map_tail] at hmem
      obtain ⟨c, hc, hclose⟩ := List.mem_map.mp hmem
      rw [eq_of_memberToken hclose] at hc
      exact hbody hc
  refine ⟨?_, ?_⟩
  · rw [unmarked_members negated hne]
    exact hmembers
  · rw [unmarked_members negated hne]
    exact fun h => hne (List.map_eq_nil_iff.mp h)

lemma isSetBody_noSlash : IsSetBody noSlash :=
  isSetBody_members true (List.cons_ne_nil '/' []) List.not_mem_nil

/-- The closing bracket of an empty set is its first member. -/
lemma isSetBody_closing (negated : Bool) : IsSetBody (markTokens negated ++ [.plain ']']) :=
  isSetBody_members negated (List.cons_ne_nil ']' []) List.not_mem_nil

open Regex (IsWritten)

/-- A set that is still open takes the start of a wildcard for members. -/
lemma isSetBody_wildcard {body : List Token} (hbody : IsSetBody body) :
    IsSetBody (body ++ [.plain '(', .plain '[', .plain '^', .plain '/']) := by
  refine hbody.append fun t ht => ?_
  simp only [List.mem_cons, List.not_mem_nil, or_false] at ht
  rcases ht with rfl | rfl | rfl | rfl
  all_goals exact ⟨trivial, by decide⟩

/-- A wildcard closes any set that is still open, and goes on as a part. -/
lemma isWritten_closed {body rest : List Token} (hbody : IsSetBody body) (count : Option ℕ)
    (hrest : IsWritten rest) :
    IsWritten (.plain '[' :: (body ++ (Part.opening.tokens
      ++ ((Part.repeatedSet noSlash count).tokens ++ (Part.closing.tokens ++ rest))))) := by
  have hset := isSetBody_wildcard hbody
  have hwritten : IsWritten ((Part.repeatedSet (body
      ++ [.plain '(', .plain '[', .plain '^', .plain '/']) count).tokens
      ++ (Part.closing.tokens ++ rest)) := .part hset (.part trivial hrest)
  simpa [Part.tokens, noSlash] using hwritten

/-- **The pattern of pieces is written in parts**, also inside a set that the empty one in front of
them has left open. -/
lemma isWritten_pieces (ps : List Piece) (h : AreSound ps) :
    IsWritten (Regex.tokens (ps.flatMap Piece.pattern)) ∧
      ((∀ p ∈ ps, p.isSet = false) → ∀ body, IsSetBody body →
        IsWritten (.plain '[' :: (body ++ Regex.tokens (ps.flatMap Piece.pattern)))) := by
  induction ps with
  | nil =>
    refine ⟨.nil, fun _ body hbody => .unclosed ?_⟩
    rw [List.flatMap_nil, Regex.tokens, List.append_nil]
    exact hbody.members
  | cons p ps ih =>
    rw [List.flatMap_cons, List.forall_mem_cons]
    cases p with
    | literal c =>
      obtain ⟨ih₁, ih₂⟩ := ih h
      have htokens : Regex.tokens ((Piece.literal c).pattern ++ ps.flatMap Piece.pattern)
          = (Part.char c).tokens ++ Regex.tokens (ps.flatMap Piece.pattern) := by
        show Regex.tokens (escapeList [c] ++ _) = _
        rw [tokens_escapeList, List.map_singleton, List.flatMap_singleton]
      rw [htokens]
      refine ⟨.part trivial ih₁, fun hset body hbody => ?_⟩
      rw [← List.append_assoc]
      refine ih₂ hset.2 _ (hbody.append fun t ht => ?_)
      rw [Part.tokens, List.mem_singleton] at ht
      split_ifs at ht with hc
      · rw [ht]
        exact ⟨hc, by simp⟩
      · rw [ht]
        exact ⟨trivial, fun hclose => hc (by rw [Token.plain.inj hclose]; rfl)⟩
    | several count =>
      obtain ⟨ih₁, ih₂⟩ := ih h
      rw [tokens_several]
      exact ⟨.part trivial (.part isSetBody_noSlash (.part trivial ih₁)),
        fun _ body hbody => isWritten_closed hbody (some count) ih₁⟩
    | anything =>
      obtain ⟨ih₁, ih₂⟩ := ih h
      rw [tokens_anything]
      exact ⟨.part trivial (.part isSetBody_noSlash (.part trivial ih₁)),
        fun _ body hbody => isWritten_closed hbody none ih₁⟩
    | set negated body =>
      obtain ⟨ih₁, ih₂⟩ := ih h.2
      refine ⟨?_, fun hset => by cases hset.1⟩
      rw [tokens_set]
      by_cases hempty : body = []
      · have hwritten := ih₂ (h.1.2 hempty) _ (isSetBody_closing negated)
        simpa [hempty] using hwritten
      · have hwritten : IsWritten ((Part.set (markTokens negated ++ body.map memberToken)).tokens
            ++ Regex.tokens (ps.flatMap Piece.pattern)) :=
          .part (isSetBody_members negated hempty h.1.1) ih₁
        simpa [Part.tokens] using hwritten
    | parenthesis c =>
      obtain ⟨ih₁, ih₂⟩ := ih h.2
      have hslash : c ≠ '\\' ∧ c ≠ ']' := by
        rcases h.1 with rfl | rfl
        all_goals decide
      have hpattern : (Piece.parenthesis c).pattern = [c] := rfl
      rw [hpattern, List.singleton_append, Regex.tokens_cons hslash.1]
      refine ⟨?_, fun hset body hbody => ?_⟩
      · rcases h.1 with rfl | rfl
        · exact .part (p := .opening) trivial ih₁
        · exact .part (p := .closing) trivial ih₁
      · rw [List.append_cons]
        refine ih₂ hset.2 _ (hbody.append fun t ht => ?_)
        rw [List.mem_singleton.mp ht]
        exact ⟨trivial, fun hclose => hslash.2 (Token.plain.inj hclose)⟩

/-- **The pattern of a glob is written in parts.** -/
theorem isWritten_pattern (glob : String) : IsWritten (Regex.tokens (pattern glob).toList) := by
  rw [pattern, String.toList_ofList]
  exact (isWritten_pieces _ (areSound_pieces glob.toList)).1

end

end Glob

/-! ## Compiled globs -/

namespace Regex

/-- **Parts that make up a pattern by themselves**, with the items that they come to, latest
first. -/
structure Part.MakeUp (ignoreCase : Bool) (ps : List Part) (items : List Regex) : Prop where
  proper : ∀ p ∈ ps, p.IsProper
  adds : addAll? ignoreCase ps [[]] = some [items]

lemma Part.MakeUp.isPlain {ignoreCase : Bool} {ps : List Part} {items : List Regex}
    (h : Part.MakeUp ignoreCase ps items) : (sequence items.reverse).IsPlain := by
  have hstart : Sketch.IsPlain [[]] :=
    List.forall_mem_singleton.mpr fun r hr => absurd hr List.not_mem_nil
  have hplain := isPlain_addAll? h.adds hstart items List.mem_cons_self
  exact isPlain_sequence fun r hr => hplain r (List.mem_reverse.mp hr)

lemma shows_start (ignoreCase : Bool) (left : ℕ) :
    (Work.start (caseFlags ignoreCase) left).Shows ignoreCase [[]] :=
  ⟨.cons ⟨rfl, rfl, rfl⟩ .nil, fun _ h => absurd h List.not_mem_nil, rfl, rfl⟩

lemma Work.Shows.exists_of_outer {ignoreCase : Bool} {w : Work} {levels : Sketch}
    (h : w.Shows ignoreCase levels) (houter : w.outer = []) :
    ∃ items, w.level.Shows ignoreCase items ∧ levels = [items] := by
  have hlevels := h.levels
  rw [houter] at hlevels
  cases hlevels with
  | @cons _ items _ rest hlevel hrest =>
    cases hrest
    exact ⟨items, hlevel, rfl⟩

lemma finish_ok {length : ℕ} {w : Work} {reading : Reading} (h : finish length w = .ok reading) :
    w.outer = [] ∧ reading.regex = w.level.body.1 ∧ reading.groups = w.next - 1 := by
  by_cases houter : w.outer = []
  · refine ⟨houter, ?_⟩
    rw [finish, if_neg (not_not.mpr houter)] at h
    split at h
    · cases h
    · split at h
      · cases h
      · split at h
        · cases h
        · cases h
        · cases h
          exact ⟨rfl, rfl⟩
  · rw [finish, if_pos houter] at h
    cases h

/-- Nothing is left to be checked when all groups are closed. -/
lemma Work.Shows.finish_eq {ignoreCase : Bool} {w : Work} {items : List Regex}
    (h : w.Shows ignoreCase [items]) (length : ℕ) :
    finish length w = .ok ⟨w.level.body.1, w.next - 1, caseFlags ignoreCase⟩ := by
  have houter : w.outer = [] := by
    have hlevels := h.levels
    generalize w.outer = outer at hlevels
    obtain ⟨-, hrest⟩ := List.forall₂_cons.mp hlevels
    cases hrest
    rfl
  have hnone : ∀ flag, flag ≠ .ignoreCase → (caseFlags ignoreCase).contains flag = false := by
    intro flag hflag
    cases ignoreCase with
    | true => simpa [caseFlags] using hflag
    | false => rfl
  simp only [finish, houter, h.flags_eq, h.asked, h.flaw, hnone .ascii (by decide),
    hnone .template (by decide)]
  rfl

/-- What has been read to the end, with all groups closed. -/
lemma exists_of_read {flags : Flags} {text : List Char} {reading : Reading}
    (h : read flags text = .ok reading) :
    ∃ w, readAll (tokens text) (.start flags text.length) = .ok w ∧ w.outer = [] ∧
      reading.regex = w.level.body.1 ∧ reading.groups = w.next - 1 := by
  rw [read] at h
  cases hread : settle (tokens text) >>=
      fun _ => readAll (tokens text) (.start flags text.length) with
  | error stop =>
    rw [hread] at h
    cases h
  | ok w =>
    rw [hread] at h
    obtain ⟨_, _, hread⟩ := bind_eq_ok.mp hread
    exact ⟨w, hread, finish_ok h⟩

end Regex

/-- What has been read when a pattern has been compiled. -/
lemma exists_of_compilePattern {ignoreCase : Bool} {source : String} {p : Pattern}
    (h : compilePattern ignoreCase source = .ok p) :
    ∃ w, Regex.readAll (Regex.tokens source.toList)
        (.start (Regex.caseFlags ignoreCase) source.toList.length) = .ok w ∧
      w.outer = [] ∧ p.regex = w.level.body.1 ∧ p.groups = w.next - 1 := by
  have hcompile : Pattern.compile ignoreCase source = .ok p := by
    rw [compilePattern] at h
    cases hcase : Pattern.compile ignoreCase source with
    | error problem =>
      rw [hcase] at h
      cases h
    | ok q =>
      rw [hcase] at h
      exact congrArg Except.ok (Except.ok.inj h)
  obtain ⟨reading, hreading, hpattern⟩ := bind_eq_ok.mp hcompile
  cases hpattern
  exact Regex.exists_of_read hreading

/-- What can be read to the end, with all groups closed, can be compiled. -/
lemma exists_compilePattern_of_shows {ignoreCase : Bool} {source : String} {w : Regex.Work}
    {items : List Regex} (hsettled : Regex.settle (Regex.tokens source.toList) = .ok ())
    (hread : Regex.readAll (Regex.tokens source.toList)
      (.start (Regex.caseFlags ignoreCase) source.toList.length) = .ok w)
    (hw : w.Shows ignoreCase [items]) : ∃ p, compilePattern ignoreCase source = .ok p := by
  have hreading : Regex.read (Regex.caseFlags ignoreCase) source.toList
      = .ok ⟨w.level.body.1, w.next - 1, Regex.caseFlags ignoreCase⟩ := by
    rw [Regex.read, hsettled]
    simp only [Regex.bind_ok, hread, hw.finish_eq]
  have hcompile : Pattern.compile ignoreCase source
      = .ok ⟨source, w.level.body.1, w.next - 1, Regex.caseFlags ignoreCase⟩ :=
    bind_eq_ok.mpr ⟨_, hreading, rfl⟩
  exact ⟨_, by rw [compilePattern, hcompile]; rfl⟩

/-- **A compiled glob is parts**, and its pattern is what they come to. -/
theorem Wildcard.exists_parts {ignoreCase descent : Bool} {glob : String} {w : Wildcard}
    (h : Wildcard.compile ignoreCase glob descent = .ok w) :
    ∃ ps items, Regex.Part.MakeUp ignoreCase ps items ∧
      Regex.tokens w.source.toList = ps.flatMap Regex.Part.tokens ∧
      w.pattern.regex.unnumbered = Regex.sequence items.reverse := by
  obtain ⟨p, hp, hw⟩ := bind_eq_ok.mp h
  cases hw
  obtain ⟨w, hread, houter, hregex, -⟩ := exists_of_compilePattern hp
  obtain ⟨ps, levels, hproper, htokens, hadds, hw⟩ :=
    (Glob.isWritten_pattern glob).exists_parts (Regex.shows_start ignoreCase _) hread
  obtain ⟨items, hlevel, rfl⟩ := hw.exists_of_outer houter
  refine ⟨ps, items, ⟨hproper, hadds⟩, htokens, ?_⟩
  rw [hregex]
  exact hlevel.body

/-- The names that a glob matches are the texts that its parts take. -/
lemma Wildcard.accepts_iff {ignoreCase : Bool} {w : Wildcard} {ps : List Regex.Part}
    {items : List Regex} (hps : Regex.Part.MakeUp ignoreCase ps items)
    (hregex : w.pattern.regex.unnumbered = Regex.sequence items.reverse) (name : String) :
    w.accepts name ↔ (Regex.sequence items.reverse).Takes name.toList := by
  have hplain : w.pattern.regex.IsPlain := by
    rw [← Regex.isPlain_unnumbered, hregex]
    exact hps.isPlain
  rw [accepts, Pattern.matchesWhole, Regex.matchesAll_iff hplain, ← Regex.takes_unnumbered, hregex]

end PathExpansion
