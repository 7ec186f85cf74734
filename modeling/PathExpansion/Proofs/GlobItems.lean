import PathExpansion.Proofs.Globs

/-!
# The items of a glob

A piece of a glob comes to one item of the pattern, a wildcard to a group of its own.  An empty set
comes to nothing that can be read: its closing bracket is a member, so the set goes on to the
bracket of the next wildcard, whose closing parenthesis has then no parenthesis to close.  So the
pattern of a glob without parentheses, if it can be read, has one item for each piece.

* `Glob.Piece.IsSimple`, `Glob.Piece.item?` — the pieces that come to an item, and the item.
* **`Glob.exists_items`** — what has been read of pieces is their items.
* **`Wildcard.exists_items`** — a compiled glob without parentheses is the items of its pieces in a
  row.
-/

namespace PathExpansion

namespace Glob

open Regex (Part Token IsSetBody IsTail ReadsAs Work readAll addAll?)

/-- The piece is a parenthesis. -/
def Piece.isParenthesis : Piece → Bool
  | .parenthesis _ => true
  | _ => false

/-- A piece that comes to one item: neither a parenthesis nor an empty set. -/
def Piece.IsSimple : Piece → Prop
  | .set _ body => body ≠ [] ∧ ']' ∉ body.tail
  | .parenthesis _ => False
  | _ => True

/-- What stands between the brackets of a set of the pattern. -/
def setTokens (negated : Bool) (body : List Char) : List Token :=
  markTokens negated ++ body.map memberToken

/-- The parts that a simple piece is written in. -/
def Piece.parts : Piece → List Part
  | .literal c => [.char c]
  | .several count => [.opening, .repeatedSet noSlash (some count), .closing]
  | .anything => [.opening, .repeatedSet noSlash none, .closing]
  | .set negated body => [.set (setTokens negated body)]
  | .parenthesis _ => []

/-- The item that a simple piece comes to, its group without a number; `none` if it cannot be
read. -/
def Piece.item? (ignoreCase : Bool) : Piece → Option Regex
  | .literal c => (Part.char c).item? ignoreCase
  | .several count => ((Part.repeatedSet noSlash (some count)).item? ignoreCase).map (.capture 0)
  | .anything => ((Part.repeatedSet noSlash none).item? ignoreCase).map (.capture 0)
  | .set negated body => (Part.set (setTokens negated body)).item? ignoreCase
  | .parenthesis _ => none

section

variable {ignoreCase : Bool} {p : Piece} {ps : List Piece}

lemma tokens_parts (hp : p.IsSimple) (ds : List Char) :
    Regex.tokens (p.pattern ++ ds) = p.parts.flatMap Part.tokens ++ Regex.tokens ds := by
  cases p with
  | literal c =>
    show Regex.tokens (escapeList [c] ++ ds) = _
    rw [tokens_escapeList]
    rfl
  | several count =>
    rw [tokens_several]
    simp [Piece.parts]
  | anything =>
    rw [tokens_anything]
    simp [Piece.parts]
  | set negated body =>
    rw [tokens_set]
    simp [Piece.parts, Part.tokens, setTokens]
  | parenthesis c => exact hp.elim

lemma isProper_parts (hp : p.IsSimple) : ∀ q ∈ p.parts, q.IsProper := by
  cases p with
  | literal c => exact List.forall_mem_singleton.mpr trivial
  | several count | anything =>
    refine List.forall_mem_cons.mpr ⟨trivial, List.forall_mem_cons.mpr ⟨isSetBody_noSlash, ?_⟩⟩
    exact List.forall_mem_singleton.mpr trivial
  | set negated body =>
    exact List.forall_mem_singleton.mpr (isSetBody_members negated hp.1 hp.2)
  | parenthesis c => exact hp.elim

/-- The parts of a wildcard add a group with their item in it. -/
lemma addAll?_group (q : Part) (hopening : q ≠ .opening) (hclosing : q ≠ .closing)
    (items : List Regex) (outer : Regex.Sketch) :
    addAll? ignoreCase [.opening, q, .closing] (items :: outer)
      = ((q.item? ignoreCase).map (.capture 0)).map fun r => (r :: items) :: outer := by
  have hopen : Part.opening.add? ignoreCase (items :: outer) = some ([] :: items :: outer) := rfl
  rw [addAll?, hopen, Option.bind_some, addAll?, Part.add?_eq_map hopening hclosing]
  cases q.item? ignoreCase <;> rfl

/-- **The parts of a simple piece add its item.** -/
lemma addAll?_parts (hp : p.IsSimple) (items : List Regex) (outer : Regex.Sketch) :
    addAll? ignoreCase p.parts (items :: outer)
      = (p.item? ignoreCase).map fun r => (r :: items) :: outer := by
  cases p with
  | several count | anything => exact addAll?_group _ (by simp) (by simp) items outer
  | set negated body =>
    rw [Piece.parts, addAll?, Part.add?_eq_map (by simp) (by simp), Piece.item?]
    cases (Part.set (setTokens negated body)).item? ignoreCase <;> rfl
  | literal c => rfl
  | parenthesis c => exact hp.elim

lemma tokens_pieces (hps : ∀ p ∈ ps, p.IsSimple) :
    Regex.tokens (ps.flatMap Piece.pattern) = (ps.flatMap Piece.parts).flatMap Part.tokens := by
  induction ps with
  | nil => rfl
  | cons p ps ih =>
    rw [List.forall_mem_cons] at hps
    rw [List.flatMap_cons, List.flatMap_cons, List.flatMap_append, tokens_parts hps.1, ih hps.2]

/-! ## Empty sets -/

/-- A set that goes on to a wildcard leaves the closing parenthesis of the wildcard alone. -/
lemma readAll_closed {body ts : List Token} {items : List Regex} {w : Work}
    (hbody : IsSetBody body) (count : Option ℕ) (hts : IsTail ts)
    (hw : w.Shows ignoreCase [items]) :
    (readAll (.plain '[' :: (body ++ (Part.opening.tokens
      ++ ((Part.repeatedSet noSlash count).tokens ++ (Part.closing.tokens ++ ts))))) w).toOption
        = none := by
  have hset := isSetBody_wildcard hbody
  set q : Part := .repeatedSet (body ++ [.plain '(', .plain '[', .plain '^', .plain '/']) count
    with hq
  have htokens : .plain '[' :: (body ++ (Part.opening.tokens
      ++ ((Part.repeatedSet noSlash count).tokens ++ (Part.closing.tokens ++ ts))))
        = [q, .closing].flatMap Part.tokens ++ ts := by
    simp [hq, Part.tokens, noSlash]
  have hproper : ∀ r ∈ [q, .closing], r.IsProper :=
    List.forall_mem_cons.mpr ⟨hset, List.forall_mem_singleton.mpr trivial⟩
  have hread := Regex.readsAs_parts hproper hw hts
  have hadd : addAll? ignoreCase [q, .closing] [items] = none := by
    rw [addAll?, Part.add?_eq_map (by simp [hq]) (by simp [hq])]
    cases q.item? ignoreCase <;> rfl
  rw [hadd] at hread
  rw [htokens]
  exact hread

/-- **An empty set cannot be read**, whatever is already in it. -/
lemma readAll_emptySet (hsound : AreSound ps) (hset : ∀ p ∈ ps, p.isSet = false)
    (hparenthesis : ∀ p ∈ ps, p.isParenthesis = false) {body : List Token} (hbody : IsSetBody body)
    {items : List Regex} {w : Work} (hw : w.Shows ignoreCase [items]) :
    (readAll (.plain '[' :: (body ++ Regex.tokens (ps.flatMap Piece.pattern))) w).toOption
      = none := by
  induction ps generalizing body with
  | nil =>
    rw [List.flatMap_nil, Regex.tokens, List.append_nil]
    exact Regex.readAll_unclosed hw.flags_eq hbody.members
  | cons p ps ih =>
    rw [List.forall_mem_cons] at hset hparenthesis
    rw [List.flatMap_cons]
    have htail : AreSound ps → IsTail (Regex.tokens (ps.flatMap Piece.pattern)) :=
      fun h => (isWritten_pieces ps h).1.isTail
    cases p with
    | literal c =>
      have htokens : Regex.tokens ((Piece.literal c).pattern ++ ps.flatMap Piece.pattern)
          = (Part.char c).tokens ++ Regex.tokens (ps.flatMap Piece.pattern) := by
        rw [tokens_parts (p := .literal c) trivial]
        simp [Piece.parts]
      rw [htokens, ← List.append_assoc]
      refine ih hsound hset.2 hparenthesis.2 (hbody.append fun t ht => ?_)
      rw [Part.tokens, List.mem_singleton] at ht
      split_ifs at ht with hc
      · rw [ht]
        exact ⟨hc, by simp⟩
      · rw [ht]
        exact ⟨trivial, fun hclose => hc (by rw [Token.plain.inj hclose]; rfl)⟩
    | several count =>
      rw [tokens_several]
      exact readAll_closed hbody (some count) (htail hsound) hw
    | anything =>
      rw [tokens_anything]
      exact readAll_closed hbody none (htail hsound) hw
    | set negated body => cases hset.1
    | parenthesis c => cases hparenthesis.1

/-! ## Pieces in a row -/

lemma AreSound.tail (h : AreSound (p :: ps)) : AreSound ps := by
  cases p with
  | set negated body => exact h.2
  | parenthesis c => exact h.2
  | _ => exact h

/-- A piece of a glob is simple, unless it is a parenthesis or an empty set. -/
lemma AreSound.isSimple (h : AreSound (p :: ps)) (hparenthesis : p.isParenthesis = false)
    (hempty : ∀ negated, p ≠ .set negated []) : p.IsSimple := by
  cases p with
  | set negated body =>
    refine ⟨?_, h.1.1⟩
    rintro rfl
    exact hempty negated rfl
  | parenthesis c => cases hparenthesis
  | _ => trivial

/-- **What has been read of pieces without parentheses is their items**, none of them an empty
set. -/
theorem exists_items (hsound : AreSound ps) (hparenthesis : ∀ p ∈ ps, p.isParenthesis = false)
    {items : List Regex} {w w' : Work} (hw : w.Shows ignoreCase [items])
    (hread : readAll (Regex.tokens (ps.flatMap Piece.pattern)) w = .ok w') :
    (∀ p ∈ ps, p.IsSimple) ∧
      ∃ rs, List.Forall₂ (fun p r => p.item? ignoreCase = some r) ps rs ∧
        w'.Shows ignoreCase [rs.reverse ++ items] := by
  induction ps generalizing w items with
  | nil =>
    rw [List.flatMap_nil, Regex.tokens, readAll] at hread
    cases hread
    exact ⟨fun p hp => absurd hp List.not_mem_nil, [], .nil, hw⟩
  | cons p ps ih =>
    rw [List.forall_mem_cons] at hparenthesis
    rw [List.flatMap_cons] at hread
    by_cases hempty : ∃ negated, p = .set negated []
    · -- the set swallows what follows up to the next closing bracket
      obtain ⟨negated, rfl⟩ := hempty
      have hnone := readAll_emptySet hsound.tail (hsound.1.2 rfl) hparenthesis.2
        (isSetBody_closing negated) hw
      rw [tokens_set, List.map_nil, List.append_nil] at hread
      rw [List.append_assoc, List.singleton_append, hread] at hnone
      cases hnone
    · have hp := hsound.isSimple hparenthesis.1 fun negated h => hempty ⟨negated, h⟩
      have hparts := Regex.readsAs_parts (isProper_parts hp) hw
        (isWritten_pieces ps hsound.tail).1.isTail
      rw [tokens_parts hp] at hread
      rw [addAll?_parts hp] at hparts
      cases hitem : p.item? ignoreCase with
      | none =>
        rw [hitem, Option.map_none, ReadsAs, hread] at hparts
        cases hparts
      | some r =>
        rw [hitem, Option.map_some] at hparts
        obtain ⟨w₁, hw₁, hread₁⟩ := hparts
        obtain ⟨hsimple, rs, hrs, hw'⟩ := ih hsound.tail hparenthesis.2 hw₁ (hread₁ ▸ hread)
        refine ⟨List.forall_mem_cons.mpr ⟨hp, hsimple⟩, r :: rs, .cons hitem hrs, ?_⟩
        rw [List.reverse_cons, List.append_assoc]
        exact hw'

end

/-- Only a parenthesis is read as one. -/
lemma isParenthesis_pieces {cs : List Char} (h : ∀ c ∈ cs, c ≠ '(' ∧ c ≠ ')') :
    ∀ p ∈ pieces cs, p.isParenthesis = false := by
  fun_induction pieces cs with
  | case1 => exact fun p hp => absurd hp List.not_mem_nil
  | case2 c rest ih =>
    rw [List.forall_mem_cons] at h ⊢
    refine ⟨?_, ih fun d hd => h.2 d ((first_sublist c rest).subset hd)⟩
    rw [first]
    split_ifs with hseveral hanything hset hparenthesis
    · rfl
    · rfl
    · rcases bracket_cases rest with h | ⟨negated, body, after, h, _⟩
      all_goals rw [h]; rfl
    · exact absurd hparenthesis (by simp [h.1])
    · rfl

end Glob

/-- **A compiled glob without parentheses** is the items of its pieces in a row. -/
theorem Wildcard.exists_items {ignoreCase descent : Bool} {glob : String} {w : Wildcard}
    (h : Wildcard.compile ignoreCase glob descent = .ok w)
    (hglob : ∀ c ∈ glob.toList, c ≠ '(' ∧ c ≠ ')') :
    (∀ p ∈ Glob.pieces glob.toList, p.IsSimple) ∧
      ∃ rs, List.Forall₂ (fun p r => p.item? ignoreCase = some r) (Glob.pieces glob.toList) rs ∧
        w.pattern.regex.unnumbered = Regex.sequence rs := by
  obtain ⟨p, hp, hw⟩ := bind_eq_ok.mp h
  cases hw
  obtain ⟨w, hread, houter, hregex, -⟩ := exists_of_compilePattern hp
  rw [Glob.pattern, String.toList_ofList] at hread
  obtain ⟨hsimple, rs, hrs, hw⟩ := Glob.exists_items (Glob.areSound_pieces _)
    (Glob.isParenthesis_pieces hglob) (Regex.shows_start ignoreCase _) hread
  obtain ⟨items, hlevel, hitems⟩ := hw.exists_of_outer houter
  cases hitems
  refine ⟨hsimple, rs, hrs, ?_⟩
  rw [hregex, hlevel.body, List.append_nil, List.reverse_reverse]

end PathExpansion
