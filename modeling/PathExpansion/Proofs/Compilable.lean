import PathExpansion.Proofs.GlobLanguage
import PathExpansion.Proofs.WholePath

/-!
# Globs that can be compiled

A glob is read from left to right, as runs of question marks and of stars, classes in brackets, and
characters that stand for themselves; an opening bracket that no other bracket closes is one of
these.  If a glob without parentheses cannot be compiled, there is one of three things in it: a
class with an interval that goes downwards, brackets with nothing between them, which the pattern
takes for the start of a larger set, or more question marks in a row than a pattern can count.

A word of the glob is a piece, and a piece is one item of the pattern, so that it is enough to see
which items there are: nothing else is ever in the way, neither inside a piece nor between two of
them.

* `Glob.Reads` — the words of a glob; every glob has some (`Glob.exists_reads`).
* `Glob.AreFit` — nothing is wrong with the words of a glob.
* `Glob.isSome_item?_iff` — a piece is an item if and only if nothing is wrong with its word.
* `Wildcard.exists_compile_iff` — pieces that are items are what a glob needs to be compiled.
* **`PathSpec.compile_areFit`** — a glob without parentheses can be compiled if and only if nothing
  is wrong with its words, and so can a path whose parts are such globs, names and ellipses.
-/

namespace PathExpansion

namespace Glob

/-! ## The words of a glob -/

/-- What is read at one place of a glob. -/
inductive Word where
  | self (c : Char)
  | several (count : ℕ)
  | anything
  | oneOf (negated : Bool) (body : List Char)
deriving DecidableEq

/-- **The words of a glob**, from left to right. -/
inductive Reads : (glob : List Char) → List Word → Prop
  | nil : Reads [] []
  | several {count : ℕ} {rest : List Char} {words : List Word} (hrest : rest.head? ≠ some '?')
      (h : Reads rest words) :
      Reads (List.replicate (count + 1) '?' ++ rest) (.several (count + 1) :: words)
  | anything {count : ℕ} {rest : List Char} {words : List Word} (hrest : rest.head? ≠ some '*')
      (h : Reads rest words) :
      Reads (List.replicate (count + 1) '*' ++ rest) (.anything :: words)
  | oneOf {negated : Bool} {body rest : List Char} {words : List Word}
      (hclass : IsClass negated body) (h : Reads rest words) :
      Reads (classText negated body ++ rest) (.oneOf negated body :: words)
  | self {c : Char} {rest : List Char} {words : List Word} (hseveral : c ≠ '?')
      (hanything : c ≠ '*') (hclass : BeginsNoClass (c :: rest)) (h : Reads rest words) :
      Reads (c :: rest) (.self c :: words)

/-- No interval in the body of a class goes downwards. -/
def Ascends : (body : List Char) → Prop
  | low :: '-' :: high :: rest => low ≤ high ∧ Ascends rest
  | _ :: rest => Ascends rest
  | [] => True

/-- Nothing is wrong with a word in itself. -/
def Word.Fits : Word → Prop
  | .several count => count < 4294967295
  | .oneOf _ body => Ascends body
  | _ => True

/-- **Nothing is wrong with the words of a glob.**  Besides, there are no brackets with nothing
between them, a mark of negation aside. -/
structure AreFit (words : List Word) : Prop where
  fits : ∀ w ∈ words, w.Fits
  filled : ∀ negated, ¬ (classText negated []).map .self <:+: words

variable {negated : Bool} {glob rest body after : List Char} {words : List Word}

/-- **Every glob has words.** -/
lemma exists_reads (glob : List Char) : ∃ words, Reads glob words := by
  -- a word may be long, so the induction is on the length
  induction hlength : glob.length using Nat.strong_induction_on generalizing glob with
  | _ n ih =>
    cases glob with
    | nil => exact ⟨[], .nil⟩
    | cons c rest =>
      have hrun (d : Char) : ∃ words, Reads (rest.dropWhile (· == d)) words := by
        refine ih _ ?_ _ rfl
        rw [← hlength, List.length_cons]
        exact Nat.lt_succ_of_le (List.dropWhile_sublist _).length_le
      by_cases hseveral : c = '?'
      · obtain ⟨words, hwords⟩ := hrun '?'
        obtain ⟨hrest, hbehind⟩ := exists_run '?' rest
        rw [hseveral, hrest, ← List.cons_append, ← List.replicate_succ]
        exact ⟨_, .several hbehind hwords⟩
      by_cases hanything : c = '*'
      · obtain ⟨words, hwords⟩ := hrun '*'
        obtain ⟨hrest, hbehind⟩ := exists_run '*' rest
        rw [hanything, hrest, ← List.cons_append, ← List.replicate_succ]
        exact ⟨_, .anything hbehind hwords⟩
      by_cases hclass : BeginsNoClass (c :: rest)
      · obtain ⟨words, hwords⟩ := ih rest.length (by rw [← hlength]; simp) rest rfl
        exact ⟨_, .self hseveral hanything hclass hwords⟩
      · rw [BeginsNoClass] at hclass
        push Not at hclass
        obtain ⟨negated, body, after, hbody, heq⟩ := hclass
        obtain ⟨words, hwords⟩ := ih after.length
          (by rw [← hlength, heq]; simp [classText]; omega) after rfl
        rw [heq]
        exact ⟨_, .oneOf hbody hwords⟩

/-- Characters that are read for themselves are in the glob. -/
lemma Reads.isPrefix_of_self {cs : List Char} (h : Reads rest words)
    (hcs : cs.map .self <+: words) : cs <+: rest := by
  induction cs generalizing rest words with
  | nil => exact List.nil_prefix
  | cons c cs ih =>
    obtain ⟨others, rfl⟩ := hcs
    rw [List.map_cons, List.cons_append] at h
    cases h with
    | self _ _ _ h => exact List.cons_prefix_cons.mpr ⟨rfl, ih h (List.prefix_append _ _)⟩

/-- Characters that begin nothing are read for themselves. -/
lemma Reads.self_isPrefix {cs : List Char} (hcs : ∀ c ∈ cs, c ≠ '?' ∧ c ≠ '*' ∧ c ≠ '[')
    (h : Reads (cs ++ after) words) : cs.map .self <+: words := by
  induction cs generalizing words with
  | nil => exact List.nil_prefix
  | cons c cs ih =>
    rw [List.forall_mem_cons] at hcs
    obtain ⟨⟨hseveral, hanything, hopen⟩, hcs⟩ := hcs
    generalize hglob : c :: cs ++ after = glob at h
    rw [List.cons_append] at hglob
    cases h with
    | nil => cases hglob
    | several => exact absurd (List.cons.inj hglob).1 hseveral
    | anything => exact absurd (List.cons.inj hglob).1 hanything
    | oneOf =>
      rw [classText, List.cons_append] at hglob
      exact absurd (List.cons.inj hglob).1 hopen
    | self _ _ _ h =>
      obtain ⟨rfl, rfl⟩ := List.cons.inj hglob
      exact List.cons_prefix_cons.mpr ⟨rfl, ih hcs h⟩

/-! ## Words and pieces -/

/-- The piece that is made of a word. -/
def Word.piece : Word → Piece
  | .self c => .literal c
  | .several count => .several count
  | .anything => .anything
  | .oneOf negated body => .set negated body

/-- Brackets with nothing between them are an empty set, if they begin no class. -/
lemma bracket_empty (hclass : BeginsNoClass (classText negated [] ++ after)) :
    Glob.bracket ((if negated then ['!'] else []) ++ ']' :: after) = (.set negated [], after) := by
  obtain ⟨body, behind, hclose⟩ :
      ∃ body behind, closeSet? (']' :: after) = some (body, behind) := by
    rw [closeSet?]
    split_ifs <;> exact ⟨_, _, rfl⟩
  have heq := eq_of_closeSet? hclose
  have hempty : body = [] := by
    -- otherwise the first closing bracket is a member of a class
    by_contra hbody
    have hhead : (body ++ ']' :: behind).head? = body.head? := List.head?_append_of_ne_nil _ hbody
    rw [← heq, List.head?_cons] at hhead
    refine hclass negated body behind ⟨hbody, (closeSet?_closes hclose).inside, fun _ => ?_⟩ ?_
    · rw [← hhead]
      decide
    · rw [classText_append, classText_append, List.nil_append, heq]
  rw [hempty] at heq hclose
  rw [(List.cons.inj heq).2] at hclose ⊢
  cases negated with
  | true => simp [Glob.bracket, hclose]
  | false => simp [Glob.bracket, hclose]

/-- A word that stands for itself is a piece, unless it begins an empty set. -/
lemma pieces_of_self {c : Char} (hseveral : c ≠ '?') (hanything : c ≠ '*')
    (hclass : BeginsNoClass (c :: rest)) (hparenthesis : c ≠ '(' ∧ c ≠ ')')
    (hfilled : ∀ negated, ¬ classText negated [] <+: c :: rest) :
    pieces (c :: rest) = .literal c :: pieces rest := by
  refine pieces_self hseveral hanything hclass hparenthesis fun negated hempty => ?_
  by_cases hopen : c = '['
  · rw [first, if_neg hseveral, if_neg hanything, if_pos hopen] at hempty
    have heq := (eq_of_bracket (Prod.ext hempty rfl)).1
    rw [hopen, heq] at hfilled
    exact hfilled negated (List.prefix_append _ _)
  · rw [first_of_ne hseveral hanything hopen hparenthesis] at hempty
    cases hempty

/-- **The words of a glob are its pieces**, if there are no brackets with nothing between them. -/
lemma pieces_of_reads (h : Reads glob words) (hglob : ∀ c ∈ glob, c ≠ '(' ∧ c ≠ ')')
    (hfilled : ∀ negated, ¬ (classText negated []).map .self <:+: words) :
    pieces glob = words.map Word.piece := by
  have htail {w : Word} {words : List Word}
      (hfilled : ∀ negated, ¬ (classText negated []).map .self <:+: w :: words) :
      ∀ negated, ¬ (classText negated []).map .self <:+: words :=
    fun negated h => hfilled negated (h.trans (List.suffix_cons w words).isInfix)
  induction h with
  | nil => rw [pieces, List.map_nil]
  | several hrest _ ih =>
    rw [pieces_several _ hrest,
      ih (fun c hc => hglob c (List.mem_append_right _ hc)) (htail hfilled)]
    rfl
  | anything hrest _ ih =>
    rw [pieces_anything _ hrest,
      ih (fun c hc => hglob c (List.mem_append_right _ hc)) (htail hfilled)]
    rfl
  | oneOf hclass _ ih =>
    rw [pieces_class hclass, ih (fun c hc => hglob c (List.mem_append_right _ hc)) (htail hfilled)]
    rfl
  | @self c rest words hseveral hanything hclass h ih =>
    rw [List.forall_mem_cons] at hglob
    rw [pieces_of_self hseveral hanything hclass hglob.1, ih hglob.2 (htail hfilled)]
    · rfl
    · rintro negated ⟨after, heq⟩
      rw [classText, List.cons_append, List.cons.injEq] at heq
      obtain ⟨rfl, rfl⟩ := heq
      have hself : ∀ d ∈ (if negated then ['!'] else []) ++ ([] ++ [']']),
          d ≠ '?' ∧ d ≠ '*' ∧ d ≠ '[' := by
        cases negated <;> simp
      refine hfilled negated (List.IsPrefix.isInfix ?_)
      exact List.cons_prefix_cons.mpr ⟨rfl, h.self_isPrefix hself⟩

/-- If no piece is an empty set, there are no brackets with nothing between them. -/
lemma filled_of_isSimple (h : Reads glob words) (hglob : ∀ c ∈ glob, c ≠ '(' ∧ c ≠ ')')
    (hsimple : ∀ p ∈ pieces glob, p.IsSimple) (negated : Bool) :
    ¬ (classText negated []).map .self <:+: words := by
  have hother {w : Word} {words : List Word} (hw : w ≠ .self '[')
      (hrest : ¬ (classText negated []).map .self <:+: words) :
      ¬ (classText negated []).map .self <:+: w :: words := by
    rw [List.infix_cons_iff]
    rintro (hstart | hinfix)
    · exact hw (List.cons_prefix_cons.mp hstart).1.symm
    · exact hrest hinfix
  induction h with
  | nil => simp [classText]
  | several hrest _ ih =>
    rw [pieces_several _ hrest, List.forall_mem_cons] at hsimple
    exact hother (by simp) (ih (fun c hc => hglob c (List.mem_append_right _ hc)) hsimple.2)
  | anything hrest _ ih =>
    rw [pieces_anything _ hrest, List.forall_mem_cons] at hsimple
    exact hother (by simp) (ih (fun c hc => hglob c (List.mem_append_right _ hc)) hsimple.2)
  | oneOf hclass _ ih =>
    rw [pieces_class hclass, List.forall_mem_cons] at hsimple
    exact hother (by simp) (ih (fun c hc => hglob c (List.mem_append_right _ hc)) hsimple.2)
  | @self c rest words hseveral hanything hclass h ih =>
    rw [List.forall_mem_cons] at hglob
    have hempty : ∀ negated, ¬ classText negated [] <+: c :: rest := by
      rintro negated ⟨after, heq⟩
      rw [← heq] at hclass hsimple
      rw [classText_append, List.nil_append, pieces, first, if_neg (by decide), if_neg (by decide),
        if_pos rfl, bracket_empty hclass, List.forall_mem_cons] at hsimple
      exact hsimple.1.1 rfl
    rw [pieces_of_self hseveral hanything hclass hglob.1 hempty, List.forall_mem_cons] at hsimple
    rw [List.infix_cons_iff]
    rintro (hstart | hinfix)
    · exact hempty negated ((Reads.self hseveral hanything hclass h).isPrefix_of_self hstart)
    · exact ih hglob.2 hsimple.2 hinfix

end Glob

/-! ## Pieces that are items -/

namespace Regex

/-- Question marks can be counted up to a limit. -/
lemma isSome_rounds?_iff (n : ℕ) : (Part.rounds? (some n)).isSome ↔ n < 4294967295 := by
  have hlong (h : 4300 < (Nat.toDigits 10 n).length) : 4294967295 ≤ n := by
    have hten : ¬ (Nat.toDigits 10 n).length ≤ 10 := by omega
    rw [Nat.length_toDigits_le_iff (by decide) (by decide), Nat.not_lt] at hten
    exact le_trans (by decide) hten
  rw [Part.rounds?, Option.isSome_map, bound, if_neg Nat.toDigits_ne_nil, spelled_toDigits]
  split_ifs with hdigits hlarge
  · exact iff_of_false Bool.false_ne_true (Nat.not_lt.mpr (hlong hdigits))
  · exact iff_of_false Bool.false_ne_true (Nat.not_lt.mpr hlarge)
  · exact iff_of_true rfl (Nat.lt_of_not_le hlarge)

lemma isSome_setOf?_noSlash (ignoreCase : Bool) :
    ∃ test, setOf? (caseFlags ignoreCase) Glob.noSlash = some test := by
  rw [← Option.isSome_iff_exists]
  cases ignoreCase <;> decide

/-- The body of a class has members if and only if no interval in it goes downwards. -/
lemma isSome_membersOf?_iff (body : List Char) (found : List SetMember) :
    (membersOf? found (body.map Glob.memberToken)).isSome ↔ Glob.Ascends body := by
  fun_induction Glob.Ascends body generalizing found with
  | case1 low high rest ih =>
    have hminus : Glob.memberToken '-' = .plain '-' := rfl
    rw [List.map_cons, List.map_cons, List.map_cons, hminus, membersOf?, code_memberToken,
      code_memberToken]
    split_ifs with hless
    · exact iff_of_false Bool.false_ne_true fun h => Nat.not_le.mpr hless h.1
    · rw [ih]
      exact (and_iff_right (Nat.le_of_not_lt hless)).symm
  | case2 d rest hinterval ih =>
    rw [List.map_cons]
    by_cases hlast : rest = ['-']
    · subst hlast
      have hone : Glob.memberToken '-' = .plain '-' := rfl
      rw [List.map_singleton, hone, membersOf?]
      exact iff_of_true rfl (by simp [Glob.Ascends])
    · rw [membersOf?, ih]
      · intro heq
        obtain ⟨e, he, hminus⟩ := List.map_eq_singleton_iff.mp heq
        exact hlast (by rw [he, Glob.eq_of_memberToken hminus])
      · intro t ts heq
        obtain ⟨e, us, rfl, hminus, hus⟩ := List.map_eq_cons_iff.mp heq
        obtain ⟨high, vs, rfl, _, _⟩ := List.map_eq_cons_iff.mp hus
        exact hinterval high vs (by rw [Glob.eq_of_memberToken hminus])
  | case3 => exact iff_of_true rfl trivial

lemma addAll?_append (ignoreCase : Bool) (ps qs : List Part) (levels : Sketch) :
    addAll? ignoreCase (ps ++ qs) levels
      = (addAll? ignoreCase ps levels).bind (addAll? ignoreCase qs) := by
  induction ps generalizing levels with
  | nil => rfl
  | cons p ps ih =>
    rw [List.cons_append, addAll?, addAll?, Option.bind_assoc]
    exact Option.bind_congr fun levels' _ => ih levels'

end Regex

namespace Glob

open Regex (Part addAll?)

variable {ignoreCase : Bool} {glob : List Char} {words : List Word}

/-- **A piece is an item if and only if nothing is wrong with its word.** -/
lemma isSome_item?_iff {w : Word} (hw : w.piece.IsSimple) :
    (w.piece.item? ignoreCase).isSome ↔ w.Fits := by
  obtain ⟨test, htest⟩ := Regex.isSome_setOf?_noSlash ignoreCase
  cases w with
  | self c => exact iff_of_true rfl trivial
  | several count =>
    rw [Word.piece, Piece.item?, Option.isSome_map, Part.item?, htest, Option.bind_some,
      Option.isSome_map]
    exact Regex.isSome_rounds?_iff count
  | anything =>
    rw [Word.piece, Piece.item?, Option.isSome_map, Part.item?, htest, Option.bind_some,
      Option.isSome_map]
    exact iff_of_true rfl trivial
  | oneOf negated body =>
    rw [Word.piece, Piece.item?, Part.item?, Option.isSome_map, Regex.setOf?, Option.isSome_map,
      setTokens, unmarked_members negated hw.1]
    exact Regex.isSome_membersOf?_iff body []

/-- A word stands for no parenthesis and for no empty set. -/
lemma Reads.isSimple (h : Reads glob words) : ∀ w ∈ words, w.piece.IsSimple := by
  induction h with
  | nil => exact fun w hw => absurd hw List.not_mem_nil
  | oneOf hclass _ ih => exact List.forall_mem_cons.mpr ⟨⟨hclass.nonempty, hclass.inside⟩, ih⟩
  | several _ _ ih | anything _ _ ih | self _ _ _ _ ih =>
    exact List.forall_mem_cons.mpr ⟨trivial, ih⟩

/-- The parts of pieces that are items can be read. -/
lemma exists_addAll? {ps : List Piece}
    (h : ∀ p ∈ ps, p.IsSimple ∧ (p.item? ignoreCase).isSome) (items : List Regex) :
    ∃ items', addAll? ignoreCase (ps.flatMap Piece.parts) [items] = some [items'] := by
  induction ps generalizing items with
  | nil => exact ⟨items, rfl⟩
  | cons p ps ih =>
    rw [List.forall_mem_cons] at h
    obtain ⟨⟨hp, hitem⟩, hps⟩ := h
    obtain ⟨r, hr⟩ := Option.isSome_iff_exists.mp hitem
    obtain ⟨items', hitems'⟩ := ih hps (r :: items)
    refine ⟨items', ?_⟩
    rw [List.flatMap_cons, Regex.addAll?_append, addAll?_parts hp, hr]
    exact hitems'

end Glob

/-- **Pieces that are items are what a glob without parentheses needs to be compiled.** -/
lemma Wildcard.exists_compile_iff {ignoreCase descent : Bool} {glob : String}
    (hglob : ∀ c ∈ glob.toList, c ≠ '(' ∧ c ≠ ')') :
    (∃ w, Wildcard.compile ignoreCase glob descent = .ok w) ↔
      ∀ p ∈ Glob.pieces glob.toList, p.IsSimple ∧ (p.item? ignoreCase).isSome := by
  constructor
  · rintro ⟨w, hw⟩ p hp
    obtain ⟨hsimple, rs, hrs, -⟩ := Wildcard.exists_items hw hglob
    have hitems := List.forall₂_and_left (p := fun p => (p.item? ignoreCase).isSome) _ _ |>.mp
      (hrs.imp fun p r hr => ⟨by rw [hr]; rfl, hr⟩)
    exact ⟨hsimple p hp, hitems.1 p hp⟩
  · intro h
    have hsimple : ∀ p ∈ Glob.pieces glob.toList, p.IsSimple := fun p hp => (h p hp).1
    have hproper : ∀ q ∈ (Glob.pieces glob.toList).flatMap Glob.Piece.parts, q.IsProper := by
      intro q hq
      obtain ⟨p, hp, hq⟩ := List.mem_flatMap.mp hq
      exact Glob.isProper_parts (hsimple p hp) q hq
    have htokens : Regex.tokens (Glob.pattern glob).toList
        = ((Glob.pieces glob.toList).flatMap Glob.Piece.parts).flatMap Regex.Part.tokens := by
      rw [Glob.pattern, String.toList_ofList, Glob.tokens_pieces hsimple]
    have hnil : Regex.IsTail [] := Regex.IsWritten.nil.isTail
    obtain ⟨items, hitems⟩ := Glob.exists_addAll? h []
    have hread := Regex.readsAs_parts hproper
      (Regex.shows_start ignoreCase (Glob.pattern glob).toList.length) hnil
    rw [hitems] at hread
    obtain ⟨w, hw, hread⟩ := hread
    rw [List.append_nil, ← htokens, Regex.readAll] at hread
    have hsettled := (Regex.isTail_tokens hproper hnil).settled
    rw [List.append_nil, ← htokens] at hsettled
    obtain ⟨p, hp⟩ := exists_compilePattern_of_shows (Regex.settle_eq_ok hsettled) hread hw
    exact ⟨⟨glob, Glob.pattern glob, p, descent⟩, bind_eq_ok.mpr ⟨p, hp, rfl⟩⟩

/-- A glob without parentheses can be compiled if and only if nothing is wrong with its words. -/
lemma Wildcard.exists_compile_iff_areFit {ignoreCase descent : Bool} {glob : String}
    (hglob : ∀ c ∈ glob.toList, c ≠ '(' ∧ c ≠ ')') {words : List Glob.Word}
    (hwords : Glob.Reads glob.toList words) :
    (∃ w, Wildcard.compile ignoreCase glob descent = .ok w) ↔ Glob.AreFit words := by
  rw [Wildcard.exists_compile_iff hglob]
  constructor
  · intro h
    have hfilled := Glob.filled_of_isSimple hwords hglob fun p hp => (h p hp).1
    rw [Glob.pieces_of_reads hwords hglob hfilled] at h
    refine ⟨fun w hw => ?_, hfilled⟩
    obtain ⟨hsimple, hitem⟩ := h w.piece (List.mem_map_of_mem hw)
    exact (Glob.isSome_item?_iff hsimple).mp hitem
  · rintro ⟨hfits, hfilled⟩ p hp
    rw [Glob.pieces_of_reads hwords hglob hfilled] at hp
    obtain ⟨w, hw, rfl⟩ := List.mem_map.mp hp
    have hsimple := hwords.isSimple w hw
    exact ⟨hsimple, (Glob.isSome_item?_iff hsimple).mpr (hfits w hw)⟩

/-! ## Paths -/

section

variable {ignoreCase : Bool}

/-- A part of a path can be compiled if it is no glob, or one that can be. -/
lemma Component.exists_compile {part : String} (h : Glob.hasMagic part →
    ∃ w, Wildcard.compile ignoreCase part false = .ok w) :
    ∃ c, Component.compile ignoreCase part = .ok c := by
  rw [Component.compile]
  split_ifs with hempty hmagic
  · exact ⟨_, rfl⟩
  · obtain ⟨w, hw⟩ := h hmagic
    exact ⟨.wildcard w, by rw [hw]; rfl⟩
  · exact ⟨_, rfl⟩

lemma exists_mapM_compile {parts : List String}
    (h : ∀ part ∈ parts, ∃ c, Component.compile ignoreCase part = .ok c) :
    ∃ components, parts.mapM (Component.compile ignoreCase) = .ok components := by
  induction parts with
  | nil => exact ⟨[], rfl⟩
  | cons part parts ih =>
    rw [List.forall_mem_cons] at h
    obtain ⟨c, hc⟩ := h.1
    obtain ⟨cs, hcs⟩ := ih h.2
    refine ⟨c :: cs, ?_⟩
    rw [List.mapM_cons]
    exact bind_eq_ok.mpr ⟨c, hc, bind_eq_ok.mpr ⟨cs, hcs, rfl⟩⟩

namespace PathSpec

/-- **Globs without parentheses that can be compiled.**

Every such glob has words, and it can be compiled, with or without regard to case, if and only if
nothing is wrong with them: no interval goes downwards, no brackets have nothing between them, and
there are fewer question marks in a row than 4294967295.

A path can be compiled if each of its parts is a glob of this kind or no glob at all. -/
theorem compile_areFit (glob path : String) :
    ((∀ c ∈ glob.toList, c ≠ '(' ∧ c ≠ ')') →
      (∃ words, Glob.Reads glob.toList words) ∧
        ∀ words, Glob.Reads glob.toList words → ∀ ignoreCase descent,
          (∃ w, Wildcard.compile ignoreCase glob descent = .ok w) ↔ Glob.AreFit words) ∧
    ((∀ part ∈ (splitText path).1, Glob.hasMagic part →
        (∀ c ∈ part.toList, c ≠ '(' ∧ c ≠ ')') ∧
          ∃ words, Glob.Reads part.toList words ∧ Glob.AreFit words) →
      ∀ ignoreCase absolute follow,
        ∃ spec, compile ignoreCase (.text path) absolute none follow = .ok spec) := by
  refine ⟨fun hglob => ⟨Glob.exists_reads glob.toList, fun words hwords ignoreCase descent =>
    Wildcard.exists_compile_iff_areFit hglob hwords⟩, fun hpath ignoreCase absolute follow => ?_⟩
  have hparts : ∀ part ∈ (splitText path).1, ∃ c, Component.compile ignoreCase part = .ok c := by
    intro part hpart
    refine Component.exists_compile fun hmagic => ?_
    obtain ⟨hparenthesis, words, hwords, hfit⟩ := hpath part hpart hmagic
    exact (Wildcard.exists_compile_iff_areFit hparenthesis hwords).mpr hfit
  obtain ⟨components, hcomponents⟩ := exists_mapM_compile hparts
  have hsplit : (PathInput.text path).split absolute = .ok (splitText path) := rfl
  obtain ⟨spec, hspec, -⟩ := exists_compile_of_split hsplit hcomponents follow
  exact ⟨spec, hspec⟩

/-- A closing bracket at the start of a class, an interval, question marks, and a bracket that
nothing closes. -/
theorem compile_areFit_brackets :
    (splitText "/[]a-c]??///x[").1 = ["[]a-c]??", "", "x["] ∧
      Glob.Reads "[]a-c]??".toList [.oneOf false [']', 'a', '-', 'c'], .several 2] ∧
      Glob.Reads "x[".toList [.self 'x', .self '['] ∧
      (∃ w, Wildcard.compile false "[]a-c]??" false = .ok w) ∧
      ∃ spec, compile true (.text "/[]a-c]??///x[") none none false = .ok spec := by
  obtain ⟨hglob, hpath⟩ := compile_areFit "[]a-c]??" "/[]a-c]??///x["
  have hsplit : (splitText "/[]a-c]??///x[").1 = ["[]a-c]??", "", "x["] := by decide +kernel
  have hclass : Glob.Reads "[]a-c]??".toList [.oneOf false [']', 'a', '-', 'c'], .several 2] := by
    have hglob : "[]a-c]??".toList
        = Glob.classText false [']', 'a', '-', 'c']
          ++ (List.replicate (1 + 1) '?' ++ []) := by decide
    rw [hglob]
    exact .oneOf ⟨by decide, by decide, by decide⟩ (.several (by decide) .nil)
  have hlone : Glob.Reads "x[".toList [.self 'x', .self '['] := by
    have hglob : "x[".toList = ['x', '['] := by decide
    have hend : Glob.Reads ['['] [.self '['] :=
      .self (by decide) (by decide) (fun negated body rest _ => by simp [Glob.classText]) .nil
    rw [hglob]
    exact .self (by decide) (by decide) (fun negated body rest _ => by simp [Glob.classText]) hend
  have hfit : Glob.AreFit [.oneOf false [']', 'a', '-', 'c'], .several 2] :=
    ⟨by simp [Glob.Word.Fits, Glob.Ascends], by decide⟩
  refine ⟨hsplit, hclass, hlone, ((hglob (by simp)).2 _ hclass false false).mpr hfit,
    hpath (fun part hpart _ => ?_) true none false⟩
  rw [hsplit] at hpart
  simp only [List.mem_cons, List.not_mem_nil, or_false] at hpart
  rcases hpart with rfl | rfl | rfl
  · exact ⟨by simp, _, hclass, hfit⟩
  · exact ⟨by simp, [], .nil, ⟨by simp, by decide⟩⟩
  · exact ⟨by simp, _, hlone, ⟨by simp [Glob.Word.Fits], by decide⟩⟩

/-- **Brackets with nothing between them are in the way**, though nothing closes the first if the
second is a member, and neither is in a class. -/
theorem compile_emptyBrackets :
    Glob.Reads "[]".toList [.self '[', .self ']'] ∧
      (∀ ignoreCase descent w, Wildcard.compile ignoreCase "[]" descent ≠ .ok w) ∧
      ∀ ignoreCase spec, compile ignoreCase (.text "[]") none none false ≠ .ok spec := by
  refine ⟨?_, fun ignoreCase descent w h => ?_, fun ignoreCase spec h => ?_⟩
  · have hend : Glob.Reads [']'] [.self ']'] :=
      .self (by decide) (by decide) (fun negated body rest _ => by simp [Glob.classText]) .nil
    have hglob : "[]".toList = ['[', ']'] := by decide
    rw [hglob]
    refine .self (by decide) (by decide) (fun negated body rest hclass heq => ?_) hend
    have hlength := congrArg List.length heq
    have hbody := List.length_pos_iff.mpr hclass.nonempty
    simp only [Glob.classText, List.length_cons, List.length_append, List.length_nil] at hlength
    omega
  · have hnone : (Wildcard.compile ignoreCase "[]" descent).toOption = none := by
      cases ignoreCase <;> cases descent <;> decide +kernel
    rw [h] at hnone
    cases hnone
  · have hnone : (compile ignoreCase (.text "[]") none none false).toOption = none := by
      cases ignoreCase <;> decide +kernel
    rw [h] at hnone
    cases hnone

end PathSpec

end

end PathExpansion
