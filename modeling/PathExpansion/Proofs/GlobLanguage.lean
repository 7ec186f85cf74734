import PathExpansion.Proofs.GlobItems

/-!
# The names that a glob describes

What a glob says can be told without any pattern: its tokens, from left to right, each take a share
of the name.  A run of question marks takes as many characters as it is long, a run of stars any
number of them, a class in brackets one, and any other character itself.  A compiled glob without
parentheses accepts just the names that it describes so, as long as they have no slash in them.

The tokens of a glob are not those of its pattern, in which the classes are written anew and
anything else may be escaped.  The way from one to the other goes through the pieces of the glob:
each piece is one item of the pattern (`Wildcard.exists_items`) and one token of the glob
(`Glob.takes_pieces_iff`).

* `Glob.InBody`, `Glob.IsClass`, `Glob.classText` — classes, and how they are written.
* `Glob.Describes` — a glob describes a name.
* **`Wildcard.accepts_iff_describes`** — a compiled glob accepts the names that it describes.
-/

namespace PathExpansion

namespace Glob

/-! ## What a glob says -/

/-- A character belongs to the body of a class: two characters with a minus between them stand for
the interval from one to the other, and any other character for itself. -/
def InBody (c : Char) : (body : List Char) → Prop
  | low :: '-' :: high :: rest => (low ≤ c ∧ c ≤ high) ∨ InBody c rest
  | d :: rest => c = d ∨ InBody c rest
  | [] => False

/-- How a class is written. -/
def classText (negated : Bool) (body : List Char) : List Char :=
  '[' :: ((if negated then ['!'] else []) ++ (body ++ [']']))

/-- The body of a class is not empty, and no closing bracket is in it but as its first character.
An exclamation mark at the start is always the mark of negation. -/
structure IsClass (negated : Bool) (body : List Char) : Prop where
  nonempty : body ≠ []
  inside : ']' ∉ body.tail
  unmarked : negated = false → body.head? ≠ some '!'

/-- A glob does not begin with a class. -/
def BeginsNoClass (glob : List Char) : Prop :=
  ∀ negated body rest, IsClass negated body → glob ≠ classText negated body ++ rest

/-- **A glob describes a name**: the name can be split along the tokens of the glob. -/
inductive Describes : (glob name : List Char) → Prop
  | nil : Describes [] []
  | several {count : ℕ} {rest taken name : List Char} (hrest : rest.head? ≠ some '?')
      (htaken : taken.length = count + 1) (h : Describes rest name) :
      Describes (List.replicate (count + 1) '?' ++ rest) (taken ++ name)
  | anything {count : ℕ} {rest taken name : List Char} (hrest : rest.head? ≠ some '*')
      (h : Describes rest name) :
      Describes (List.replicate (count + 1) '*' ++ rest) (taken ++ name)
  | oneOf {negated : Bool} {body rest : List Char} {c : Char} {name : List Char}
      (hclass : IsClass negated body) (hc : if negated then ¬ InBody c body else InBody c body)
      (h : Describes rest name) :
      Describes (classText negated body ++ rest) (c :: name)
  | self {c : Char} {rest name : List Char} (hseveral : c ≠ '?') (hanything : c ≠ '*')
      (hclass : BeginsNoClass (c :: rest)) (h : Describes rest name) :
      Describes (c :: rest) (c :: name)

/-! ## The tokens of a glob are its pieces -/

section

variable {negated : Bool} {body rest : List Char}

lemma dropWhile_replicate (c : Char) (count : ℕ) (hrest : rest.head? ≠ some c) :
    (List.replicate count c ++ rest).takeWhile (· == c) = List.replicate count c ∧
      (List.replicate count c ++ rest).dropWhile (· == c) = rest := by
  induction count with
  | zero =>
    cases rest with
    | nil => exact ⟨rfl, rfl⟩
    | cons d rest =>
      have hd : (d == c) = false := beq_eq_false_iff_ne.mpr fun h => hrest (congrArg some h)
      simp [hd]
  | succ count ih =>
    simp [List.replicate_succ, ih]

lemma pieces_several (count : ℕ) (hrest : rest.head? ≠ some '?') :
    pieces (List.replicate (count + 1) '?' ++ rest) = .several (count + 1) :: pieces rest := by
  obtain ⟨htake, hdrop⟩ := dropWhile_replicate '?' count hrest
  rw [List.replicate_succ, List.cons_append, pieces, first, if_pos rfl, htake, hdrop,
    List.length_replicate, Nat.add_comm]

lemma pieces_anything (count : ℕ) (hrest : rest.head? ≠ some '*') :
    pieces (List.replicate (count + 1) '*' ++ rest) = .anything :: pieces rest := by
  rw [List.replicate_succ, List.cons_append, pieces, first, if_neg (by decide), if_pos rfl,
    (dropWhile_replicate '*' count hrest).2]

lemma takeWhile_closing (h : ']' ∉ body) (rest : List Char) :
    (body ++ ']' :: rest).takeWhile (· != ']') = body ∧
      (body ++ ']' :: rest).dropWhile (· != ']') = ']' :: rest := by
  have hpos : ∀ c ∈ body, (c != ']') = true := fun c hc =>
    bne_iff_ne.mpr fun heq => h (heq ▸ hc)
  rw [List.takeWhile_append_of_pos hpos, List.dropWhile_append_of_pos hpos]
  simp

/-- The body of a class is read to its end. -/
lemma closeSet?_body (hnonempty : body ≠ []) (hinside : ']' ∉ body.tail) (rest : List Char) :
    closeSet? (body ++ ']' :: rest) = some (body, rest) := by
  obtain ⟨c, cs, rfl⟩ := List.exists_cons_of_ne_nil hnonempty
  rw [List.cons_append]
  by_cases hc : c = ']'
  · obtain ⟨htake, hdrop⟩ := takeWhile_closing (show ']' ∉ cs from hinside) rest
    rw [hc, closeSet?, if_pos (by simp), htake, hdrop]
    rfl
  · have hmem : ']' ∉ c :: cs := by
      rintro (_ | ⟨_, h⟩)
      · exact hc rfl
      · exact hinside h
    obtain ⟨htake, hdrop⟩ := takeWhile_closing hmem rest
    rw [closeSet?, if_pos (by simp), ← List.cons_append, htake, hdrop]
    · rfl
    · intro _ h
      exact hc (List.cons.inj h).1

lemma IsClass.bracket (h : IsClass negated body) (rest : List Char) :
    Glob.bracket ((if negated then ['!'] else []) ++ (body ++ ']' :: rest))
      = (.set negated body, rest) := by
  cases negated with
  | true => simp [Glob.bracket, closeSet?_body h.nonempty h.inside]
  | false =>
    have hhead : (body ++ ']' :: rest).head? ≠ some '!' := by
      rw [List.head?_append_of_ne_nil _ h.nonempty]
      exact h.unmarked rfl
    rw [if_neg Bool.false_ne_true, List.nil_append, Glob.bracket]
    simp only [hhead, decide_false, if_false,
      closeSet?_body h.nonempty h.inside]

lemma classText_append (negated : Bool) (body rest : List Char) :
    classText negated body ++ rest
      = '[' :: ((if negated then ['!'] else []) ++ (body ++ ']' :: rest)) := by
  simp [classText]

lemma pieces_class (h : IsClass negated body) (rest : List Char) :
    pieces (classText negated body ++ rest) = .set negated body :: pieces rest := by
  rw [classText_append, pieces, first, if_neg (by decide), if_neg (by decide), if_pos rfl,
    h.bracket]

/-- What closes a set stands behind its body. -/
lemma eq_of_closeSet? {cs after : List Char} (h : closeSet? cs = some (body, after)) :
    cs = body ++ ']' :: after := by
  have happend : ∀ cs : List Char, ']' ∈ cs →
      cs = cs.takeWhile (· != ']') ++ ']' :: (cs.dropWhile (· != ']')).drop 1 := by
    intro cs hmem
    have hne : cs.dropWhile (· != ']') ≠ [] := by
      rw [ne_eq, List.dropWhile_eq_nil_iff]
      exact fun hall => absurd (hall _ hmem) (by decide)
    have hhead := List.head_dropWhile_not (· != ']') hne
    have hcons := List.cons_head_tail hne
    rw [bne_eq_false_iff_eq.mp hhead] at hcons
    rw [List.drop_one, hcons, List.takeWhile_append_dropWhile]
  rw [closeSet?.eq_def] at h
  split at h
  · next rest =>
    split_ifs at h with hmem
    · cases h
      rw [List.cons_append, ← happend rest (by simpa using hmem)]
    · cases h
      rfl
  · split_ifs at h with hmem
    · cases h
      exact happend cs (by simpa using hmem)

/-- An opening bracket is read as a set with what stands in front of the closing one. -/
lemma eq_of_bracket {after : List Char} (h : Glob.bracket rest = (.set negated body, after)) :
    '[' :: rest = classText negated body ++ after ∧ ']' ∉ body.tail ∧
      (negated = false → rest.head? ≠ some '!') := by
  rw [Glob.bracket] at h
  cases hclose : closeSet? (if rest.head? = some '!' then rest.drop 1 else rest) with
  | none =>
    simp only [hclose] at h
    cases h
  | some read =>
    have hinside := (closeSet?_closes hclose).inside
    have heq := eq_of_closeSet? hclose
    simp only [hclose, Prod.mk.injEq, Piece.set.injEq] at h
    obtain ⟨⟨hnegated, rfl⟩, rfl⟩ := h
    rw [classText_append]
    by_cases hmark : rest.head? = some '!'
    · rw [if_pos hmark] at heq
      rw [decide_eq_true hmark] at hnegated
      obtain ⟨tail, rfl⟩ := List.head?_eq_some_iff.mp hmark
      subst hnegated
      refine ⟨?_, hinside, fun h => by cases h⟩
      rw [← heq]
      rfl
    · rw [if_neg hmark] at heq
      rw [decide_eq_false hmark] at hnegated
      subst hnegated
      refine ⟨?_, hinside, fun _ => hmark⟩
      rw [heq]
      rfl

/-- An opening bracket that is read as a set begins a class, unless the set is empty. -/
lemma eq_classText {after : List Char} (h : Glob.bracket rest = (.set negated body, after))
    (hnonempty : body ≠ []) :
    '[' :: rest = classText negated body ++ after ∧ IsClass negated body := by
  obtain ⟨heq, hinside, hmark⟩ := eq_of_bracket h
  refine ⟨heq, hnonempty, hinside, ?_⟩
  rintro rfl hhead
  rw [classText_append, List.cons.injEq] at heq
  refine hmark rfl ?_
  rw [heq.2, if_neg Bool.false_ne_true, List.nil_append, List.head?_append_of_ne_nil _ hnonempty]
  exact hhead

/-- An opening bracket that begins no class stands for itself, unless it begins an empty set. -/
lemma pieces_self {c : Char} (hseveral : c ≠ '?') (hanything : c ≠ '*')
    (hclass : BeginsNoClass (c :: rest)) (hparenthesis : c ≠ '(' ∧ c ≠ ')')
    (hempty : ∀ negated, (first c rest).1 ≠ .set negated []) :
    pieces (c :: rest) = .literal c :: pieces rest := by
  have hfirst : first c rest = (.literal c, rest) := by
    rw [first, if_neg hseveral, if_neg hanything] at hempty ⊢
    by_cases hopen : c = '['
    · rw [if_pos hopen] at hempty ⊢
      rcases bracket_cases rest with h | ⟨negated, body, after, h, _⟩
      · rw [h, hopen]
      · rw [h] at hempty
        obtain ⟨heq, hbody⟩ := eq_classText h fun hnil => hempty negated (by rw [hnil])
        rw [← hopen] at heq
        exact absurd heq (hclass negated body after hbody)
    · rw [if_neg hopen, if_neg (by simpa using hparenthesis)]
  rw [pieces, hfirst]

end

/-! ## What pieces take -/

/-- A piece takes a share of a name. -/
def Piece.Takes : Piece → List Char → Prop
  | .literal c, u => u = [c]
  | .several count, u => u.length = count
  | .anything, _ => True
  | .set negated body, u => ∃ c, u = [c] ∧ if negated then ¬ InBody c body else InBody c body
  | .parenthesis _, _ => False

/-- Pieces in a row take the shares of a name. -/
def PiecesTake : List Piece → List Char → Prop
  | [], u => u = []
  | p :: ps, u => ∃ v w, u = v ++ w ∧ p.Takes v ∧ PiecesTake ps w

lemma first_of_ne {c : Char} {rest : List Char} (hseveral : c ≠ '?') (hanything : c ≠ '*')
    (hopen : c ≠ '[') (hparenthesis : c ≠ '(' ∧ c ≠ ')') : first c rest = (.literal c, rest) := by
  rw [first, if_neg hseveral, if_neg hanything, if_neg hopen, if_neg (by simpa using hparenthesis)]

/-- A run of a character, and what stands behind it. -/
lemma exists_run (c : Char) (rest : List Char) :
    rest = List.replicate (rest.takeWhile (· == c)).length c ++ rest.dropWhile (· == c) ∧
      (rest.dropWhile (· == c)).head? ≠ some c := by
  constructor
  · conv_lhs => rw [← List.takeWhile_append_dropWhile (p := (· == c)) (l := rest)]
    congr 1
    exact List.eq_replicate_of_mem fun d hd =>
      beq_iff_eq.mp (List.mem_takeWhile_imp (p := (· == c)) hd)
  · intro h
    have hnot := List.head?_dropWhile_not (· == c) rest
    rw [h] at hnot
    exact absurd hnot (by simp)

/-- **The pieces of a glob take a name just if the glob describes it.** -/
theorem takes_pieces_iff {glob : List Char} (hglob : ∀ c ∈ glob, c ≠ '(' ∧ c ≠ ')')
    (hsimple : ∀ p ∈ pieces glob, p.IsSimple) (name : List Char) :
    PiecesTake (pieces glob) name ↔ Describes glob name := by
  constructor
  · intro h
    fun_induction pieces glob generalizing name with
    | case1 =>
      rw [show name = [] from h]
      exact .nil
    | case2 c rest ih =>
      obtain ⟨v, w, rfl, hv, hw⟩ := h
      rw [List.forall_mem_cons] at hglob hsimple
      have hrest := ih (fun d hd => hglob.2 d ((first_sublist c rest).subset hd)) hsimple.2 w hw
      by_cases hseveral : c = '?'
      · rw [first, if_pos hseveral] at hv hrest
        obtain ⟨hrun, hbehind⟩ := exists_run '?' rest
        rw [hseveral, hrun, ← List.cons_append, ← List.replicate_succ]
        exact .several hbehind (hv.trans (Nat.add_comm _ _)) hrest
      by_cases hanything : c = '*'
      · rw [first, if_neg hseveral, if_pos hanything] at hrest
        obtain ⟨hrun, hbehind⟩ := exists_run '*' rest
        rw [hanything, hrun, ← List.cons_append, ← List.replicate_succ]
        exact .anything hbehind hrest
      by_cases hopen : c = '['
      · rw [first, if_neg hseveral, if_neg hanything, if_pos hopen] at hv hrest hsimple
        rcases bracket_cases rest with hb | ⟨negated, body, after, hb, _⟩
        · rw [hb] at hv hrest
          rw [show v = ['['] from hv, hopen]
          refine .self (by decide) (by decide) (fun negated body after hclass heq => ?_) hrest
          rw [classText_append, List.cons.injEq] at heq
          rw [heq.2, hclass.bracket] at hb
          cases hb
        · rw [hb] at hv hrest hsimple
          obtain ⟨d, rfl, hd⟩ := hv
          obtain ⟨heq, hclass⟩ := eq_classText hb hsimple.1.1
          rw [hopen, heq]
          exact .oneOf hclass hd hrest
      · rw [first_of_ne hseveral hanything hopen hglob.1] at hv hrest
        rw [show v = [c] from hv]
        refine .self hseveral hanything (fun negated body after _ heq => ?_) hrest
        rw [classText_append, List.cons.injEq] at heq
        exact hopen heq.1
  · intro h
    induction h with
    | nil =>
      rw [pieces]
      rfl
    | @several count rest taken name hbehind htaken _ ih =>
      rw [pieces_several count hbehind] at hsimple ⊢
      rw [List.forall_mem_cons] at hsimple
      exact ⟨taken, name, rfl, htaken,
        ih (fun c hc => hglob c (List.mem_append_right _ hc)) hsimple.2⟩
    | @anything count rest taken name hbehind _ ih =>
      rw [pieces_anything count hbehind] at hsimple ⊢
      rw [List.forall_mem_cons] at hsimple
      exact ⟨taken, name, rfl, trivial,
        ih (fun c hc => hglob c (List.mem_append_right _ hc)) hsimple.2⟩
    | @oneOf negated body rest c name hclass hc _ ih =>
      rw [pieces_class hclass] at hsimple ⊢
      rw [List.forall_mem_cons] at hsimple
      exact ⟨[c], name, rfl, ⟨c, rfl, hc⟩,
        ih (fun d hd => hglob d (List.mem_append_right _ hd)) hsimple.2⟩
    | @self c rest name hseveral hanything hclass _ ih =>
      rw [List.forall_mem_cons] at hglob
      have hpieces := pieces_self hseveral hanything hclass hglob.1 fun negated hempty => by
        rw [pieces, List.forall_mem_cons, hempty] at hsimple
        exact hsimple.1.1 rfl
      rw [hpieces] at hsimple ⊢
      rw [List.forall_mem_cons] at hsimple
      exact ⟨[c], name, rfl, rfl, ih hglob.2 hsimple.2⟩

end Glob

/-! ## What items take -/

namespace Regex

section

variable {test : CharacterTest} {u : List Char}

/-- Rounds of a test take as many characters, and the test holds of each. -/
lemma rounds_one_iff {n : ℕ} :
    Rounds (Regex.one test).Takes n u ↔ u.length = n ∧ ∀ c ∈ u, test.accepts c := by
  constructor
  · intro h
    induction n generalizing u with
    | zero =>
      rw [show u = [] from h]
      exact ⟨rfl, fun c hc => absurd hc List.not_mem_nil⟩
    | succ n ih =>
      obtain ⟨v, w, rfl, ⟨c, rfl, hc⟩, hw⟩ := h
      obtain ⟨hlength, hall⟩ := ih hw
      exact ⟨congrArg (· + 1) hlength, List.forall_mem_cons.mpr ⟨hc, hall⟩⟩
  · rintro ⟨rfl, h⟩
    exact rounds_one h

lemma takes_several_iff {n : ℕ} :
    (repeated .greedy n (some n) (.one test)).Takes u
      ↔ u.length = n ∧ ∀ c ∈ u, test.accepts c := by
  rw [← rounds_one_iff]
  constructor
  · rintro ⟨v, w, rfl, hv, m, hm, hw⟩
    have hzero : m = 0 := by
      have := hm n rfl
      omega
    subst hzero
    rw [show w = [] from hw, List.append_nil]
    exact hv
  · intro h
    exact ⟨u, [], (List.append_nil u).symm, h, 0, fun _ _ => Nat.zero_le _, rfl⟩

lemma takes_anything_iff :
    (repeated .greedy 0 none (.one test)).Takes u ↔ ∀ c ∈ u, test.accepts c := by
  constructor
  · rintro ⟨v, w, rfl, hv, n, _, hw⟩
    rw [show v = [] from hv]
    exact (rounds_one_iff.mp hw).2
  · exact takes_repeated_one

/-- A number is what its digits come to, however their values are told. -/
lemma foldl_toDigits {value : Char → ℕ} (h : ∀ d : Char, d.isDigit → value d = d.toNat - 48)
    (n : ℕ) : (Nat.toDigits 10 n).foldl (fun m d => 10 * m + value d) 0 = n := by
  have hvalue : ∀ (m : ℕ), ∀ d ∈ Nat.toDigits 10 n,
      10 * m + value d = 10 * m + (d.toNat - '0'.toNat) := fun m d hd =>
    congrArg (10 * m + ·) (h d (Nat.isDigit_of_mem_toDigits (by decide) (by decide) hd))
  rw [List.foldl_ext _ _ _ hvalue]
  exact Nat.ofDigitChars_toDigits (by decide) (by decide)

lemma spelled_toDigits (n : ℕ) : spelled 10 (Nat.toDigits 10 n) = n :=
  foldl_toDigits (fun _ hd => if_pos hd) n

/-- Rounds that can be read are as many as they were written. -/
lemma rounds?_some {n : ℕ} {rounds : ℕ × Option ℕ} (h : Part.rounds? (some n) = some rounds) :
    rounds = (n, some n) := by
  rw [Part.rounds?, bound] at h
  split_ifs at h with hnil
  · exact absurd hnil Nat.toDigits_ne_nil
  · cases h
  · cases h
  · rw [spelled_toDigits] at h
    cases h
    rfl

/-! ## What sets hold -/

end

section

variable {c : Char} {members : List SetMember}

/-- A member of a set holds of a character, with regard to case. -/
abbrev SetMember.Holds (c : Char) (m : SetMember) : Bool := m.hasKey .exact false c

lemma code_memberToken (d : Char) : (Glob.memberToken d).code = d.toNat := by
  rw [Glob.memberToken]
  split_ifs <;> rfl

lemma hasKey_one (d : Char) : (SetMember.one d).Holds c = (c == d) := by
  rw [SetMember.Holds, SetMember.hasKey]
  split_ifs
  · rfl
  · simp [Comparison.keys, Comparison.key, beq_eq_decide]

lemma any_membersOfCode (d : Char) :
    (membersOfCode d.toNat).any (SetMember.Holds c) = (c == d) := by
  simp [membersOfCode, character?_toNat, hasKey_one]

lemma any_membersOfRange {low high : Char} (h : low.toNat ≤ high.toNat) :
    (membersOfRange low.toNat high.toNat).any (SetMember.Holds c)
      = (decide (low ≤ c) && decide (c ≤ high)) := by
  rw [membersOfRange]
  simp [character?_toNat, h, SetMember.Holds, SetMember.hasKey, Comparison.rangeHasKey]

/-- **The members of the body of a class** hold of the characters that belong to it, besides those
that were found before. -/
lemma any_membersOf? {body : List Char} {found : List SetMember}
    (h : membersOf? found (body.map Glob.memberToken) = some members) :
    members.any (SetMember.Holds c) ↔ found.any (SetMember.Holds c) ∨ Glob.InBody c body := by
  fun_induction Glob.InBody c body generalizing found with
  | case1 low high rest ih =>
    have hminus : Glob.memberToken '-' = .plain '-' := rfl
    rw [List.map_cons, List.map_cons, List.map_cons, hminus, membersOf?, code_memberToken,
      code_memberToken] at h
    split_ifs at h with hless
    rw [ih h, List.any_append, any_membersOfRange (Nat.le_of_not_lt hless), Bool.or_eq_true,
      Bool.and_eq_true, decide_eq_true_eq, decide_eq_true_eq, or_assoc]
  | case2 d rest hinterval ih =>
    have hd : (found ++ membersOfCode d.toNat).any (SetMember.Holds c)
        ↔ found.any (SetMember.Holds c) ∨ c = d := by
      rw [List.any_append, any_membersOfCode, Bool.or_eq_true, beq_iff_eq]
    rw [List.map_cons] at h
    by_cases hlast : rest = ['-']
    · -- a minus at the end is a member
      subst hlast
      have hone : Glob.memberToken '-' = .plain '-' := rfl
      rw [List.map_singleton, hone, membersOf?, code_memberToken] at h
      cases h
      rw [List.any_append, Bool.or_eq_true, hd, List.any_cons, hasKey_one]
      simp [Glob.InBody, or_assoc]
    · rw [membersOf?, code_memberToken] at h
      · rw [ih h, hd, or_assoc]
      · intro heq
        obtain ⟨e, he, hminus⟩ := List.map_eq_singleton_iff.mp heq
        exact hlast (by rw [he, Glob.eq_of_memberToken hminus])
      · intro t ts heq
        obtain ⟨e, us, rfl, hminus, hus⟩ := List.map_eq_cons_iff.mp heq
        obtain ⟨high, vs, rfl, _, _⟩ := List.map_eq_cons_iff.mp hus
        exact hinterval high vs (by rw [Glob.eq_of_memberToken hminus])
  | case3 =>
    cases h
    simp

/-- A test for one member is no exception. -/
lemma accepts_setTest (negated : Bool) (members : List SetMember) (c : Char) :
    (setTest (caseFlags false) negated members).accepts c
      = (members.any (SetMember.Holds c) != negated) := by
  rw [setTest]
  split
  · next d hd =>
    have hany : members.any (SetMember.Holds c) = (c == d) := by
      rw [Bool.eq_iff_iff, List.any_eq_true]
      simp only [← List.mem_eraseDups (l := members), hd, List.mem_singleton, exists_eq_left,
        hasKey_one]
    rw [hany]
    cases negated with
    | true => exact (Bool.bne_true _).symm
    | false => exact (Bool.bne_false _).symm
  · rfl

/-- **The set of a class** holds of the characters that the class takes. -/
lemma accepts_class {negated : Bool} {body : List Char} (hne : body ≠ []) {test : CharacterTest}
    (h : setOf? (caseFlags false) (Glob.setTokens negated body) = some test) (c : Char) :
    test.accepts c ↔ if negated then ¬ Glob.InBody c body else Glob.InBody c body := by
  have hmark : decide ((Glob.setTokens negated body).head? = some (.plain '^')) = negated := by
    rw [Bool.eq_iff_iff, decide_eq_true_eq]
    exact Glob.head?_members_iff negated hne
  rw [setOf?, hmark, Glob.setTokens, Glob.unmarked_members negated hne] at h
  obtain ⟨members, hmembers, rfl⟩ := Option.map_eq_some_iff.mp h
  have hany := any_membersOf? (c := c) hmembers
  rw [List.any_nil] at hany
  rw [accepts_setTest]
  cases negated with
  | true => simpa using not_congr hany
  | false => simpa using hany

end

/-- A wildcard takes any character but the slash. -/
lemma setOf?_noSlash : setOf? (caseFlags false) Glob.noSlash = some (.otherThan .exact '/') := by
  decide

/-- Question marks that can be read are as many rounds. -/
lemma item?_several {count : ℕ} {r : Regex}
    (h : (Part.repeatedSet Glob.noSlash (some count)).item? false = some r) :
    r = .repeated .greedy count (some count) (.one (.otherThan .exact '/')) := by
  rw [Part.item?, setOf?_noSlash, Option.bind_some] at h
  obtain ⟨rounds, hrounds, rfl⟩ := Option.map_eq_some_iff.mp h
  rw [rounds?_some hrounds]

lemma item?_anything : (Part.repeatedSet Glob.noSlash none).item? false
    = some (.repeated .greedy 0 none (.one (.otherThan .exact '/'))) := by
  rw [Part.item?, setOf?_noSlash, Option.bind_some]
  rfl

lemma accepts_noSlash {u : List Char} (hu : '/' ∉ u) :
    ∀ c ∈ u, (CharacterTest.otherThan .exact '/').accepts c := by
  intro c hc
  have hne : c ≠ '/' := fun heq => hu (heq ▸ hc)
  show (!(c == '/')) = true
  rw [beq_eq_false_iff_ne.mpr hne, Bool.not_false]

end Regex

namespace Glob

variable {u : List Char}

/-- **The item of a piece takes what the piece takes**, of a name without a slash. -/
lemma takes_item_iff {p : Piece} (hp : p.IsSimple) {r : Regex} (hr : p.item? false = some r)
    (hu : '/' ∉ u) : r.Takes u ↔ p.Takes u := by
  cases p with
  | literal c =>
    cases hr
    constructor
    · rintro ⟨d, rfl, hd⟩
      exact congrArg (fun d => [d]) (beq_iff_eq.mp hd)
    · intro h
      exact ⟨c, h, beq_self_eq_true c⟩
  | several count =>
    obtain ⟨r', hitem, rfl⟩ := Option.map_eq_some_iff.mp hr
    rw [Regex.item?_several hitem]
    exact Regex.takes_several_iff.trans (and_iff_left (Regex.accepts_noSlash hu))
  | anything =>
    rw [Piece.item?, Regex.item?_anything] at hr
    cases hr
    exact Regex.takes_anything_iff.trans (iff_true_intro (Regex.accepts_noSlash hu))
  | set negated body =>
    obtain ⟨test, htest, rfl⟩ := Option.map_eq_some_iff.mp hr
    have haccepts := Regex.accepts_class hp.1 htest
    constructor
    · rintro ⟨c, rfl, hc⟩
      exact ⟨c, rfl, (haccepts c).mp hc⟩
    · rintro ⟨c, rfl, hc⟩
      exact ⟨c, rfl, (haccepts c).mpr hc⟩
  | parenthesis c => exact hp.elim

/-- Items in a row take what their pieces take. -/
lemma takes_items_iff {ps : List Piece} (hps : ∀ p ∈ ps, p.IsSimple) {rs : List Regex}
    (hrs : List.Forall₂ (fun p r => p.item? false = some r) ps rs) (hu : '/' ∉ u) :
    (Regex.sequence rs).Takes u ↔ PiecesTake ps u := by
  induction hrs generalizing u with
  | nil => exact Iff.rfl
  | cons hr _ ih =>
    rw [List.forall_mem_cons] at hps
    constructor
    · intro h
      obtain ⟨v, w, rfl, hv, hw⟩ := Regex.exists_of_takes_sequence_cons h
      rw [List.mem_append, not_or] at hu
      exact ⟨v, w, rfl, (takes_item_iff hps.1 hr hu.1).mp hv, (ih hps.2 hu.2).mp hw⟩
    · rintro ⟨v, w, rfl, hv, hw⟩
      rw [List.mem_append, not_or] at hu
      exact Regex.takes_sequence_cons ((takes_item_iff hps.1 hr hu.1).mpr hv)
        ((ih hps.2 hu.2).mpr hw)

end Glob

/-- **A compiled glob without parentheses accepts the names that it describes**, among those without
a slash. -/
theorem Wildcard.accepts_iff_describes {glob : String} {descent : Bool} {w : Wildcard}
    (h : Wildcard.compile false glob descent = .ok w)
    (hglob : ∀ c ∈ glob.toList, c ≠ '(' ∧ c ≠ ')') {name : String} (hname : '/' ∉ name.toList) :
    w.accepts name ↔ Glob.Describes glob.toList name.toList := by
  obtain ⟨ps, items, hparts, _, hmakeUp⟩ := Wildcard.exists_parts h
  obtain ⟨hsimple, rs, hrs, hregex⟩ := Wildcard.exists_items h hglob
  rw [Wildcard.accepts_iff hparts hmakeUp, ← hmakeUp, hregex,
    Glob.takes_items_iff hsimple hrs hname, Glob.takes_pieces_iff hglob hsimple]

/-- A leading closing bracket and an interval in a class, a run of each wildcard, a class with a
mark, and an opening bracket that nothing closes. -/
theorem Wildcard.accepts_iff_describes_classes :
    ∃ w, Wildcard.compile false "[]a-c]??**[!\\^]x[" false = .ok w ∧
      (w.accepts "]bzzzyx[" ↔ Glob.Describes "[]a-c]??**[!\\^]x[".toList "]bzzzyx[".toList) := by
  have hok : (Wildcard.compile false "[]a-c]??**[!\\^]x[" false).toOption.isSome := by
    decide +kernel
  obtain ⟨w, hw⟩ := Option.isSome_iff_exists.mp hok
  have hcompile := Regex.eq_ok_of_toOption hw
  exact ⟨w, hcompile, Wildcard.accepts_iff_describes hcompile (by simp) (by simp)⟩

end PathExpansion
