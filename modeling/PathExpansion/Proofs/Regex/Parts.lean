import PathExpansion.Proofs.Regex.Language
import PathExpansion.Proofs.Regex.Sets
import PathExpansion.Regex.Reader

/-!
# Reading generated patterns

The patterns that are generated from globs are made of a few kinds of parts, each of which is read
in one step or two.  What a part adds to the pattern under construction depends neither on what was
read before nor on what follows, so that a pattern reads the same wherever it is put.

* `Part`, `Part.tokens` — the parts, and how they are written.
* `Sketch`, `Part.add?` — a pattern under construction, group numbers aside, and what a part adds.
* `Work.Shows` — what a reader has in hand is such a sketch.
* **`readsAs_parts`** — reading parts in front of anything.
* **`addAll?_after`** — parts add the same on top of what has been read before.
-/

namespace PathExpansion

namespace Regex

/-- A part of a generated pattern. -/
inductive Part where
  /-- A character that stands for itself. -/
  | char (c : Char)
  /-- A set, given by what stands between its brackets. -/
  | set (body : List Token)
  /-- A set that is repeated: as often as given, or any number of times. -/
  | repeatedSet (body : List Token) (count : Option ℕ)
  | opening
  | closing

namespace Part

/-- How a number of rounds is written. -/
def countTokens : Option ℕ → List Token
  | none => [.plain '*']
  | some n => .plain '\x7b' :: ((Nat.toDigits 10 n).map .plain ++ [.plain '\x7d'])

/-- How a part is written. -/
def tokens : Part → List Token
  | char c => [if isSpecial c then .escaped c else .plain c]
  | set body => .plain '[' :: (body ++ [.plain ']'])
  | repeatedSet body count => .plain '[' :: (body ++ .plain ']' :: countTokens count)
  | opening => [.plain '(']
  | closing => [.plain ')']

/-- The sets of a part can be sets. -/
def IsProper : Part → Prop
  | set body | repeatedSet body _ => IsSetBody body
  | _ => True

/-- The rounds that a count stands for; `none` if it is too great. -/
def rounds? : Option ℕ → Option (ℕ × Option ℕ)
  | none => some (0, none)
  | some n => (bound (Nat.toDigits 10 n)).toOption.map fun most => (most.getD 0, most)

end Part

/-- The flags of a generated pattern. -/
def caseFlags (ignoreCase : Bool) : Flags := if ignoreCase then [.ignoreCase] else []

/-- A pattern under construction, without the numbers of groups: the items of the innermost level
and of those around it, latest first. -/
abbrev Sketch := List (List Regex)

/-- The item that a part other than a parenthesis stands for, if it can be read. -/
def Part.item? (ignoreCase : Bool) : Part → Option Regex
  | .char c => some (.one (.literal (caseFlags ignoreCase).comparison c))
  | .set body => (setOf? (caseFlags ignoreCase) body).map .one
  | .repeatedSet body count =>
    (setOf? (caseFlags ignoreCase) body).bind fun test =>
      (Part.rounds? count).map fun rounds => .repeated .greedy rounds.1 rounds.2 (.one test)
  | .opening | .closing => none

/-- What a part adds to a sketch; `none` if it cannot be read there. -/
def Part.add? (ignoreCase : Bool) : Part → Sketch → Option Sketch
  | _, [] => none
  | .opening, items :: outer => some ([] :: items :: outer)
  | .closing, items :: outer =>
    match outer with
    | [] => none
    | parent :: outer => some ((.capture 0 (sequence items.reverse) :: parent) :: outer)
  | p, items :: outer => (p.item? ignoreCase).map fun r => (r :: items) :: outer

/-- What parts add to a sketch, from the first to the last. -/
def addAll? (ignoreCase : Bool) : List Part → Sketch → Option Sketch
  | [], levels => some levels
  | p :: ps, levels => (p.add? ignoreCase levels).bind (addAll? ignoreCase ps)

/-- A sketch with items before everything in it. -/
def Sketch.after (base : List Regex) : Sketch → Sketch
  | [] => []
  | [items] => [items ++ base]
  | items :: outer => items :: Sketch.after base outer

/-- All patterns in a sketch are plain. -/
def Sketch.IsPlain (levels : Sketch) : Prop := ∀ items ∈ levels, ∀ r ∈ items, r.IsPlain

/-! ## What parts add -/

section

variable {ignoreCase : Bool} {p : Part} {levels levels' : Sketch} {base : List Regex}

/-- A part that is no parenthesis adds its item to the innermost level. -/
lemma Part.add?_eq_map (hopening : p ≠ .opening) (hclosing : p ≠ .closing) (items : List Regex)
    (outer : Sketch) :
    p.add? ignoreCase (items :: outer)
      = (p.item? ignoreCase).map fun r => (r :: items) :: outer := by
  cases p with
  | opening => exact absurd rfl hopening
  | closing => exact absurd rfl hclosing
  | _ => rfl

lemma Sketch.after_cons (base r : List Regex) (items : List Regex) (outer : Sketch) :
    ∃ items' outer', Sketch.after base (items :: outer) = items' :: outer' ∧
      Sketch.after base ((r ++ items) :: outer) = (r ++ items') :: outer' := by
  cases outer with
  | nil => exact ⟨items ++ base, [], rfl, by rw [after, List.append_assoc]⟩
  | cons items' outer => exact ⟨items, after base (items' :: outer), rfl, rfl⟩

/-- **Parts add the same behind other items.** -/
lemma Part.add?_after (h : p.add? ignoreCase levels = some levels') (base : List Regex) :
    p.add? ignoreCase (levels.after base) = some (levels'.after base) := by
  by_cases hopening : p = .opening
  · subst hopening
    match levels with
    | [] => cases h
    | [items] | items :: parent :: outer =>
      cases h
      rfl
  by_cases hclosing : p = .closing
  · subst hclosing
    match levels with
    | [] | [items] => cases h
    | [items, parent] | items :: parent :: parent' :: outer =>
      cases h
      rfl
  cases levels with
  | nil => cases p <;> cases h
  | cons items outer =>
    rw [add?_eq_map hopening hclosing] at h
    obtain ⟨r, hr, rfl⟩ := Option.map_eq_some_iff.mp h
    obtain ⟨items', outer', hafter, hafter'⟩ := Sketch.after_cons base [r] items outer
    rw [hafter, add?_eq_map hopening hclosing, hr]
    exact congrArg some hafter'.symm

lemma addAll?_after {ps : List Part} (h : addAll? ignoreCase ps levels = some levels')
    (base : List Regex) :
    addAll? ignoreCase ps (levels.after base) = some (levels'.after base) := by
  induction ps generalizing levels with
  | nil =>
    cases h
    rfl
  | cons p ps ih =>
    obtain ⟨middle, hmiddle, hrest⟩ := Option.bind_eq_some_iff.mp h
    rw [addAll?, Part.add?_after hmiddle base]
    exact ih hrest

lemma Part.isPlain_item {r : Regex} (h : p.item? ignoreCase = some r) :
    r.IsPlain ∧ r.unnumbered = r := by
  cases p with
  | char c =>
    cases h
    exact ⟨trivial, rfl⟩
  | set body =>
    obtain ⟨test, _, rfl⟩ := Option.map_eq_some_iff.mp h
    exact ⟨trivial, rfl⟩
  | repeatedSet body count =>
    obtain ⟨test, _, hrounds⟩ := Option.bind_eq_some_iff.mp h
    obtain ⟨rounds, _, rfl⟩ := Option.map_eq_some_iff.mp hrounds
    exact ⟨trivial, rfl⟩
  | opening => cases h
  | closing => cases h

/-- Parts add nothing but plain patterns. -/
lemma Part.isPlain_add? (h : p.add? ignoreCase levels = some levels')
    (hplain : Sketch.IsPlain levels) : Sketch.IsPlain levels' := by
  by_cases hopening : p = .opening
  · subst hopening
    cases levels with
    | nil => cases h
    | cons items outer =>
      cases h
      exact List.forall_mem_cons.mpr ⟨fun r hr => absurd hr List.not_mem_nil, hplain⟩
  by_cases hclosing : p = .closing
  · subst hclosing
    match levels with
    | [] | [items] => cases h
    | items :: parent :: outer =>
      cases h
      rw [Sketch.IsPlain, List.forall_mem_cons, List.forall_mem_cons] at hplain
      refine List.forall_mem_cons.mpr ⟨List.forall_mem_cons.mpr ⟨?_, hplain.2.1⟩, hplain.2.2⟩
      exact isPlain_sequence fun r hr => hplain.1 r (List.mem_reverse.mp hr)
  cases levels with
  | nil => cases p <;> cases h
  | cons items outer =>
    rw [add?_eq_map hopening hclosing] at h
    obtain ⟨r, hr, rfl⟩ := Option.map_eq_some_iff.mp h
    rw [Sketch.IsPlain, List.forall_mem_cons] at hplain
    exact List.forall_mem_cons.mpr
      ⟨List.forall_mem_cons.mpr ⟨(isPlain_item hr).1, hplain.1⟩, hplain.2⟩

lemma isPlain_addAll? {ps : List Part} (h : addAll? ignoreCase ps levels = some levels')
    (hplain : Sketch.IsPlain levels) : Sketch.IsPlain levels' := by
  induction ps generalizing levels with
  | nil =>
    cases h
    exact hplain
  | cons p ps ih =>
    obtain ⟨middle, hmiddle, hrest⟩ := Option.bind_eq_some_iff.mp h
    exact ih hrest (Part.isPlain_add? hmiddle hplain)

end

/-! ## Reading parts -/

/-- What can follow a part: no lone backslash, and nothing that belongs to a quantifier or to a
parenthesis. -/
structure IsTail (us : List Token) : Prop where
  settled : .dangling ∉ us
  mark : us.head? ≠ some (.plain '?')
  plus : us.head? ≠ some (.plain '+')

/-- A level of a reader is one of a sketch. -/
structure Level.Shows (ignoreCase : Bool) (l : Level) (items : List Regex) : Prop where
  flags : l.flags = caseFlags ignoreCase
  branches : l.branches = []
  items : l.items.map (·.node.unnumbered) = items

/-- **What a reader has in hand is a sketch.**  All levels but the outermost are groups, and nothing
is left to be checked when everything has been read. -/
structure Work.Shows (ignoreCase : Bool) (w : Work) (levels : Sketch) : Prop where
  levels : List.Forall₂ (Level.Shows ignoreCase) (w.level :: w.outer) levels
  inner : ∀ l ∈ (w.level :: w.outer).dropLast, ∃ i, l.opener = .capture i
  asked : w.asked = []
  flaw : w.flaw = none

/-- Reading tokens in front of others makes a sketch of what was in hand, or fails. -/
def ReadsAs (ignoreCase : Bool) (ts us : List Token) (w : Work) : Option Sketch → Prop
  | some levels => ∃ w', w'.Shows ignoreCase levels ∧ readAll (ts ++ us) w = readAll us w'
  | none => (readAll (ts ++ us) w).toOption = none

section

variable {ignoreCase : Bool} {w : Work} {us rest : List Token} {levels : Sketch}

lemma readAll_of_step {t : Token} {w' : Work} {used : ℕ} (h : step t rest w = .ok (w', used)) :
    readAll (t :: rest) w = readAll (rest.drop used) w' := by
  rw [readAll, h]

lemma readAll_of_step_zero {t : Token} {w' : Work} (h : step t rest w = .ok (w', 0)) :
    readAll (t :: rest) w = readAll rest w' :=
  readAll_of_step h

lemma readAll_of_step_none {t : Token} (h : (step t rest w).toOption = none) :
    (readAll (t :: rest) w).toOption = none := by
  rw [readAll]
  cases hstep : step t rest w with
  | error e => rfl
  | ok p =>
    rw [hstep] at h
    cases h

lemma character?_toNat (c : Char) : character? c.toNat = some c := by
  have hvalid : c.toNat.isValidChar := c.valid
  rw [character?, if_pos hvalid, Char.ofNat_toNat]

@[simp] lemma verbose_not_mem_caseFlags :
    List.contains (caseFlags ignoreCase) .verbose = false := by
  cases ignoreCase <;> rfl

/-- The characters that mean something when they are not escaped are special. -/
lemma ne_of_not_isSpecial {c : Char} (hc : isSpecial c = false) {d : Char} (hd : isSpecial d) :
    c ≠ d := by
  rintro rfl
  rw [hc] at hd
  cases hd

/-- A character that stands for itself is read as a test for it. -/
lemma readAll_char (hw : w.level.flags = caseFlags ignoreCase) (hus : .dangling ∉ us) (c : Char) :
    readAll ((Part.char c).tokens ++ us) w
      = readAll us (w.push (.character (.literal (caseFlags ignoreCase).comparison c))) := by
  rw [Part.tokens, List.singleton_append]
  cases hc : isSpecial c with
  | true =>
    rw [if_pos rfl]
    refine readAll_of_step_zero ?_
    rw [step, if_neg (by simp), if_neg (by simp), settle_eq_ok hus]
    simp only [bind_ok, readEscape_special hc, itemOfEscape, codeTest, character?_toNat, hw]
    rfl
  | false =>
    have hne : ∀ d, isSpecial d → c ≠ d := fun d hd => ne_of_not_isSpecial hc hd
    rw [if_neg Bool.false_ne_true]
    refine readAll_of_step_zero ?_
    rw [step, if_neg (by simpa using hne '|' rfl),
      if_neg (by simpa using hne ')' rfl), settle_eq_ok hus]
    simp only [bind_ok, takePlain, hw, verbose_not_mem_caseFlags, Bool.false_and,
      Bool.false_eq_true, if_false]
    simp [hne '[' rfl, hne '*' rfl, hne '+' rfl, hne '?' rfl, hne '\x7b' rfl, hne '.' rfl,
      hne '(' rfl, hne '^' rfl, hne '$' rfl]
    rfl

lemma step_bracket (hw : w.level.flags = caseFlags ignoreCase) (hrest : .dangling ∉ rest) :
    step (.plain '[') rest w = (readSet (caseFlags ignoreCase) rest).map fun read =>
      (w.push (.character read.1), read.2) := by
  rw [step, if_neg (by simp), if_neg (by simp), settle_eq_ok hrest]
  simp only [bind_ok, takePlain, hw, verbose_not_mem_caseFlags, Bool.false_and,
    Bool.false_eq_true, if_false, if_true]
  cases readSet (caseFlags ignoreCase) rest <;> rfl

/-- A set is read as a test, whatever stands behind it. -/
lemma readAll_set {body : List Token} (hw : w.level.flags = caseFlags ignoreCase)
    (hbody : IsSetBody body) {us : List Token} (hus : .dangling ∉ us) :
    match setOf? (caseFlags ignoreCase) body with
    | some test => readAll (.plain '[' :: (body ++ .plain ']' :: us)) w
        = readAll us (w.push (.character test))
    | none => (readAll (.plain '[' :: (body ++ .plain ']' :: us)) w).toOption = none := by
  have hrest : .dangling ∉ body ++ .plain ']' :: us := by
    simpa [dangling_not_mem_of_members hbody.members] using hus
  have hread := readSet_append (caseFlags ignoreCase) hbody hus
  have hstep := step_bracket hw hrest
  cases htest : setOf? (caseFlags ignoreCase) body with
  | none =>
    refine readAll_of_step_none ?_
    rw [hstep, toOption_map, hread, htest]
    rfl
  | some test =>
    rw [htest] at hread
    rw [eq_ok_of_toOption hread] at hstep
    have hdrop : (body ++ .plain ']' :: us).drop (body.length + 1) = us := by
      rw [List.append_cons]
      exact List.drop_left' (by simp)
    simp only
    rw [readAll_of_step hstep, hdrop]

/-- **A set that nothing closes cannot be read.** -/
lemma readAll_unclosed {body : List Token} (hw : w.level.flags = caseFlags ignoreCase)
    (hbody : AreMembers true (unmarked body)) :
    (readAll (.plain '[' :: body) w).toOption = none := by
  refine readAll_of_step_none ?_
  rw [step_bracket hw (dangling_not_mem_of_members hbody), toOption_map,
    readSet_unclosed _ hbody]
  rfl

/-! ## Rounds -/

lemma greedOf_tail (hus : IsTail us) : greedOf us = (.greedy, 0) := by
  rw [greedOf]
  split
  · next h => exact absurd h hus.mark
  · next h => exact absurd h hus.plus
  · rfl

lemma readQuantity_star (rest : List Token) : readQuantity '*' rest = .ok (.times 0 none, 0) := rfl

lemma leading_plain {f : Char → Bool} {ds : List Char} (hds : ∀ d ∈ ds, f d) {n : ℕ}
    (hn : ds.length ≤ n) (hrest : ∀ c ts, rest = .plain c :: ts → f c = false) :
    leading f n (ds.map .plain ++ rest) = ds := by
  induction ds generalizing n with
  | nil =>
    cases n with
    | zero => rfl
    | succ n =>
      rw [List.map_nil, List.nil_append]
      cases rest with
      | nil => rfl
      | cons t ts =>
        cases t with
        | plain c => simp [leading, hrest c ts rfl]
        | escaped c => rfl
        | dangling => rfl
  | cons d ds ih =>
    rw [List.forall_mem_cons] at hds
    cases n with
    | zero => exact absurd hn (by simp)
    | succ n =>
      rw [List.map_cons, List.cons_append, leading, if_pos hds.1,
        ih hds.2 (Nat.le_of_succ_le_succ hn)]

/-- A number in braces is read as that many rounds, if it is not too great. -/
lemma readQuantity_braces {ds : List Char} (hne : ds ≠ []) (hds : ∀ d ∈ ds, d.isDigit)
    (hus : .dangling ∉ us) :
    (readQuantity '\x7b' (ds.map .plain ++ .plain '\x7d' :: us)).toOption
      = (bound ds).toOption.map fun most => (.times (most.getD 0) most, ds.length + 1) := by
  have hbrace : ∀ d ∈ ds, Token.plain d ≠ .plain '\x7d' := by
    intro d hd h
    have := hds d hd
    rw [Token.plain.inj h] at this
    exact absurd this (by decide)
  set ts := ds.map Token.plain ++ .plain '\x7d' :: us with hts
  have hlow : leading Char.isDigit ts.length ts = ds := by
    refine leading_plain hds (by simp [hts]) ?_
    intro c rest h
    rw [List.cons.injEq, Token.plain.injEq] at h
    rw [← h.1]
    rfl
  have hdrop : ts.drop ds.length = .plain '\x7d' :: us :=
    List.drop_left' (List.length_map Token.plain)
  have hused : ts.drop (ds.length + (0 + 1)) = us := by
    rw [← List.drop_drop, hdrop]
    rfl
  have hhead : ts.head? ≠ some (.plain '\x7d') := by
    obtain ⟨d, ds', rfl⟩ := List.exists_cons_of_ne_nil hne
    intro h
    exact hbrace d List.mem_cons_self (Option.some.inj h)
  rw [readQuantity, if_neg (by decide), if_neg (by decide), if_neg (by decide), readBounds]
  have hcomma : ¬ (some (Token.plain '\x7d') = some (.plain ',')) := by simp
  simp only [hlow, hdrop, List.head?_cons, hcomma, decide_false, Bool.false_eq_true, if_false,
    hhead, ne_eq, not_true_eq_false, Bool.or_self, Nat.add_zero, hused, settle_eq_ok hus, bind_ok]
  cases bound ds with
  | error e => rfl
  | ok most =>
    have hany : most.any (· < most.getD 0) = false := by
      cases most with
      | none => rfl
      | some m => simp
    simp only [bind_ok, hany, Bool.false_eq_true, if_false]
    rfl

lemma step_quantifier {c : Char} (hc : c = '*' ∨ c = '\x7b')
    (hw : w.level.flags = caseFlags ignoreCase) (hrest : .dangling ∉ rest) :
    step (.plain c) rest w = takeQuantifier c rest w := by
  rcases hc with rfl | rfl
  all_goals
    rw [step, if_neg (by simp), if_neg (by simp), settle_eq_ok hrest]
    simp only [bind_ok, takePlain, hw, verbose_not_mem_caseFlags]
    rfl

/-- A test that is repeated. -/
def Item.rounds (test : CharacterTest) (least : ℕ) (most : Option ℕ) : Item :=
  ⟨.repeated .greedy least most (.one test), .repetition, Width.one.times least most⟩

/-- A quantifier repeats the test in front of it. -/
lemma takeQuantifier_character {c : Char} {least used : ℕ} {most : Option ℕ}
    (hread : readQuantity c rest = .ok (.times least most, used)) (hus : IsTail (rest.drop used))
    (test : CharacterTest) :
    takeQuantifier c rest (w.push (.character test))
      = .ok (w.push (.rounds test least most), used) := by
  rw [takeQuantifier, hread]
  simp only [bind_ok, greedOf_tail hus, Nat.add_zero, settle_eq_ok hus.settled]
  rfl

/-- Rounds are read as a repetition of the test in front of them. -/
lemma readAll_count (hw : w.level.flags = caseFlags ignoreCase) (hus : IsTail us)
    (test : CharacterTest) (count : Option ℕ) :
    match Part.rounds? count with
    | some rounds => readAll (Part.countTokens count ++ us) (w.push (.character test))
        = readAll us (w.push (.rounds test rounds.1 rounds.2))
    | none =>
      (readAll (Part.countTokens count ++ us) (w.push (.character test))).toOption = none := by
  have hflags : (w.push (.character test)).level.flags = caseFlags ignoreCase := hw
  cases count with
  | none =>
    rw [Part.countTokens, List.singleton_append]
    refine readAll_of_step_zero ?_
    rw [step_quantifier (Or.inl rfl) hflags hus.settled,
      takeQuantifier_character (readQuantity_star us) hus]
  | some n =>
    set ds := Nat.toDigits 10 n with hds
    have hread := readQuantity_braces (Nat.toDigits_ne_nil : ds ≠ [])
      (fun d hd => Nat.isDigit_of_mem_toDigits (by decide) (by decide) hd) hus.settled
    have htokens : Part.countTokens (some n) ++ us
        = .plain '\x7b' :: (ds.map .plain ++ .plain '\x7d' :: us) := by
      simp [Part.countTokens, hds]
    have hrest : .dangling ∉ ds.map .plain ++ .plain '\x7d' :: us := by
      simpa using hus.settled
    have hstep := step_quantifier (Or.inr rfl) hflags hrest
    rw [Part.rounds?, htokens, ← hds]
    cases hbound : bound ds with
    | error e =>
      rw [hbound] at hread
      obtain ⟨problem, hquantity⟩ := exists_eq_error hread
      refine readAll_of_step_none ?_
      rw [hstep, takeQuantifier, hquantity]
      rfl
    | ok most =>
      rw [hbound] at hread
      have hdrop : (ds.map Token.plain ++ .plain '\x7d' :: us).drop (ds.length + 1) = us := by
        rw [List.append_cons]
        exact List.drop_left' (by simp)
      simp only [Except.toOption, Option.map_some]
      rw [readAll_of_step (hstep.trans (takeQuantifier_character (eq_ok_of_toOption hread)
        (by rw [hdrop]; exact hus) test)), hdrop]

/-- **A part that is no parenthesis** is read as its item, whatever stands behind it. -/
lemma readAll_item {p : Part} (hp : p.IsProper) (hopening : p ≠ .opening) (hclosing : p ≠ .closing)
    (hw : w.level.flags = caseFlags ignoreCase) (hus : IsTail us) :
    match p.item? ignoreCase with
    | some r => ∃ item : Item, item.node = r ∧ readAll (p.tokens ++ us) w = readAll us (w.push item)
    | none => (readAll (p.tokens ++ us) w).toOption = none := by
  cases p with
  | opening => exact absurd rfl hopening
  | closing => exact absurd rfl hclosing
  | char c => exact ⟨_, rfl, readAll_char hw hus.settled c⟩
  | set body =>
    have hread := readAll_set hw hp hus.settled
    have htokens : (Part.set body).tokens ++ us = .plain '[' :: (body ++ .plain ']' :: us) := by
      simp [Part.tokens]
    rw [htokens, Part.item?]
    cases htest : setOf? (caseFlags ignoreCase) body with
    | none =>
      rw [htest] at hread
      exact hread
    | some test =>
      rw [htest] at hread
      exact ⟨_, rfl, hread⟩
  | repeatedSet body count =>
    have hcount : .dangling ∉ Part.countTokens count := by
      cases count <;> simp [Part.countTokens]
    have hsettled : .dangling ∉ Part.countTokens count ++ us := by
      simp [hcount, hus.settled]
    have hread := readAll_set hw hp hsettled
    have htokens : (Part.repeatedSet body count).tokens ++ us
        = .plain '[' :: (body ++ .plain ']' :: (Part.countTokens count ++ us)) := by
      simp [Part.tokens]
    rw [htokens, Part.item?]
    cases htest : setOf? (caseFlags ignoreCase) body with
    | none =>
      rw [htest] at hread
      exact hread
    | some test =>
      rw [htest] at hread
      have hrounds := readAll_count hw hus test count
      simp only [Option.bind_some]
      cases hr : Part.rounds? count with
      | none =>
        rw [hr] at hrounds
        rw [hread]
        exact hrounds
      | some rounds =>
        rw [hr] at hrounds
        exact ⟨_, rfl, hread.trans hrounds⟩

/-! ## Parentheses -/

lemma Work.Shows.flags_eq (h : w.Shows ignoreCase levels) :
    w.level.flags = caseFlags ignoreCase := by
  cases h.levels with
  | cons hlevel _ => exact hlevel.flags

lemma Work.Shows.push {items : List Regex} {outer : Sketch}
    (h : w.Shows ignoreCase (items :: outer)) (item : Item) :
    (w.push item).Shows ignoreCase ((item.node.unnumbered :: items) :: outer) := by
  cases h.levels with
  | cons hlevel houter =>
    refine ⟨.cons ⟨hlevel.flags, hlevel.branches, ?_⟩ houter, ?_, h.asked, h.flaw⟩
    · exact congrArg (item.node.unnumbered :: ·) hlevel.items
    · have hinner := h.inner
      cases hw : w.outer with
      | nil =>
        intro l hl
        rw [Work.push, hw] at hl
        cases hl
      | cons parent rest =>
        rw [hw, List.dropLast_cons_cons, List.forall_mem_cons] at hinner
        rw [Work.push, hw, List.dropLast_cons_cons, List.forall_mem_cons]
        exact hinner

/-- The pattern of a level without alternatives is its items in a row. -/
lemma Level.body_of_branches {l : Level} (h : l.branches = []) :
    l.body.1 = sequence (l.items.reverse.map (·.node)) := by
  rw [Level.body, h]
  rfl

lemma Level.Shows.exists_body {l : Level} {items : List Regex} (h : l.Shows ignoreCase items) :
    ∃ nodes, l.body.1 = sequence nodes ∧ nodes.map unnumbered = items.reverse := by
  refine ⟨l.items.reverse.map (·.node), body_of_branches h.branches, ?_⟩
  rw [List.map_map, ← h.items, ← List.map_reverse]
  rfl

lemma Level.Shows.body {l : Level} {items : List Regex} (h : l.Shows ignoreCase items) :
    l.body.1.unnumbered = sequence items.reverse := by
  obtain ⟨nodes, hbody, hnodes⟩ := h.exists_body
  rw [hbody, unnumbered_sequence, hnodes]

lemma step_parenthesis (hw : w.level.flags = caseFlags ignoreCase) (hrest : settle rest = .ok ()) :
    step (.plain '(') rest w = takeGroup rest w := by
  rw [step, if_neg (by simp), if_neg (by simp), hrest]
  simp only [bind_ok, takePlain, hw, verbose_not_mem_caseFlags]
  rfl

lemma step_opening (hw : w.level.flags = caseFlags ignoreCase) (hus : IsTail us) :
    step (.plain '(') us w = .ok (w.openCapture (widthOf us + 1), 0) := by
  rw [step_parenthesis hw (settle_eq_ok hus.settled), takeGroup, if_neg hus.mark]

lemma step_closing {parent : Level} {outer : List Level} (hw : w.outer = parent :: outer)
    (hus : .dangling ∉ us) : step (.plain ')') us w = .ok (w.closeLevel parent outer, 0) := by
  rw [step, if_neg (by simp), if_pos rfl, hw, settle_eq_ok hus]
  rfl

lemma readsAs_opening (hw : w.Shows ignoreCase levels) (hus : IsTail us) :
    ReadsAs ignoreCase Part.opening.tokens us w (Part.opening.add? ignoreCase levels) := by
  cases hlevels : levels with
  | nil =>
    rw [hlevels] at hw
    cases hw.levels
  | cons items outer =>
    rw [hlevels] at hw
    refine ⟨w.openCapture (widthOf us + 1),
      ⟨.cons ⟨hw.flags_eq, rfl, rfl⟩ hw.levels, ?_, hw.asked, hw.flaw⟩,
      readAll_of_step_zero (step_opening hw.flags_eq hus)⟩
    show ∀ l ∈ (_ :: w.level :: w.outer).dropLast, _
    rw [List.dropLast_cons_cons, List.forall_mem_cons]
    exact ⟨⟨w.next, rfl⟩, hw.inner⟩

lemma readsAs_closing (hw : w.Shows ignoreCase levels) (hus : IsTail us) :
    ReadsAs ignoreCase Part.closing.tokens us w (Part.closing.add? ignoreCase levels) := by
  cases hlevels : levels with
  | nil =>
    rw [hlevels] at hw
    cases hw.levels
  | cons items outer =>
    rw [hlevels] at hw
    obtain ⟨hlevel, houter⟩ := List.forall₂_cons.mp hw.levels
    cases hworks : w.outer with
    | nil =>
      rw [hworks] at houter
      cases houter
      refine readAll_of_step_none ?_
      rw [step, if_neg (by simp), if_pos rfl, hworks]
      simp only
      split_ifs <;> rfl
    | cons parent rest =>
      have hinner := hw.inner
      rw [hworks, List.dropLast_cons_cons, List.forall_mem_cons] at hinner
      rw [hworks] at houter
      obtain ⟨i, hopener⟩ := hinner.1
      cases houter with
      | @cons _ parentItems _ outer' hparent hrest =>
      refine ⟨w.closeLevel parent rest, ?_, readAll_of_step_zero (step_closing hworks hus.settled)⟩
      have hbelow : Work.Shows ignoreCase
          { w with level := parent, outer := rest, closed := (i, w.level.body.2) :: w.closed }
          (parentItems :: outer') := ⟨.cons hparent hrest, hinner.2, hw.asked, hw.flaw⟩
      have hpush := hbelow.push ⟨.capture i w.level.body.1, .ordinary, w.level.body.2⟩
      rw [unnumbered, hlevel.body] at hpush
      rw [Work.closeLevel, hopener]
      exact hpush

/-! ## Parts in a row -/

/-- **A part is read as what it adds**, whatever was read before and whatever stands behind it. -/
lemma readsAs_part {p : Part} (hp : p.IsProper) (hw : w.Shows ignoreCase levels) (hus : IsTail us) :
    ReadsAs ignoreCase p.tokens us w (p.add? ignoreCase levels) := by
  by_cases hopening : p = .opening
  · rw [hopening]
    exact readsAs_opening hw hus
  by_cases hclosing : p = .closing
  · rw [hclosing]
    exact readsAs_closing hw hus
  cases hlevels : levels with
  | nil =>
    rw [hlevels] at hw
    cases hw.levels
  | cons items outer =>
    rw [hlevels] at hw
    have hread := readAll_item hp hopening hclosing hw.flags_eq hus
    rw [Part.add?_eq_map hopening hclosing]
    cases hitem : p.item? ignoreCase with
    | none =>
      rw [hitem] at hread
      exact hread
    | some r =>
      rw [hitem] at hread
      obtain ⟨item, hnode, hread⟩ := hread
      have hpush := hw.push item
      rw [hnode, (Part.isPlain_item hitem).2] at hpush
      exact ⟨w.push item, hpush, hread⟩

lemma dangling_not_mem_tokens {p : Part} (hp : p.IsProper) : .dangling ∉ p.tokens := by
  have hcount : ∀ count, .dangling ∉ Part.countTokens count := by
    intro count
    cases count <;> simp [Part.countTokens]
  cases p with
  | char c =>
    rw [Part.tokens]
    split_ifs <;> simp
  | set body => simp [Part.tokens, dangling_not_mem_of_members hp.members]
  | repeatedSet body count =>
    simp [Part.tokens, dangling_not_mem_of_members hp.members, hcount count]
  | opening => simp [Part.tokens]
  | closing => simp [Part.tokens]

lemma head?_tokens_ne {c : Char} (hc : isSpecial c) (hset : c ≠ '[') (hopening : c ≠ '(')
    (hclosing : c ≠ ')') (p : Part) (us : List Token) :
    (p.tokens ++ us).head? ≠ some (.plain c) := by
  cases p with
  | char d =>
    rw [Part.tokens]
    split_ifs with hd
    · simp
    · have hne : d ≠ c := ne_of_not_isSpecial (Bool.eq_false_iff.mpr hd) hc
      simpa using hne
  | set body => simpa [Part.tokens] using hset.symm
  | repeatedSet body count => simpa [Part.tokens] using hset.symm
  | opening => simpa [Part.tokens] using hopening.symm
  | closing => simpa [Part.tokens] using hclosing.symm

/-- Parts may stand behind a part. -/
lemma isTail_tokens {ps : List Part} (hps : ∀ p ∈ ps, p.IsProper) (hus : IsTail us) :
    IsTail (ps.flatMap Part.tokens ++ us) := by
  cases ps with
  | nil => exact hus
  | cons p ps =>
    rw [List.flatMap_cons, List.append_assoc]
    refine ⟨?_, head?_tokens_ne rfl (by decide) (by decide) (by decide) p _,
      head?_tokens_ne rfl (by decide) (by decide) (by decide) p _⟩
    rw [List.forall_mem_cons] at hps
    intro hmem
    rcases List.mem_append.mp hmem with hmem | hmem
    · exact dangling_not_mem_tokens hps.1 hmem
    rcases List.mem_append.mp hmem with hmem | hmem
    · obtain ⟨q, hq, hmem⟩ := List.mem_flatMap.mp hmem
      exact dangling_not_mem_tokens (hps.2 q hq) hmem
    · exact hus.settled hmem

/-- **Parts are read as what they add**, one after the other. -/
theorem readsAs_parts {ps : List Part} (hps : ∀ p ∈ ps, p.IsProper)
    (hw : w.Shows ignoreCase levels) (hus : IsTail us) :
    ReadsAs ignoreCase (ps.flatMap Part.tokens) us w (addAll? ignoreCase ps levels) := by
  induction ps generalizing w levels with
  | nil => exact ⟨w, hw, rfl⟩
  | cons p ps ih =>
    rw [List.forall_mem_cons] at hps
    have hread := readsAs_part hps.1 hw (isTail_tokens hps.2 hus)
    rw [List.flatMap_cons, addAll?]
    cases hadd : p.add? ignoreCase levels with
    | none =>
      rw [hadd] at hread
      rw [Option.bind_none, ReadsAs, List.append_assoc]
      exact hread
    | some levels' =>
      rw [hadd] at hread
      obtain ⟨w', hw', hread⟩ := hread
      have hrest := ih hps.2 hw'
      rw [Option.bind_some]
      cases hall : addAll? ignoreCase ps levels' with
      | none =>
        rw [hall] at hrest
        rw [ReadsAs, List.append_assoc, hread]
        exact hrest
      | some levels'' =>
        rw [hall] at hrest
        obtain ⟨w'', hw'', hrest⟩ := hrest
        refine ⟨w'', hw'', ?_⟩
        rw [List.append_assoc, hread, hrest]

end

/-! ## Sets that go on -/

/-- More members may be put behind those of a set. -/
lemma IsSetBody.append {body us : List Token} (h : IsSetBody body)
    (hus : ∀ t ∈ us, IsMember t ∧ t ≠ .plain ']') : IsSetBody (body ++ us) := by
  obtain ⟨t, ts, hts⟩ := List.exists_cons_of_ne_nil h.nonempty
  have hmembers := h.members
  rw [hts] at hmembers
  refine ⟨?_, ?_⟩
  · rw [unmarked_append h.ne_nil, hts]
    refine ⟨fun u hu => ?_, (fun hfalse => by cases hfalse), fun hmem => ?_⟩
    · rcases List.mem_append.mp hu with hu | hu
      · exact hmembers.member u hu
      · exact (hus u hu).1
    · rcases List.mem_append.mp hmem with hmem | hmem
      · exact hmembers.later hmem
      · exact (hus _ hmem).2 rfl
  · rw [unmarked_append h.ne_nil, hts]
    exact List.cons_ne_nil t _

/-- **Tokens that are parts**, and perhaps a set at the end that nothing closes. -/
inductive IsWritten : List Token → Prop
  | nil : IsWritten []
  | unclosed {body : List Token} (h : AreMembers true (unmarked body)) :
      IsWritten (.plain '[' :: body)
  | part {p : Part} {ts : List Token} (hp : p.IsProper) (h : IsWritten ts) :
      IsWritten (p.tokens ++ ts)

section

variable {ignoreCase : Bool} {w w' : Work} {ts : List Token} {levels : Sketch}

lemma IsWritten.isTail (h : IsWritten ts) : IsTail ts := by
  induction h with
  | nil => exact ⟨List.not_mem_nil, (fun h => by cases h), fun h => by cases h⟩
  | unclosed hbody =>
    exact ⟨by simpa using dangling_not_mem_of_members hbody, by simp, by simp⟩
  | @part p ts hp _ ih =>
    have htail := isTail_tokens (List.forall_mem_singleton.mpr hp) ih
    rwa [List.flatMap_singleton] at htail

/-- **What has been read is parts**, and a reader has in hand what they add. -/
lemma IsWritten.exists_parts (h : IsWritten ts) (hw : w.Shows ignoreCase levels)
    (hread : readAll ts w = .ok w') :
    ∃ ps levels', (∀ p ∈ ps, p.IsProper) ∧ ts = ps.flatMap Part.tokens ∧
      addAll? ignoreCase ps levels = some levels' ∧ w'.Shows ignoreCase levels' := by
  induction h generalizing w levels with
  | nil =>
    rw [readAll] at hread
    cases hread
    exact ⟨[], levels, fun p hp => absurd hp List.not_mem_nil, rfl, rfl, hw⟩
  | unclosed hbody =>
    have hnone := readAll_unclosed hw.flags_eq hbody
    rw [hread] at hnone
    cases hnone
  | @part p ts hp hts ih =>
    have hpart := readsAs_part hp hw hts.isTail
    cases hadd : p.add? ignoreCase levels with
    | none =>
      rw [hadd, ReadsAs, hread] at hpart
      cases hpart
    | some middle =>
      rw [hadd] at hpart
      obtain ⟨w₁, hw₁, hread₁⟩ := hpart
      obtain ⟨ps, levels', hps, rfl, hadd', hw'⟩ := ih hw₁ (hread₁ ▸ hread)
      refine ⟨p :: ps, levels', List.forall_mem_cons.mpr ⟨hp, hps⟩, rfl, ?_, hw'⟩
      rw [addAll?, hadd]
      exact hadd'

end

end Regex

end PathExpansion
