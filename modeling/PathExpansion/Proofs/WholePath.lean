import PathExpansion.Proofs.Divisions
import PathExpansion.Proofs.Globs

/-!
# The pattern of whole paths

The walk goes down by components, and the pattern of whole paths is made from the same components,
by putting their fragments in a row.  The pattern is applied to what the walk has found, so it has
to find whatever the components lead to.  It does, but for one thing: an ellipsis is written with a
dot, which stands for no line break.

* `Regex.chain`, `Regex.line` — what an ellipsis is written as, in the middle and at the end.
* `Component.IsWritten` — how any other component is written (`Component.exists_isWritten`).
* `joinNames` — the names of a path with slashes between them, and one behind a directory.
* **`exists_read_joined`** — what stands for components in a row takes the names of every division.
* **`PathSpec.finds_division`** — the pattern of a compiled path finds every division in which no
  name that an ellipsis stands for has a line break; `PathSpec.finds_division_lineBreak` — one in
  which such a name has one.
-/

namespace PathExpansion

namespace Regex

section

variable {ignoreCase : Bool} {w : Work} {us rest : List Token} {base : List Regex}

/-! ## Steps on single characters -/

lemma step_dot (hw : w.level.flags = caseFlags ignoreCase) (hrest : .dangling ∉ rest) :
    step (.plain '.') rest w = .ok (w.push (.character .notNewline), 0) := by
  have hdot : List.contains (caseFlags ignoreCase) .dotAll = false := by
    cases ignoreCase <;> rfl
  rw [step, if_neg (by simp), if_neg (by simp), settle_eq_ok hrest]
  simp only [bind_ok, takePlain, hw, verbose_not_mem_caseFlags, hdot]
  rfl

lemma step_caret (hw : w.level.flags = caseFlags ignoreCase) (hrest : .dangling ∉ rest) :
    step (.plain '^') rest w = .ok (w.push (.position .textStart), 0) := by
  have hmultiline : List.contains (caseFlags ignoreCase) .multiline = false := by
    cases ignoreCase <;> rfl
  rw [step, if_neg (by simp), if_neg (by simp), settle_eq_ok hrest]
  simp only [bind_ok, takePlain, hw, verbose_not_mem_caseFlags, hmultiline]
  rfl

/-- A group without a number. -/
lemma step_plainGroup (hw : w.level.flags = caseFlags ignoreCase) (hrest : .dangling ∉ rest) :
    step (.plain '(') (.plain '?' :: .plain ':' :: rest) w
      = .ok (w.openLevel .plain (widthOf (.plain '?' :: .plain ':' :: rest) + 1) w.level.flags,
        2) := by
  rw [step_parenthesis hw (settle_plain _ _), takeGroup, if_pos List.head?_cons, List.drop_one,
    List.tail_cons, settle_plain, bind_ok, takeExtension, settle_eq_ok hrest]
  rfl

lemma step_mark (hw : w.level.flags = caseFlags ignoreCase) (hrest : .dangling ∉ rest) :
    step (.plain '?') rest w = takeQuantifier '?' rest w := by
  rw [step, if_neg (by simp), if_neg (by simp), settle_eq_ok hrest]
  simp only [bind_ok, takePlain, hw, verbose_not_mem_caseFlags]
  rfl

lemma IsTail.plain {c : Char} (hus : .dangling ∉ us) (hmark : c ≠ '?') (hplus : c ≠ '+') :
    IsTail (.plain c :: us) :=
  ⟨by simpa using hus, by simpa using hmark, by simpa using hplus⟩

/-- A dot and a star are read as any number of characters but the line break. -/
lemma readAll_dots (hw : w.level.flags = caseFlags ignoreCase) (hus : IsTail us) :
    readAll (.plain '.' :: .plain '*' :: us) w
      = readAll us (w.push (.rounds .notNewline 0 none)) := by
  have hstar : .dangling ∉ .plain '*' :: us := by simpa using hus.settled
  have hflags : (w.push (.character .notNewline)).level.flags = caseFlags ignoreCase := hw
  have hrounds : step (.plain '*') us (w.push (.character .notNewline))
      = .ok (w.push (.rounds .notNewline 0 none), 0) := by
    rw [step_quantifier (Or.inl rfl) hflags hus.settled,
      takeQuantifier_character (readQuantity_star _) hus]
  rw [readAll_of_step_zero (step_dot hw hstar), readAll_of_step_zero hrounds]

/-- A question mark makes what is in front of it optional. -/
lemma step_optional {item : Item} (hw : w.level.flags = caseFlags ignoreCase) (hus : IsTail us)
    (hitem : item.role = .ordinary) :
    step (.plain '?') us (w.push item) = .ok (w.push ⟨.repeated .greedy 0 (some 1) item.node,
      .repetition, item.width.times 0 (some 1)⟩, 0) := by
  have hpush : (w.push item).level.flags = caseFlags ignoreCase := hw
  rw [step_mark hpush hus.settled, takeQuantifier, show readQuantity '?' us
    = .ok (.times 0 (some 1), 0) from rfl]
  simp only [bind_ok, List.drop_zero, greedOf_tail hus, Nat.add_zero, settle_eq_ok hus.settled,
    Work.repeatLast, Work.push, hitem]
  rfl

/-! ## Ellipses -/

/-- The pattern of a chain of directories. -/
def chain (ignoreCase : Bool) : Regex :=
  .repeated .greedy 0 (some 1) (.seq (.repeated .greedy 0 none (.one .notNewline))
    (.one (.literal (caseFlags ignoreCase).comparison '/')))

/-- How it is written. -/
def chainTokens : List Token :=
  [.plain '(', .plain '?', .plain ':', .plain '.', .plain '*', .plain '/', .plain ')', .plain '?']

lemma readAll_chain (hw : w.level.flags = caseFlags ignoreCase) (hus : IsTail us) :
    ∃ item : Item, item.node = chain ignoreCase ∧
      readAll (chainTokens ++ us) w = readAll us (w.push item) := by
  have hus₁ : .dangling ∉ .plain '?' :: us := by simpa using hus.settled
  have hus₂ : .dangling ∉ .plain ')' :: .plain '?' :: us := by simpa using hus.settled
  have hslash : IsTail (.plain '/' :: .plain ')' :: .plain '?' :: us) :=
    .plain hus₂ (by decide) (by decide)
  have hdots :
      .dangling ∉ .plain '.' :: .plain '*' :: .plain '/' :: .plain ')' :: .plain '?' :: us := by
    simpa using hus.settled
  set left := widthOf (.plain '?' :: .plain ':' :: .plain '.' :: .plain '*' :: .plain '/'
      :: .plain ')' :: .plain '?' :: us) + 1 with hleft
  set w₁ := w.openLevel .plain left w.level.flags with hw₁
  set w₂ := w₁.push (.rounds .notNewline 0 none) with hw₂
  set w₃ := w₂.push (.character (.literal (caseFlags ignoreCase).comparison '/')) with hw₃
  have hclose : step (.plain ')') (.plain '?' :: us) w₃
      = .ok (w.push ⟨w₃.level.body.1, .ordinary, w₃.level.body.2⟩, 0) := step_closing rfl hus₁
  refine ⟨⟨chain ignoreCase, .repetition, w₃.level.body.2.times 0 (some 1)⟩, rfl, ?_⟩
  calc readAll (chainTokens ++ us) w
      = readAll (.plain '.' :: .plain '*' :: .plain '/' :: .plain ')' :: .plain '?' :: us) w₁ :=
        readAll_of_step (step_plainGroup hw hdots)
    _ = readAll (.plain '/' :: .plain ')' :: .plain '?' :: us) w₂ := readAll_dots hw hslash
    _ = readAll (.plain ')' :: .plain '?' :: us) w₃ :=
        readAll_char (w := w₂) hw hus₂ '/'
    _ = readAll (.plain '?' :: us) (w.push ⟨w₃.level.body.1, .ordinary, w₃.level.body.2⟩) :=
        readAll_of_step_zero hclose
    _ = readAll us (w.push ⟨chain ignoreCase, .repetition, w₃.level.body.2.times 0 (some 1)⟩) :=
        readAll_of_step_zero (step_optional hw hus rfl)

/-- How an ellipsis is written: a group of its own for the chain of directories. -/
def ellipsisTokens : List Token := .plain '(' :: (chainTokens ++ [.plain ')'])

lemma readAll_ellipsis (hw : w.Shows ignoreCase [base]) (hus : IsTail us) :
    ∃ w', w'.Shows ignoreCase [.capture 0 (chain ignoreCase) :: base] ∧
      readAll (ellipsisTokens ++ us) w = readAll us w' := by
  have htail : IsTail (.plain ')' :: us) := IsTail.plain hus.settled (by decide) (by decide)
  have hchain : IsTail (chainTokens ++ .plain ')' :: us) := by
    refine IsTail.plain ?_ (by decide) (by decide)
    simpa using hus.settled
  obtain ⟨w₁, hw₁, hread₁⟩ := readsAs_opening hw hchain
  obtain ⟨item, hitem, hread₂⟩ := readAll_chain hw₁.flags_eq htail
  have hw₂ := hw₁.push item
  rw [hitem] at hw₂
  obtain ⟨w₃, hw₃, hread₃⟩ := readsAs_closing hw₂ hus
  refine ⟨w₃, hw₃, ?_⟩
  calc readAll (ellipsisTokens ++ us) w
      = readAll (Part.opening.tokens ++ (chainTokens ++ .plain ')' :: us)) w := rfl
    _ = readAll (.plain ')' :: us) (w₁.push item) := hread₁.trans hread₂
    _ = readAll us w₃ := hread₃

/-! ## An ellipsis at the end -/

/-- The pattern of what an ellipsis at the end takes, names and slashes alike. -/
def line : Regex := .repeated .greedy 0 none (.one .notNewline)

/-- How it is written. -/
def lineTokens : List Token := [.plain '(', .plain '.', .plain '*', .plain ')']

lemma readAll_line (hw : w.Shows ignoreCase [base]) (hus : IsTail us) :
    ∃ w', w'.Shows ignoreCase [.capture 0 line :: base] ∧
      readAll (lineTokens ++ us) w = readAll us w' := by
  have hclosing : IsTail (.plain ')' :: us) := .plain hus.settled (by decide) (by decide)
  have hdots : IsTail (.plain '.' :: .plain '*' :: .plain ')' :: us) :=
    .plain (by simpa using hus.settled) (by decide) (by decide)
  obtain ⟨w₁, hw₁, hread₁⟩ := readsAs_opening hw hdots
  have hread₂ := readAll_dots hw₁.flags_eq hclosing
  obtain ⟨w₂, hw₂, hread₃⟩ := readsAs_closing (hw₁.push (.rounds .notNewline 0 none)) hus
  refine ⟨w₂, hw₂, ?_⟩
  calc readAll (lineTokens ++ us) w
      = readAll (.plain '.' :: .plain '*' :: .plain ')' :: us) w₁ := hread₁
    _ = readAll (.plain ')' :: us) (w₁.push (.rounds .notNewline 0 none)) := hread₂
    _ = readAll us w₂ := hread₃

end

/-! ## What is taken -/

section

variable {ignoreCase : Bool}

/-- A literal is a character that counts as itself. -/
lemma same_self (how : Comparison) (c : Char) : how.same c c := by
  rw [Comparison.same]
  split_ifs
  · cases how with
    | exact => simp [Comparison.keys]
    | asciiCase => simp [Comparison.keys]
    | anyCase => simp [Comparison.keys, Comparison.key]
  · simp

lemma takes_literal (c : Char) :
    (Regex.one (.literal (caseFlags ignoreCase).comparison c)).Takes [c] :=
  ⟨c, rfl, same_self _ c⟩

/-- An ellipsis takes any line that ends with a slash, and the empty text. -/
lemma takes_ellipsis {u : List Char} (hu : '\n' ∉ u) :
    (Regex.capture 0 (chain ignoreCase)).Takes (u ++ ['/']) := by
  refine ⟨[], u ++ ['/'], rfl, rfl, 1, fun m hm => ?_, u ++ ['/'], [], by simp, ?_, rfl⟩
  · rw [← Option.some.inj hm]
  · exact ⟨u, ['/'], rfl, takes_repeated_one fun c hc => bne_iff_ne.mpr fun hnewline =>
      hu (hnewline ▸ hc), takes_literal '/'⟩

/-- An ellipsis at the end takes any line. -/
lemma takes_line {u : List Char} (hu : '\n' ∉ u) : (Regex.capture 0 line).Takes u :=
  takes_repeated_one fun _ hc => bne_iff_ne.mpr fun hnewline => hu (hnewline ▸ hc)

lemma takes_ellipsis_nil : (Regex.capture 0 (chain ignoreCase)).Takes [] :=
  ⟨[], [], rfl, rfl, 0, fun _ _ => Nat.zero_le _, rfl⟩

lemma addAll?_chars (cs : List Char) (items : List Regex) :
    addAll? ignoreCase (cs.map .char) [items]
      = some [(cs.map fun c => Regex.one (.literal (caseFlags ignoreCase).comparison c)).reverse
          ++ items] := by
  induction cs generalizing items with
  | nil => rfl
  | cons c cs ih =>
    rw [List.map_cons, addAll?, show (Part.char c).add? ignoreCase [items]
      = some [.one (.literal (caseFlags ignoreCase).comparison c) :: items] from rfl,
      Option.bind_some, ih, List.map_cons, List.reverse_cons, List.append_assoc]
    rfl

lemma takes_chars (cs : List Char) :
    (sequence (cs.map fun c => Regex.one (.literal (caseFlags ignoreCase).comparison c))).Takes
      cs := by
  induction cs with
  | nil => rfl
  | cons c cs ih => exact takes_sequence_cons (takes_literal c) ih

end

end Regex

/-! ## Components -/

open Regex (Part Token Work IsTail)

/-- **How a component other than an ellipsis is written**: by parts, whose items take the names that
the component stands for. -/
structure Component.IsWritten (ignoreCase : Bool) (c : Component) (ps : List Part)
    (items : List Regex) : Prop where
  makeUp : Part.MakeUp ignoreCase ps items
  tokens_eq : Regex.tokens c.fragment.toList = ps.flatMap Part.tokens
  takes : ∀ name, c.takes [name] → (Regex.sequence items.reverse).Takes name.toList

/-- A component that has been compiled is written so. -/
lemma Component.exists_isWritten {ignoreCase : Bool} {part : String} {c : Component}
    (h : Component.compile ignoreCase part = .ok c) (hc : c.isEllipsis = false) :
    ∃ ps items, c.IsWritten ignoreCase ps items := by
  rw [Component.compile] at h
  split_ifs at h
  · cases h
    cases hc
  · cases hw : Wildcard.compile ignoreCase part false with
    | error problem =>
      rw [hw] at h
      cases h
    | ok w =>
      rw [hw] at h
      cases h
      obtain ⟨ps, items, hps, htokens, hregex⟩ := Wildcard.exists_parts hw
      exact ⟨ps, items, hps, htokens, fun name => (Wildcard.accepts_iff hps hregex name).mp⟩
  · cases h
    refine ⟨part.toList.map .char, _, ⟨fun p hp => ?_, Regex.addAll?_chars part.toList []⟩, ?_, ?_⟩
    · obtain ⟨c, _, rfl⟩ := List.mem_map.mp hp
      trivial
    · rw [fragment, escape, String.toList_ofList, ← List.append_nil (escapeList part.toList),
        Glob.tokens_escapeList]
      exact List.append_nil _
    · intro name htakes
      have hname : name = part := List.singleton_injective (beq_iff_eq.mp htakes)
      rw [hname, List.append_nil, List.reverse_reverse]
      exact Regex.takes_chars part.toList

section

variable {ignoreCase : Bool} {w : Work} {us : List Token} {base items : List Regex}
  {ps : List Part} {c : Component} {rest : List Component}

/-- The parts of a component are read behind anything. -/
lemma Component.IsWritten.readAll (h : c.IsWritten ignoreCase ps items)
    (hw : w.Shows ignoreCase [base]) (hus : IsTail us) :
    ∃ w', w'.Shows ignoreCase [items ++ base] ∧
      Regex.readAll (Regex.tokens c.fragment.toList ++ us) w = Regex.readAll us w' := by
  have hadds : Regex.addAll? ignoreCase ps [base] = some [items ++ base] :=
    Regex.addAll?_after h.makeUp.adds base
  have hread := Regex.readsAs_parts h.makeUp.proper hw hus
  rw [hadds] at hread
  rw [h.tokens_eq]
  exact hread

lemma joinedFragments_singleton (hc : c.isEllipsis = false) : joinedFragments [c] = c.fragment := by
  cases c with
  | ellipsis => cases hc
  | _ => rfl

lemma joinedFragments_cons (hc : c.isEllipsis = false) (hrest : rest ≠ []) :
    joinedFragments (c :: rest) = c.fragment ++ "/" ++ joinedFragments rest := by
  obtain ⟨c', rest, rfl⟩ := List.exists_cons_of_ne_nil hrest
  cases c with
  | ellipsis => cases hc
  | _ => rfl

lemma joinedFragments_ellipsis (hrest : rest ≠ []) :
    joinedFragments (.ellipsis :: rest) = "((?:.*/)?)" ++ joinedFragments rest := by
  obtain ⟨c', rest, rfl⟩ := List.exists_cons_of_ne_nil hrest
  rfl

lemma tokens_ellipsis (cs : List Char) :
    Regex.tokens ("((?:.*/)?)".toList ++ cs) = Regex.ellipsisTokens ++ Regex.tokens cs := by
  have hlist : "((?:.*/)?)".toList = ['(', '(', '?', ':', '.', '*', '/', ')', '?', ')'] := by simp
  rw [hlist, Glob.tokens_plain_append (by simp)]
  rfl

lemma tokens_line : Regex.tokens (joinedFragments [.ellipsis]).toList = Regex.lineTokens := by
  have hlist : (joinedFragments [.ellipsis]).toList = ['(', '.', '*', ')'] := by
    simp [joinedFragments]
  rw [hlist]
  rfl

lemma Component.IsWritten.tokens_cons (h : c.IsWritten ignoreCase ps items) (cs : List Char) :
    Regex.tokens (c.fragment.toList ++ '/' :: cs)
      = Regex.tokens c.fragment.toList ++ .plain '/' :: Regex.tokens cs := by
  have hdangling : .dangling ∉ Regex.tokens c.fragment.toList := by
    rw [h.tokens_eq]
    intro hmem
    obtain ⟨p, hp, hmem⟩ := List.mem_flatMap.mp hmem
    exact Regex.dangling_not_mem_tokens (h.makeUp.proper p hp) hmem
  rw [Regex.tokens_append hdangling, Regex.tokens_cons (by decide)]

/-! ## Names in a row -/

/-- A division for a component and others is one for the component and one for the others. -/
lemma IsDivision.exists_cons {names : List String} {shares : List (List String)}
    (h : IsDivision (c :: rest) names shares) :
    ∃ share tail others, c.takes share ∧ IsDivision rest others tail ∧ names = share ++ others ∧
      shares = share :: tail := by
  obtain ⟨htaken, hwhole⟩ := h
  cases htaken with
  | @cons _ share _ tail hshare htail =>
    exact ⟨share, tail, tail.flatten, hshare, ⟨htail, rfl⟩, hwhole.symm, rfl⟩

/-- Where something has to be found, a division has names. -/
lemma IsDivision.ne_nil {names : List String} {shares : List (List String)}
    (h : IsDivision rest names shares) (hne : rest ≠ []) (hlast : rest.getLast? ≠ some .ellipsis) :
    names ≠ [] := by
  induction rest generalizing names shares with
  | nil => exact absurd rfl hne
  | cons c rest ih =>
    obtain ⟨share, tail, others, hshare, htail, rfl, -⟩ := h.exists_cons
    cases rest with
    | nil =>
      have hc : c.isEllipsis = false := by
        cases c with
        | ellipsis => exact absurd rfl hlast
        | _ => rfl
      obtain ⟨name, rfl⟩ := Component.exists_of_takes hc hshare
      exact List.cons_ne_nil name others
    | cons c' rest =>
      rw [List.getLast?_cons_cons] at hlast
      exact List.append_ne_nil_of_right_ne_nil share (ih htail (List.cons_ne_nil c' rest) hlast)

lemma newline_not_mem_intercalate {names : List String} (h : ∀ name ∈ names, '\n' ∉ name.toList) :
    '\n' ∉ ("/".intercalate names).toList := by
  induction names with
  | nil => simp
  | cons name names ih =>
    rw [List.forall_mem_cons] at h
    cases names with
    | nil =>
      rw [String.intercalate_singleton]
      exact h.1
    | cons name' names =>
      rw [String.intercalate_cons_cons]
      simpa [h.1] using ih h.2

/-- A division of no names ends with an ellipsis that stands for none. -/
lemma IsDivision.getLast?_of_nil {shares : List (List String)} (h : IsDivision rest [] shares)
    (hne : rest ≠ []) : rest.getLast? = some .ellipsis ∧ shares.getLast? = some [] := by
  refine ⟨not_not.mp fun hlast => h.ne_nil hne hlast rfl, ?_⟩
  have hshares : shares ≠ [] := fun hnil =>
    hne (List.length_eq_zero_iff.mp (h.taken.length_eq.trans (by rw [hnil]; rfl)))
  rw [List.getLast?_eq_some_getLast hshares]
  exact congrArg some (List.flatten_eq_nil_iff.mp h.whole _ (List.getLast_mem hshares))

/-- **The names of a path**, with slashes between them, and one behind the last if it is a
directory.  No names have no slash. -/
def joinNames (names : List String) (slash : Bool) : String :=
  "/".intercalate names ++ if slash && !names.isEmpty then "/" else ""

@[simp] lemma joinNames_nil (slash : Bool) : joinNames [] slash = "" := by
  simp [joinNames]

lemma joinNames_of_ne_nil {names : List String} (h : names ≠ []) (slash : Bool) :
    joinNames names slash = "/".intercalate names ++ if slash then "/" else "" := by
  rw [joinNames, List.isEmpty_eq_false_iff.mpr h, Bool.not_false, Bool.and_true]

lemma toList_joinNames_directory {names : List String} (h : names ≠ []) :
    (joinNames names true).toList = ("/".intercalate names).toList ++ ['/'] := by
  simp [joinNames_of_ne_nil h]

/-- Names in front of others are directories; if there are no others, they have to be said to be. -/
lemma joinNames_append {names others : List String} {slash : Bool}
    (h : others = [] → slash = true) :
    joinNames (names ++ others) slash = joinNames names true ++ joinNames others slash := by
  by_cases hnames : names = []
  · rw [hnames, List.nil_append, joinNames_nil, String.empty_append]
  by_cases hothers : others = []
  · rw [hothers, List.append_nil, h hothers, joinNames_nil, String.append_empty]
  · rw [joinNames_of_ne_nil (List.append_ne_nil_of_right_ne_nil names hothers),
      joinNames_of_ne_nil hothers, joinNames_of_ne_nil hnames,
      String.intercalate_append_of_ne_nil hnames hothers, if_pos rfl, String.append_assoc]

/-- No name that an ellipsis stands for has a line break. -/
def Unbroken (components : List Component) (shares : List (List String)) : Prop :=
  ∀ p ∈ components.zip shares, p.1 = .ellipsis → ∀ name ∈ p.2, '\n' ∉ name.toList

/-- An ellipsis at the end stands for a name, or the path ends at a directory. -/
def EndsProperly (components : List Component) (shares : List (List String))
    (slash : Bool) : Prop :=
  components.getLast? = some .ellipsis → shares.getLast? = some [] → slash = true

lemma Unbroken.of_cons {share : List String} {tail : List (List String)}
    (h : Unbroken (c :: rest) (share :: tail)) :
    (c = .ellipsis → ∀ name ∈ share, '\n' ∉ name.toList) ∧ Unbroken rest tail := by
  rw [Unbroken, List.zip_cons_cons, List.forall_mem_cons] at h
  exact h

lemma EndsProperly.of_cons {share : List String} {tail : List (List String)} {slash : Bool}
    (h : EndsProperly (c :: rest) (share :: tail) slash) {others : List String}
    (htail : IsDivision rest others tail) (hne : rest ≠ []) :
    EndsProperly rest tail slash ∧ (others = [] → slash = true) := by
  have hrest : EndsProperly rest tail slash := by
    obtain ⟨htaken, -⟩ := htail
    cases htaken with
    | nil => exact absurd rfl hne
    | cons _ _ =>
      rw [EndsProperly, List.getLast?_cons_cons, List.getLast?_cons_cons] at h
      exact h
  refine ⟨hrest, fun hnil => ?_⟩
  rw [hnil] at htail
  obtain ⟨hlast, hnone⟩ := htail.getLast?_of_nil hne
  exact hrest hlast hnone

/-! ## Components in a row -/

lemma tokens_joinedFragments_ellipsis (hrest : rest ≠ []) :
    Regex.tokens (joinedFragments (.ellipsis :: rest)).toList
      = Regex.ellipsisTokens ++ Regex.tokens (joinedFragments rest).toList := by
  rw [joinedFragments_ellipsis hrest, String.toList_append, tokens_ellipsis]

lemma Component.IsWritten.tokens_joinedFragments (h : c.IsWritten ignoreCase ps items)
    (hc : c.isEllipsis = false) (hrest : rest ≠ []) :
    Regex.tokens (joinedFragments (c :: rest)).toList
      = Regex.tokens c.fragment.toList ++ .plain '/'
        :: Regex.tokens (joinedFragments rest).toList := by
  have hslash : "/".toList ++ (joinedFragments rest).toList
      = '/' :: (joinedFragments rest).toList := by
    simp
  rw [joinedFragments_cons hc hrest, String.toList_append, String.toList_append, List.append_assoc,
    hslash, h.tokens_cons]

/-- What is written for components may stand behind a part. -/
lemma isTail_joinedFragments {components : List Component}
    (hcompiled : ∀ c ∈ components, ∃ part, Component.compile ignoreCase part = .ok c)
    (hus : IsTail us) : IsTail (Regex.tokens (joinedFragments components).toList ++ us) := by
  induction components with
  | nil => exact hus
  | cons c rest ih =>
    rw [List.forall_mem_cons] at hcompiled
    obtain ⟨part, hpart⟩ := hcompiled.1
    have htail := ih hcompiled.2
    cases hc : c.isEllipsis with
    | true =>
      rw [Component.eq_ellipsis hc]
      by_cases hrest : rest = []
      · rw [hrest, tokens_line]
        exact Regex.IsTail.plain (by simpa using hus.settled) (by decide) (by decide)
      · rw [tokens_joinedFragments_ellipsis hrest, List.append_assoc]
        refine Regex.IsTail.plain ?_ (by decide) (by decide)
        simpa [Regex.chainTokens] using htail.settled
    | false =>
      obtain ⟨ps, items, hwritten⟩ := Component.exists_isWritten hpart hc
      by_cases hrest : rest = []
      · rw [hrest, joinedFragments_singleton hc, hwritten.tokens_eq]
        exact Regex.isTail_tokens hwritten.makeUp.proper hus
      · rw [hwritten.tokens_joinedFragments hc hrest, List.append_assoc, hwritten.tokens_eq]
        exact Regex.isTail_tokens hwritten.makeUp.proper
          (Regex.IsTail.plain htail.settled (by decide) (by decide))

/-- Items take a text, but for a slash at its end. -/
def TakesBut (items : List Regex) (text : String) : Prop :=
  ∃ (taken : List Char) (slash : Bool), text.toList = taken ++ (if slash then "/" else "").toList ∧
    (Regex.sequence items.reverse).Takes taken

lemma TakesBut.of_intercalate {names : List String}
    (h : (Regex.sequence items.reverse).Takes ("/".intercalate names).toList) (slash : Bool) :
    TakesBut items (joinNames names slash) :=
  ⟨_, slash && !names.isEmpty, String.toList_append, h⟩

lemma TakesBut.append {items' : List Regex} {text text' : String}
    (h : (Regex.sequence items.reverse).Takes text.toList) (h' : TakesBut items' text') :
    TakesBut (items' ++ items) (text ++ text') := by
  obtain ⟨taken, slash, htext, htaken⟩ := h'
  refine ⟨text.toList ++ taken, slash, by rw [String.toList_append, htext, List.append_assoc], ?_⟩
  rw [List.reverse_append]
  exact Regex.takes_sequence_append h htaken

/-- The items take the names of every division. -/
def TakesDivisions (components : List Component) (items : List Regex) : Prop :=
  ∀ ⦃names shares slash⦄, IsDivision components names shares → Unbroken components shares →
    EndsProperly components shares slash → TakesBut items (joinNames names slash)

/-- The last component. -/
lemma takesDivisions_singleton (h : ∀ share, c.takes share →
      (c = .ellipsis → ∀ name ∈ share, '\n' ∉ name.toList) →
      (Regex.sequence items.reverse).Takes ("/".intercalate share).toList) :
    TakesDivisions [c] items := by
  intro names shares slash hshares hlines _
  obtain ⟨share, tail, others, hshare, ⟨htail, rfl⟩, rfl, rfl⟩ := hshares.exists_cons
  cases htail
  rw [List.flatten_nil, List.append_nil]
  exact .of_intercalate (h share hshare hlines.of_cons.1) slash

/-- A component in front of others, whose share are directories. -/
lemma TakesDivisions.cons {items' : List Regex} (hrest : rest ≠ [])
    (h : TakesDivisions rest items') (hfirst : ∀ share, c.takes share →
      (c = .ellipsis → ∀ name ∈ share, '\n' ∉ name.toList) →
      (Regex.sequence items.reverse).Takes (joinNames share true).toList) :
    TakesDivisions (c :: rest) (items' ++ items) := by
  intro names shares slash hshares hlines hends
  obtain ⟨share, tail, others, hshare, htail, rfl, rfl⟩ := hshares.exists_cons
  obtain ⟨hends', hothers⟩ := hends.of_cons htail hrest
  rw [joinNames_append hothers]
  exact .append (hfirst share hshare hlines.of_cons.1) (h htail hlines.of_cons.2 hends')

/-- What stands for a component at the end is read as a pattern that takes the names of its
share. -/
lemma exists_read_last (hc : ∃ part, Component.compile ignoreCase part = .ok c)
    (hw : w.Shows ignoreCase [base]) (hus : IsTail us) :
    ∃ w' items, w'.Shows ignoreCase [items ++ base] ∧
      Regex.readAll (Regex.tokens (joinedFragments [c]).toList ++ us) w = Regex.readAll us w' ∧
      TakesDivisions [c] items := by
  obtain ⟨part, hpart⟩ := hc
  cases hellipsis : c.isEllipsis with
  | true =>
    obtain rfl := Component.eq_ellipsis hellipsis
    obtain ⟨w', hw', hread⟩ := Regex.readAll_line hw hus
    rw [tokens_line]
    exact ⟨w', [.capture 0 Regex.line], hw', hread, takesDivisions_singleton
      fun share _ hlines => Regex.takes_line (newline_not_mem_intercalate (hlines rfl))⟩
  | false =>
    obtain ⟨ps, items, hwritten⟩ := Component.exists_isWritten hpart hellipsis
    obtain ⟨w', hw', hread⟩ := hwritten.readAll hw hus
    rw [joinedFragments_singleton hellipsis]
    refine ⟨w', items, hw', hread, takesDivisions_singleton fun share hshare _ => ?_⟩
    obtain ⟨name, rfl⟩ := Component.exists_of_takes hellipsis hshare
    rw [String.intercalate_singleton]
    exact hwritten.takes name hshare

/-- What stands for a component in front of others is read as a pattern that takes the directories
of its share, each with a slash behind it. -/
lemma exists_read_front (hc : ∃ part, Component.compile ignoreCase part = .ok c) (hrest : rest ≠ [])
    (hw : w.Shows ignoreCase [base])
    (htail : IsTail (Regex.tokens (joinedFragments rest).toList ++ us)) :
    ∃ w' items, w'.Shows ignoreCase [items ++ base] ∧
      Regex.readAll (Regex.tokens (joinedFragments (c :: rest)).toList ++ us) w
        = Regex.readAll (Regex.tokens (joinedFragments rest).toList ++ us) w' ∧
      ∀ share, c.takes share → (c = .ellipsis → ∀ name ∈ share, '\n' ∉ name.toList) →
        (Regex.sequence items.reverse).Takes (joinNames share true).toList := by
  obtain ⟨part, hpart⟩ := hc
  cases hellipsis : c.isEllipsis with
  | true =>
    obtain rfl := Component.eq_ellipsis hellipsis
    rw [tokens_joinedFragments_ellipsis hrest, List.append_assoc]
    obtain ⟨w', hw', hread⟩ := Regex.readAll_ellipsis hw htail
    refine ⟨w', [.capture 0 (Regex.chain ignoreCase)], hw', hread, fun share _ hlines => ?_⟩
    by_cases hshare : share = []
    · rw [hshare, joinNames_nil]
      exact Regex.takes_ellipsis_nil
    · rw [toList_joinNames_directory hshare]
      exact Regex.takes_ellipsis (newline_not_mem_intercalate (hlines rfl))
  | false =>
    obtain ⟨ps, items, hwritten⟩ := Component.exists_isWritten hpart hellipsis
    rw [hwritten.tokens_joinedFragments hellipsis hrest, List.append_assoc]
    have hslash := Regex.IsTail.plain htail.settled (c := '/') (by decide) (by decide)
    obtain ⟨w₁, hw₁, hread₁⟩ := hwritten.readAll hw hslash
    have hread₂ := Regex.readAll_char hw₁.flags_eq htail.settled '/'
    have hw₂ := hw₁.push (.character (.literal (Regex.caseFlags ignoreCase).comparison '/'))
    refine ⟨_, .one (.literal (Regex.caseFlags ignoreCase).comparison '/') :: items, hw₂,
      hread₁.trans hread₂, fun share hshare _ => ?_⟩
    obtain ⟨name, rfl⟩ := Component.exists_of_takes hellipsis hshare
    rw [toList_joinNames_directory (List.cons_ne_nil name []), String.intercalate_singleton,
      List.reverse_cons]
    exact Regex.takes_sequence_append (hwritten.takes name hshare) (Regex.takes_literal '/')

/-- **What stands for components in a row is read as one pattern** that takes the names of every
division, with slashes between them; the slash at the end may be left to what comes behind. -/
theorem exists_read_joined {components : List Component}
    (hcompiled : ∀ c ∈ components, ∃ part, Component.compile ignoreCase part = .ok c)
    (hw : w.Shows ignoreCase [base]) (hus : IsTail us) :
    ∃ w' items, w'.Shows ignoreCase [items ++ base] ∧
      Regex.readAll (Regex.tokens (joinedFragments components).toList ++ us) w
        = Regex.readAll us w' ∧ TakesDivisions components items := by
  induction components generalizing w base with
  | nil =>
    refine ⟨w, [], hw, rfl, fun names shares slash hshares _ _ => ?_⟩
    obtain ⟨htaken, rfl⟩ := hshares
    cases htaken
    exact ⟨[], false, by simp, rfl⟩
  | cons c rest ih =>
    rw [List.forall_mem_cons] at hcompiled
    by_cases hrest : rest = []
    · subst hrest
      exact exists_read_last hcompiled.1 hw hus
    obtain ⟨w₁, items, hw₁, hread, htakes⟩ := exists_read_front hcompiled.1 hrest hw
      (isTail_joinedFragments hcompiled.2 hus)
    obtain ⟨w₂, items', hw₂, hread', htakes'⟩ := ih hcompiled.2 hw₁
    exact ⟨w₂, items' ++ items, by rw [List.append_assoc]; exact hw₂, hread.trans hread',
      htakes'.cons hrest htakes⟩

/-! ## Whole paths -/

/-- What stands at the end: a slash that may be missing, and the end of the text. -/
def endTokens : List Token := [.plain '/', .plain '?', .escaped 'Z']

/-- The slash that may be missing. -/
def lastSlash (ignoreCase : Bool) : Regex :=
  .repeated .greedy 0 (some 1) (.one (.literal (Regex.caseFlags ignoreCase).comparison '/'))

lemma takes_lastSlash (slash : Bool) :
    (lastSlash ignoreCase).Takes (if slash then "/" else "").toList := by
  cases slash with
  | true =>
    refine ⟨[], ['/'], rfl, rfl, 1, fun m hm => ?_, ['/'], [], rfl, Regex.takes_literal '/', rfl⟩
    rw [← Option.some.inj hm]
  | false => exact ⟨[], [], rfl, rfl, 0, fun _ _ => Nat.zero_le _, rfl⟩

lemma isTail_endTokens : IsTail endTokens := ⟨by decide, by decide, by decide⟩

lemma readAll_endTokens (hw : w.level.flags = Regex.caseFlags ignoreCase) :
    ∃ item : Regex.Item, item.node = lastSlash ignoreCase ∧
      Regex.readAll endTokens w = .ok ((w.push item).push (.position .textEnd)) := by
  have hend : IsTail [.escaped 'Z'] := ⟨by decide, by decide, by decide⟩
  refine ⟨⟨lastSlash ignoreCase, .repetition, Regex.Width.one.times 0 (some 1)⟩, rfl, ?_⟩
  have hread := Regex.readAll_char hw
    (show Token.dangling ∉ [Token.plain '?', .escaped 'Z'] by decide) '/'
  have hoptional := hread.trans (Regex.readAll_of_step_zero (Regex.step_optional hw hend rfl))
  have hstep : ∀ w : Work, Regex.step (.escaped 'Z') [] w
      = .ok (w.push (.position .textEnd), 0) := fun _ => rfl
  refine hoptional.trans ?_
  rw [Regex.readAll_of_step_zero (hstep _), Regex.readAll]
  rfl

lemma shows_end {item : Regex.Item} (hw : w.Shows ignoreCase [base])
    (hitem : item.node = lastSlash ignoreCase) :
    ((w.push item).push (.position .textEnd)).Shows ignoreCase
      [.anchor .textEnd :: lastSlash ignoreCase :: base] := by
  have hpush := (hw.push item).push (.position .textEnd)
  rwa [hitem] at hpush

lemma tokens_wholePathSource (components : List Component) (absolute : Bool)
    (h : .dangling ∉ Regex.tokens (joinedFragments components).toList) :
    Regex.tokens (wholePathSource components absolute).toList
      = .plain '^' :: ((if absolute then [.plain '/'] else [])
          ++ (Regex.tokens (joinedFragments components).toList ++ endTokens)) := by
  have hstart : (wholePathSource components absolute).toList
      = ('^' :: if absolute then ['/'] else [])
        ++ ((joinedFragments components).toList ++ ['/', '?', '\\', 'Z']) := by
    cases absolute <;> simp [wholePathSource]
  have hplain : '\\' ∉ '^' :: if absolute then ['/'] else [] := by
    cases absolute <;> simp
  rw [hstart, Glob.tokens_plain_append hplain, Regex.tokens_append h]
  cases absolute <;> rfl

/-- The slash of a path from the root. -/
def rootSlash (ignoreCase absolute : Bool) : List Regex :=
  if absolute then [.one (.literal (Regex.caseFlags ignoreCase).comparison '/')] else []

lemma takes_rootSlash (absolute : Bool) :
    (Regex.sequence (rootSlash ignoreCase absolute).reverse).Takes
      (if absolute then "/" else "").toList := by
  cases absolute with
  | true => exact Regex.takes_literal '/'
  | false => rfl

/-- What stands in front of the components: the beginning of the text, and the slash of the root. -/
lemma exists_read_start {components : List Component} {absolute : Bool} {n : ℕ}
    (htail : IsTail (Regex.tokens (joinedFragments components).toList ++ endTokens)) :
    ∃ w, w.Shows ignoreCase [rootSlash ignoreCase absolute ++ [.anchor .textStart]] ∧
      Regex.readAll (Regex.tokens (wholePathSource components absolute).toList)
          (.start (Regex.caseFlags ignoreCase) n)
        = Regex.readAll (Regex.tokens (joinedFragments components).toList ++ endTokens) w := by
  have hjoined : .dangling ∉ Regex.tokens (joinedFragments components).toList :=
    fun h => htail.settled (List.mem_append_left _ h)
  have hlead : .dangling ∉ (if absolute then [Token.plain '/'] else [])
      ++ (Regex.tokens (joinedFragments components).toList ++ endTokens) := by
    cases absolute <;> simpa using htail.settled
  have hw := (Regex.shows_start ignoreCase n).push (.position .textStart)
  rw [tokens_wholePathSource components absolute hjoined,
    Regex.readAll_of_step_zero (Regex.step_caret rfl hlead)]
  cases absolute with
  | true =>
    exact ⟨_, hw.push (.character (.literal (Regex.caseFlags ignoreCase).comparison '/')),
      Regex.readAll_char hw.flags_eq htail.settled '/'⟩
  | false => exact ⟨_, hw, rfl⟩

/-- What the pattern of whole paths is read as. -/
lemma exists_read_wholePath {components : List Component}
    (hcompiled : ∀ c ∈ components, ∃ part, Component.compile ignoreCase part = .ok c)
    (absolute : Bool) (n : ℕ) :
    ∃ w items, Regex.readAll (Regex.tokens (wholePathSource components absolute).toList)
        (.start (Regex.caseFlags ignoreCase) n) = .ok w ∧
      w.Shows ignoreCase [.anchor .textEnd :: lastSlash ignoreCase
        :: (items ++ (rootSlash ignoreCase absolute ++ [.anchor .textStart]))] ∧
      TakesDivisions components items := by
  obtain ⟨w₁, hw₁, hread₁⟩ :=
    exists_read_start (isTail_joinedFragments hcompiled isTail_endTokens)
  obtain ⟨w₂, items, hw₂, hread₂, htakes⟩ := exists_read_joined hcompiled hw₁ isTail_endTokens
  obtain ⟨last, hlast, hread₃⟩ := readAll_endTokens hw₂.flags_eq
  exact ⟨_, items, hread₁.trans (hread₂.trans hread₃), shows_end hw₂ hlast, htakes⟩

/-- **The pattern of whole paths** takes the whole text, and between its ends the names of every
division, with slashes between them, the root in front and perhaps a slash behind. -/
lemma exists_wholePath {components : List Component} {absolute : Bool} {p : Pattern}
    (hcompiled : ∀ c ∈ components, ∃ part, Component.compile ignoreCase part = .ok c)
    (hp : compilePattern ignoreCase (wholePathSource components absolute) = .ok p) :
    ∃ nodes, p.regex = Regex.sequence (.anchor .textStart :: (nodes ++ [.anchor .textEnd])) ∧
      ∀ {names shares slash}, IsDivision components names shares → Unbroken components shares →
        EndsProperly components shares slash →
        (Regex.sequence nodes).Takes ((if absolute then "/" else "")
          ++ joinNames names slash).toList := by
  obtain ⟨w, hread, houter, hregex, -⟩ := exists_of_compilePattern hp
  obtain ⟨w', items, hread', hw, htakes⟩ := exists_read_wholePath hcompiled absolute _
  obtain rfl : w' = w := Except.ok.inj (hread'.symm.trans hread)
  obtain ⟨all, hlevel, hall⟩ := hw.exists_of_outer houter
  obtain ⟨nodes, hbody, hnodes⟩ := hlevel.exists_body
  have hordered : nodes.map Regex.unnumbered
      = .anchor .textStart :: (((rootSlash ignoreCase absolute).reverse ++ items.reverse
          ++ [lastSlash ignoreCase]) ++ [.anchor .textEnd]) := by
    rw [hnodes, ← List.singleton_inj.mp hall]
    simp
  obtain ⟨between, hbetween, htexts⟩ := Regex.exists_between hordered
  refine ⟨between, by rw [hregex, hbody, hbetween],
    fun {names shares slash} hshares hlines hends => ?_⟩
  obtain ⟨taken, last, htext, htaken⟩ := htakes hshares hlines hends
  rw [htexts, String.toList_append, htext, ← List.append_assoc]
  exact Regex.takes_sequence_append
    (Regex.takes_sequence_append (takes_rootSlash absolute) htaken) (takes_lastSlash last)

/-- **It can always be compiled**, whatever components it is made from. -/
theorem exists_compilePattern_wholePath {components : List Component}
    (hcompiled : ∀ c ∈ components, ∃ part, Component.compile ignoreCase part = .ok c)
    (absolute : Bool) :
    ∃ p, compilePattern ignoreCase (wholePathSource components absolute) = .ok p := by
  obtain ⟨w, items, hread, hw, -⟩ := exists_read_wholePath hcompiled absolute
    (wholePathSource components absolute).toList.length
  have hjoined := (isTail_joinedFragments hcompiled isTail_endTokens).settled
  refine exists_compilePattern_of_shows ?_ hread hw
  rw [tokens_wholePathSource components absolute fun h => hjoined (List.mem_append_left _ h)]
  exact Regex.settle_plain _ _

/-- A pattern between the ends of a text finds what it takes. -/
lemma Pattern.finds_of_takes {p : Pattern} {nodes : List Regex} {text : String}
    (hp : p.regex = Regex.sequence (.anchor .textStart :: (nodes ++ [.anchor .textEnd])))
    (h : (Regex.sequence nodes).Takes text.toList) : p.finds text := by
  have hrun : (p.regex.run ⟨[], text.toList, []⟩ some).isSome := by
    rw [hp, Regex.run_sequence_cons, Regex.run, if_pos (by rfl), Regex.run_sequence_append]
    refine Regex.run_of_takes _ h (List.prefix_refl text.toList) fun t ht => ?_
    have hafter : t.after = [] :=
      List.append_cancel_left (ht.after.symm.trans (List.append_nil text.toList).symm)
    rw [Regex.sequence, Regex.run, if_pos (by rw [Regex.Anchor.holdsAt, hafter]; rfl)]
    rfl
  rw [finds, Regex.find?]
  cases htext : text.toList with
  | nil =>
    rw [htext] at hrun
    rw [Regex.findFrom, Option.isSome_map]
    exact hrun
  | cons c cs =>
    rw [htext] at hrun
    obtain ⟨t, ht⟩ := Option.isSome_iff_exists.mp hrun
    rw [Regex.findFrom, ht]
    rfl

end

namespace PathSpec

/-- What a specification is made of, if no pattern is given for its results. -/
structure IsCompiled (ignoreCase : Bool) (parts : List String) (spec : PathSpec) : Prop where
  components : ∀ c ∈ spec.components, ∃ part ∈ parts, Component.compile ignoreCase part = .ok c
  matcher : compilePattern ignoreCase (wholePathSource spec.components spec.absolute)
    = .ok spec.matcher

lemma exists_of_mapM_compile {ignoreCase : Bool} {parts : List String}
    {components : List Component}
    (h : parts.mapM (Component.compile ignoreCase) = .ok components) :
    ∀ c ∈ components, ∃ part ∈ parts, Component.compile ignoreCase part = .ok c := by
  induction parts generalizing components with
  | nil =>
    cases h
    exact fun c hc => absurd hc List.not_mem_nil
  | cons part parts ih =>
    rw [List.mapM_cons] at h
    obtain ⟨c, hc, h⟩ := bind_eq_ok.mp h
    obtain ⟨cs, hcs, h⟩ := bind_eq_ok.mp h
    cases h
    rw [List.forall_mem_cons]
    refine ⟨⟨part, List.mem_cons_self, hc⟩, fun c' hc' => ?_⟩
    obtain ⟨part', hmem, hpart'⟩ := ih hcs c' hc'
    exact ⟨part', List.mem_cons_of_mem part hmem, hpart'⟩

section

variable {ignoreCase follow : Bool} {path : PathInput} {absolute : Option Bool} {spec : PathSpec}

/-- What a path is compiled to, whatever pattern is given for its results. -/
lemma exists_split_of_compile {matching : Option PatternInput}
    (h : compile ignoreCase path absolute matching follow = .ok spec) :
    ∃ parts, path.split absolute = .ok (parts, spec.absolute) ∧
      (∀ c ∈ spec.components, ∃ part ∈ parts, Component.compile ignoreCase part = .ok c) ∧
      (matching = none → compilePattern ignoreCase (wholePathSource spec.components spec.absolute)
        = .ok spec.matcher) := by
  obtain ⟨⟨parts, rooted⟩, hsplit, h⟩ := bind_eq_ok.mp h
  obtain ⟨components, hcomponents, h⟩ := bind_eq_ok.mp h
  have hparts : path.split absolute = .ok (parts, rooted) := by
    cases hpath : path.split absolute with
    | error problem =>
      rw [hpath] at hsplit
      cases hsplit
    | ok split =>
      rw [hpath] at hsplit
      cases hsplit
      rfl
  cases matching with
  | none =>
    obtain ⟨matcher, hmatcher, h⟩ := bind_eq_ok.mp h
    cases h
    exact ⟨parts, hparts, exists_of_mapM_compile hcomponents, fun _ => hmatcher⟩
  | some given =>
    obtain ⟨matcher, -, h⟩ := bind_eq_ok.mp h
    cases h
    exact ⟨parts, hparts, exists_of_mapM_compile hcomponents, fun hgiven => by cases hgiven⟩

/-- What a path whose parts are known is compiled to. -/
lemma of_compile_of_split {parts : List String} {rooted : Bool} {matching : Option PatternInput}
    (hsplit : path.split absolute = .ok (parts, rooted))
    (h : compile ignoreCase path absolute matching follow = .ok spec) :
    parts.mapM (Component.compile ignoreCase) = .ok spec.components ∧ spec.absolute = rooted ∧
      spec.follow = follow := by
  obtain ⟨_, hparts, hrest⟩ := bind_eq_ok.mp h
  rw [hsplit] at hparts
  cases hparts
  obtain ⟨components, hcomponents, hrest⟩ := bind_eq_ok.mp hrest
  obtain ⟨matcher, hspec⟩ : ∃ matcher, spec = ⟨components, matcher, rooted, follow⟩ := by
    cases matching <;>
    · obtain ⟨matcher, -, hspec⟩ := bind_eq_ok.mp hrest
      exact ⟨matcher, (Except.ok.inj hspec).symm⟩
  subst hspec
  exact ⟨hcomponents, rfl, rfl⟩

/-- **A path can be compiled if its parts can.** -/
lemma exists_compile_of_split {parts : List String} {rooted : Bool} {components : List Component}
    (hsplit : path.split absolute = .ok (parts, rooted))
    (h : parts.mapM (Component.compile ignoreCase) = .ok components) (follow : Bool) :
    ∃ spec, compile ignoreCase path absolute none follow = .ok spec ∧
    spec.components = components := by
  have hcompiled : ∀ c ∈ components, ∃ part, Component.compile ignoreCase part = .ok c :=
    fun c hc => (exists_of_mapM_compile h c hc).imp fun part hpart => hpart.2
  obtain ⟨matcher, hmatcher⟩ := exists_compilePattern_wholePath hcompiled rooted
  refine ⟨⟨components, matcher, rooted, follow⟩, ?_, rfl⟩
  rw [compile, hsplit]
  exact bind_eq_ok.mpr ⟨_, rfl, bind_eq_ok.mpr ⟨_, h, bind_eq_ok.mpr ⟨_, hmatcher, rfl⟩⟩⟩

/-- The specification that a path is compiled to. -/
lemma exists_parts_of_compile (h : compile ignoreCase path absolute none follow = .ok spec) :
    ∃ parts, path.split absolute = .ok (parts, spec.absolute) ∧
      spec.IsCompiled ignoreCase parts := by
  obtain ⟨parts, hsplit, hcomponents, hmatcher⟩ := exists_split_of_compile h
  exact ⟨parts, hsplit, hcomponents, hmatcher rfl⟩

end

/-- **The pattern of a specification finds every division.** -/
theorem IsCompiled.finds_joinNames {ignoreCase : Bool} {parts : List String} {spec : PathSpec}
    (h : spec.IsCompiled ignoreCase parts) {names : List String} {shares : List (List String)}
    {slash : Bool} (hshares : IsDivision spec.components names shares)
    (hlines : Unbroken spec.components shares)
    (hends : EndsProperly spec.components shares slash) :
    spec.matcher.finds (spec.rootPath ++ joinNames names slash) := by
  have hcompiled : ∀ c ∈ spec.components, ∃ part, Component.compile ignoreCase part = .ok c := by
    intro c hc
    obtain ⟨part, _, hpart⟩ := h.components c hc
    exact ⟨part, hpart⟩
  obtain ⟨nodes, hnodes, htakes⟩ := exists_wholePath hcompiled h.matcher
  exact Pattern.finds_of_takes hnodes (htakes hshares hlines hends)

/-- If the last component is no ellipsis, the slash at the end may stand or be missing. -/
theorem IsCompiled.finds {ignoreCase : Bool} {parts : List String} {spec : PathSpec}
    (h : spec.IsCompiled ignoreCase parts) (hne : spec.components ≠ [])
    (hlast : spec.components.getLast? ≠ some .ellipsis) {names : List String}
    {shares : List (List String)} (hshares : IsDivision spec.components names shares)
    (hnames : ∀ name ∈ names, '\n' ∉ name.toList) (slash : Bool) :
    spec.matcher.finds
      (spec.rootPath ++ "/".intercalate names ++ if slash then "/" else "") := by
  have hlines : Unbroken spec.components shares := by
    intro p hp _ name hname
    refine hnames name ?_
    rw [← hshares.whole]
    exact List.mem_flatten_of_mem (List.of_mem_zip hp).2 hname
  rw [String.append_assoc, ← joinNames_of_ne_nil (hshares.ne_nil hne hlast)]
  exact h.finds_joinNames hshares hlines fun h _ => absurd h hlast

/-! ## Compiled paths -/

section

variable {ignoreCase follow : Bool} {path : PathInput} {absolute : Option Bool}

/-- **The pattern made from the components of a path finds whatever they lead to**: the names of
every division, with slashes between them and one behind a directory, the root in front.  Only the
names that ellipses stand for must have no line break, and an ellipsis at the end that stands for no
name is at a directory. -/
theorem finds_division {spec : PathSpec}
    (h : compile ignoreCase path absolute none follow = .ok spec)
    {names : List String} {shares : List (List String)} {slash : Bool}
    (hshares : IsDivision spec.components names shares) (hlines : Unbroken spec.components shares)
    (hends : EndsProperly spec.components shares slash) :
    spec.matcher.finds (spec.rootPath ++ joinNames names slash) := by
  obtain ⟨parts, -, hcompiled⟩ := exists_parts_of_compile h
  exact hcompiled.finds_joinNames hshares hlines hends

variable (ignoreCase follow path absolute) in
/-- What a test says of a compiled path. -/
lemma exists_compile (test : PathSpec → Bool)
    (h : (compile ignoreCase path absolute none follow).toOption.map test = some true) :
    ∃ spec, compile ignoreCase path absolute none follow = .ok spec ∧ test spec = true := by
  cases hc : compile ignoreCase path absolute none follow with
  | error problem =>
    rw [hc] at h
    cases h
  | ok spec =>
    rw [hc] at h
    exact ⟨spec, rfl, Option.some.inj h⟩

end

/-- A line break in a name that a glob stands for, and an ellipsis that stands for no name. -/
theorem finds_division_root :
    ∃ spec, compile true (.text "/A///*.c///") none none true = .ok spec ∧
      IsDivision spec.components ["A", "x", "y", "\n.C"] [["A"], ["x", "y"], ["\n.C"], []] ∧
      spec.matcher.finds "/A/x/y/\n.C/" := by
  obtain ⟨spec, hspec, htest⟩ := exists_compile true true (.text "/A///*.c///") none
    (fun spec => decide (spec.rootPath = "/" ∧
      [["A"], ["x", "y"], ["\n.C"], []] ∈ divisions spec.components ["A", "x", "y", "\n.C"] ∧
      ∀ p ∈ spec.components.zip [["A"], ["x", "y"], ["\n.C"], []],
        p.1 = .ellipsis → ∀ name ∈ p.2, '\n' ∉ name.toList)) (by decide +kernel)
  obtain ⟨hroot, hshares, hlines⟩ := of_decide_eq_true htest
  have hdivision := mem_divisions.mp hshares
  have hends : EndsProperly spec.components [["A"], ["x", "y"], ["\n.C"], []] true := fun _ _ => rfl
  have hfinds := finds_division hspec hdivision hlines hends
  rw [hroot] at hfinds
  exact ⟨spec, hspec, hdivision, hfinds⟩

/-- **A line break in a name that an ellipsis stands for is in the way**, though a walk goes through
that directory as through any other. -/
theorem finds_division_lineBreak :
    ∃ spec, compile false (.text "x///c") none none false = .ok spec ∧
      IsDivision spec.components ["x", "a\nb", "c"] [["x"], ["a\nb"], ["c"]] ∧
      EndsProperly spec.components [["x"], ["a\nb"], ["c"]] false ∧
      spec.rootPath ++ joinNames ["x", "a\nb", "c"] false = "x/a\nb/c" ∧
      spec.matcher.finds "x/a\nb/c" = false := by
  obtain ⟨spec, hspec, htest⟩ := exists_compile false false (.text "x///c") none
    (fun spec => decide (spec.rootPath = "" ∧
      [["x"], ["a\nb"], ["c"]] ∈ divisions spec.components ["x", "a\nb", "c"] ∧
      spec.components.getLast? ≠ some .ellipsis ∧ spec.matcher.finds "x/a\nb/c" = false))
    (by decide +kernel)
  obtain ⟨hroot, hshares, hlast, hfinds⟩ := of_decide_eq_true htest
  exact ⟨spec, hspec, mem_divisions.mp hshares, fun h _ => absurd h hlast,
    by rw [hroot]; decide, hfinds⟩

end PathSpec

end PathExpansion
