import Mathlib.Data.List.Basic
import PathExpansion.Pattern
import PathExpansion.Regex.Set

/-!
# Sets that are written for a pattern

The sets of generated patterns hold characters and escaped special characters only, and no closing
bracket but at the start.  Reading such a set is a recursion on what stands between its brackets,
and what stands behind it does not matter.

* `tokens_append` — tokens of texts in a row.
* `IsMember`, `Token.code` — tokens that stand for a character in a set.
* `membersOf?`, `setOf?` — the set between two brackets.
* **`readSet_append`** — reading a set takes what stands between its brackets.
* **`readSet_unclosed`** — without a closing bracket there is nothing to be read.
-/

namespace PathExpansion

namespace Regex

/-! ## Tokens -/

lemma toOption_map {ε α β : Type} (f : α → β) (x : Except ε α) :
    (x.map f).toOption = x.toOption.map f := by
  cases x <;> rfl

lemma eq_ok_of_toOption {ε α : Type} {x : Except ε α} {a : α} (h : x.toOption = some a) :
    x = .ok a := by
  cases x with
  | error e => cases h
  | ok b => exact congrArg Except.ok (Option.some.inj h)

lemma exists_eq_error {ε α : Type} {x : Except ε α} (h : x.toOption = none) :
    ∃ e, x = .error e := by
  cases x with
  | error e => exact ⟨e, rfl⟩
  | ok b => cases h

lemma bind_ok {ε α β : Type} (a : α) (f : α → Except ε β) : (Except.ok a >>= f) = f a := rfl

lemma tokens_cons {c : Char} (hc : c ≠ '\\') (cs : List Char) :
    tokens (c :: cs) = .plain c :: tokens cs := by
  rw [tokens]
  · rintro rfl
    exact absurd rfl hc
  · rintro d _ rfl
    exact absurd rfl hc

/-- A text that does not end in the middle of an escape is read for itself. -/
lemma tokens_append {cs : List Char} (h : .dangling ∉ tokens cs) (ds : List Char) :
    tokens (cs ++ ds) = tokens cs ++ tokens ds := by
  fun_induction tokens cs with
  | case1 => rfl
  | case2 => exact absurd List.mem_cons_self h
  | case3 c rest ih =>
    rw [List.cons_append, List.cons_append, tokens,
      ih fun hrest => h (List.mem_cons_of_mem _ hrest)]
    rfl
  | case4 c rest hlast hescape ih =>
    have hc : c ≠ '\\' := by
      rintro rfl
      cases rest with
      | nil => exact hlast rfl rfl
      | cons d rest => exact hescape d rest rfl rfl
    rw [List.cons_append, tokens_cons hc, ih fun hrest => h (List.mem_cons_of_mem _ hrest)]
    rfl

lemma settle_eq_ok {ts : List Token} (h : .dangling ∉ ts) : settle ts = .ok () := by
  rw [settle, if_neg]
  rintro rfl
  exact h List.mem_cons_self

@[simp] lemma settle_plain (c : Char) (ts : List Token) : settle (.plain c :: ts) = .ok () := by
  rw [settle, if_neg (by simp)]

/-- A token that stands for a character in a set: a character, or a special one in an escape. -/
def IsMember : Token → Prop
  | .plain _ => True
  | .escaped c => isSpecial c
  | .dangling => False

/-- The code point that such a token stands for. -/
def Token.code : Token → ℕ
  | .plain c | .escaped c => c.toNat
  | .dangling => 0

/-- A special character means nothing else when it is escaped. -/
structure IsReserved (c : Char) : Prop where
  control : controlCode? c = none ∨ controlCode? c = some c.toNat
  category : category? c = none
  hex : hexLength? c = none
  anchor : (c = 'A' || c = 'b' || c = 'B' || c = 'Z') = false
  name : c ≠ 'N'
  octal : isOctalDigit c = false
  digit : c.isDigit = false
  letter : c.isAlpha = false

lemma isReserved_of_isSpecial {c : Char} (h : isSpecial c) : IsReserved c := by
  -- a list is gone through, because the quantifier would range over all characters
  have hall : "()[]\x7b\x7d?*+-|^$\\.&~# \t\n\r\x0b\x0c".toList.all fun d =>
      (controlCode? d == none || controlCode? d == some d.toNat) && category? d == none &&
        hexLength? d == none && !(d = 'A' || d = 'b' || d = 'B' || d = 'Z') && d != 'N' &&
        !isOctalDigit d && !d.isDigit && !d.isAlpha := by
    decide
  have hc := List.all_eq_true.mp hall c (List.contains_iff_mem.mp h)
  simp only [Bool.and_eq_true, Bool.or_eq_true, beq_iff_eq, bne_iff_ne, Bool.not_eq_true'] at hc
  obtain ⟨⟨⟨⟨⟨⟨⟨h₁, h₂⟩, h₃⟩, h₄⟩, h₅⟩, h₆⟩, h₇⟩, h₈⟩ := hc
  exact ⟨h₁, h₂, h₃, h₄, h₅, h₆, h₇, h₈⟩

/-- Outside a set, an escaped special character stands for itself. -/
lemma readEscape_special {c : Char} (h : isSpecial c) (rest : List Token) :
    readEscape c rest = .ok (.code c.toNat, 0) := by
  obtain ⟨hcontrol, hcategory, hhex, hanchor, hname, _, hdigit, hletter⟩ :=
    isReserved_of_isSpecial h
  rw [readEscape, hcategory]
  simp only [hanchor, Bool.false_eq_true, if_false]
  rcases hcontrol with hcontrol | hcontrol
  · simp [hcontrol, hhex, hname, hdigit, readItself, hletter]
  · rw [hcontrol]

/-- In a set, it does so too. -/
lemma readSetEscape_special {c : Char} (h : isSpecial c) (rest : List Token) :
    readSetEscape c rest = .ok (.code c.toNat, 0) := by
  obtain ⟨hcontrol, hcategory, hhex, _, hname, hoctal, hdigit, hletter⟩ :=
    isReserved_of_isSpecial h
  rw [readSetEscape, hcategory, hhex]
  rcases hcontrol with hcontrol | hcontrol
  · simp [hcontrol, hname, hoctal, hdigit, readItself, hletter]
  · rw [hcontrol]

lemma setEscape_eq {t : Token} (h : IsMember t) (rest : List Token) :
    setEscape t rest = .ok (.code t.code, 0) := by
  cases t with
  | plain c => rfl
  | escaped c => exact readSetEscape_special h rest
  | dangling => exact h.elim

/-! ## Members -/

/-- The members that tokens of a set spell behind those found before; `none` if an interval goes
downwards. -/
def membersOf? (found : List SetMember) : List Token → Option (List SetMember)
  | [] => some found
  | [this, .plain '-'] => some (found ++ membersOfCode this.code ++ [.one '-'])
  | this :: .plain '-' :: that :: rest =>
    if that.code < this.code then none
    else membersOf? (found ++ membersOfRange this.code that.code) rest
  | this :: rest => membersOf? (found ++ membersOfCode this.code) rest

/-- The tokens of a set from some point on: members, none of them a closing bracket unless it is the
first and nothing has been read yet. -/
structure AreMembers (fresh : Bool) (body : List Token) : Prop where
  member : ∀ t ∈ body, IsMember t
  first : fresh = false → body.head? ≠ some (.plain ']')
  later : .plain ']' ∉ body.tail

section

variable {fresh : Bool} {this that : Token} {body rest us : List Token} {found : List SetMember}

/-- Only the first member may be a closing bracket. -/
lemma AreMembers.ne_closing (h : AreMembers false (this :: rest)) : this ≠ .plain ']' :=
  fun heq => h.first rfl (congrArg some heq)

lemma AreMembers.not_closing (h : AreMembers fresh (this :: rest)) :
    (this = .plain ']' && !fresh) = false := by
  cases fresh with
  | true => rw [Bool.not_true, Bool.and_false]
  | false => rw [Bool.not_false, Bool.and_true, decide_eq_false h.ne_closing]

lemma AreMembers.tail (h : AreMembers fresh (this :: rest)) : AreMembers false rest where
  member := fun t ht => h.member t (List.mem_cons_of_mem this ht)
  first := fun _ hhead => h.later (List.mem_of_mem_head? hhead)
  later := fun hmem => h.later (List.mem_of_mem_tail hmem)

lemma AreMembers.dangling_not_mem (h : AreMembers fresh body) : .dangling ∉ body :=
  fun hmem => h.member _ hmem

end

/-! ## Reading members -/

section

variable {left used : ℕ} {fresh : Bool} {found : List SetMember} {this that : Token}
  {rest ts : List Token}

lemma readMembers_one (h : AreMembers fresh (this :: rest)) (hsettle : settle ts = .ok ())
    (hminus : ∀ us, ts ≠ .plain '-' :: us) :
    readMembers left fresh found used (this :: ts)
      = readMembers left false (found ++ membersOfCode this.code) (used + 1) ts := by
  rw [readMembers, hsettle]
  simp only [bind_ok, h.not_closing, setEscape_eq (h.member this List.mem_cons_self),
    List.drop_zero, Bool.false_eq_true, if_false]
  rfl

lemma readMembers_minus (h : AreMembers fresh (this :: rest)) (hsettle : settle ts = .ok ()) :
    readMembers left fresh found used (this :: .plain '-' :: .plain ']' :: ts)
      = .ok (found ++ membersOfCode this.code ++ [.one '-'], used + 3) := by
  rw [readMembers, settle_plain]
  simp only [bind_ok, h.not_closing, setEscape_eq (h.member this List.mem_cons_self),
    List.drop_zero, Bool.false_eq_true, if_false, settle_plain, hsettle, if_true]
  rfl

/-- An interval is read as one member, if it does not go downwards. -/
lemma readMembers_range (h : AreMembers fresh (this :: .plain '-' :: that :: rest))
    (hsettle : settle (that :: ts) = .ok ()) (hsettle' : settle ts = .ok ()) :
    (readMembers left fresh found used (this :: .plain '-' :: that :: ts)).toOption
      = if that.code < this.code then none
        else (readMembers left false (found ++ membersOfRange this.code that.code) (used + 3)
          ts).toOption := by
  have hthat := h.tail.tail
  rw [readMembers, settle_plain]
  simp only [bind_ok, h.not_closing, setEscape_eq (h.member this List.mem_cons_self),
    setEscape_eq (hthat.member that List.mem_cons_self), List.drop_zero, Bool.false_eq_true,
    if_false, hsettle, hsettle', if_neg hthat.ne_closing, interval]
  split_ifs
  · rfl
  · rfl

end

/-- **Members are read up to the closing bracket**, whatever stands behind it. -/
lemma readMembers_append {fresh : Bool} {body us : List Token} {found : List SetMember}
    (hbody : AreMembers fresh body) (hnonempty : fresh = true → body ≠ []) (hus : .dangling ∉ us)
    (left used : ℕ) :
    (readMembers left fresh found used (body ++ .plain ']' :: us)).toOption
      = (membersOf? found body).map fun members => (members, used + (body.length + 1)) := by
  have hsettle : ∀ {ts : List Token}, AreMembers false ts →
      settle (ts ++ .plain ']' :: us) = .ok () := by
    intro ts hts
    refine settle_eq_ok ?_
    simpa [hts.dangling_not_mem] using hus
  fun_induction membersOf? found body generalizing fresh used with
  | case1 found =>
    have hfresh : fresh = false := by
      cases fresh with
      | true => exact absurd rfl (hnonempty rfl)
      | false => rfl
    subst hfresh
    rw [List.nil_append, readMembers, settle_eq_ok hus]
    rfl
  | case2 found this =>
    rw [List.cons_append, List.cons_append, List.nil_append,
      readMembers_minus hbody (settle_eq_ok hus)]
    rfl
  | case3 found this that rest hless =>
    have hthat := hbody.tail.tail
    have hs : settle (that :: (rest ++ .plain ']' :: us)) = .ok () := hsettle hthat
    rw [List.cons_append, List.cons_append, List.cons_append,
      readMembers_range hbody hs (hsettle hthat.tail), if_pos hless]
    rfl
  | case4 found this that rest hless ih =>
    have hthat := hbody.tail.tail
    have hs : settle (that :: (rest ++ .plain ']' :: us)) = .ok () := hsettle hthat
    have hlength : used + 3 + (rest.length + 1)
        = used + ((this :: .plain '-' :: that :: rest).length + 1) := by
      simp only [List.length_cons]
      omega
    rw [List.cons_append, List.cons_append, List.cons_append,
      readMembers_range hbody hs (hsettle hthat.tail), if_neg hless,
      ih hthat.tail (absurd · Bool.false_ne_true), hlength]
  | case5 found this rest hlast hinterval ih =>
    have hminus : ∀ ts, rest ++ .plain ']' :: us ≠ .plain '-' :: ts := by
      intro ts h
      rcases rest with _ | ⟨t, _ | ⟨t', rest⟩⟩
      · simp at h
      · rw [List.cons_append, List.cons.injEq] at h
        exact hlast (by rw [h.1])
      · rw [List.cons_append, List.cons.injEq] at h
        exact hinterval t' rest (by rw [h.1])
    have hlength : used + 1 + (rest.length + 1) = used + ((this :: rest).length + 1) := by
      simp only [List.length_cons]
      omega
    rw [List.cons_append, readMembers_one hbody (hsettle hbody.tail) hminus,
      ih hbody.tail (absurd · Bool.false_ne_true), hlength]

/-- Members without a closing bracket are not read at all. -/
lemma readMembers_unclosed {fresh : Bool} {body : List Token} {found : List SetMember}
    (hbody : AreMembers fresh body) (left used : ℕ) :
    (readMembers left fresh found used body).toOption = none := by
  have hsettle : ∀ {ts : List Token}, AreMembers false ts → settle ts = .ok () :=
    fun hts => settle_eq_ok hts.dangling_not_mem
  fun_induction membersOf? found body generalizing fresh used with
  | case1 found =>
    rw [readMembers]
    rfl
  | case2 found this =>
    rw [readMembers, settle_plain]
    simp only [bind_ok, hbody.not_closing, setEscape_eq (hbody.member this List.mem_cons_self),
      List.drop_zero, Bool.false_eq_true, if_false]
    rfl
  | case3 found this that rest hless =>
    have hthat := hbody.tail.tail
    rw [readMembers_range hbody (hsettle hthat) (hsettle hthat.tail), if_pos hless]
  | case4 found this that rest hless ih =>
    have hthat := hbody.tail.tail
    rw [readMembers_range hbody (hsettle hthat) (hsettle hthat.tail), if_neg hless,
      ih hthat.tail]
  | case5 found this rest hlast hinterval ih =>
    have hminus : ∀ ts, rest ≠ .plain '-' :: ts := by
      rintro ts rfl
      cases ts with
      | nil => exact hlast rfl
      | cons t ts => exact hinterval t ts rfl
    rw [readMembers_one hbody (hsettle hbody.tail) hminus, ih hbody.tail]

/-! ## Sets -/

/-- What stands between the brackets of a set, without the mark of negation. -/
def unmarked (body : List Token) : List Token :=
  if body.head? = some (.plain '^') then body.drop 1 else body

/-- Tokens that can stand between the brackets of a set. -/
structure IsSetBody (body : List Token) : Prop where
  members : AreMembers true (unmarked body)
  nonempty : unmarked body ≠ []

/-- The set that tokens between brackets spell, if they spell one. -/
def setOf? (flags : Flags) (body : List Token) : Option CharacterTest :=
  (membersOf? [] (unmarked body)).map (setTest flags (body.head? = some (.plain '^')))

section

variable {body us : List Token}

lemma unmarked_append (h : body ≠ []) (us : List Token) :
    unmarked (body ++ us) = unmarked body ++ us := by
  cases body with
  | nil => exact absurd rfl h
  | cons t body =>
    rw [unmarked, unmarked, List.cons_append, List.head?_cons, List.head?_cons]
    split_ifs <;> rfl

lemma IsSetBody.ne_nil (h : IsSetBody body) : body ≠ [] := by
  rintro rfl
  exact h.nonempty rfl

lemma dangling_not_mem_of_members (h : AreMembers true (unmarked body)) : .dangling ∉ body := by
  have hmem := h.dangling_not_mem
  rw [unmarked] at hmem
  split_ifs at hmem with hmark
  · cases body with
    | nil => exact List.not_mem_nil
    | cons t body =>
      rw [List.head?_cons, Option.some.injEq] at hmark
      rw [hmark]
      simpa using hmem
  · exact hmem

/-- A mark of negation is taken first. -/
lemma readSet_eq (flags : Flags) {ts : List Token} (h : .dangling ∉ ts) :
    readSet flags ts = (readMembers (widthOf ts + 1) true []
      (if ts.head? = some (.plain '^') then 1 else 0) (unmarked ts)).map fun read =>
        (setTest flags (ts.head? = some (.plain '^')) read.1, read.2) := by
  have hdrop : ts.drop (if ts.head? = some (.plain '^') then 1 else 0) = unmarked ts := by
    rw [unmarked]
    split_ifs <;> rfl
  have hsettle : settle (unmarked ts) = .ok () := by
    rw [← hdrop]
    exact settle_eq_ok fun hmem => h (List.mem_of_mem_drop hmem)
  rw [readSet]
  simp only [hdrop, hsettle, bind_ok]
  cases readMembers (widthOf ts + 1) true [] (if ts.head? = some (.plain '^') then 1 else 0)
    (unmarked ts) <;> rfl

/-- **Reading a set takes what stands between its brackets**, whatever stands behind them. -/
lemma readSet_append (flags : Flags) (h : IsSetBody body) (hus : .dangling ∉ us) :
    (readSet flags (body ++ .plain ']' :: us)).toOption
      = (setOf? flags body).map fun test => (test, body.length + 1) := by
  have hdangling : .dangling ∉ body ++ .plain ']' :: us := by
    simpa [dangling_not_mem_of_members h.members] using hus
  have hhead : (body ++ .plain ']' :: us).head? = body.head? :=
    List.head?_append_of_ne_nil _ h.ne_nil
  have hlength : (if body.head? = some (.plain '^') then 1 else 0) + ((unmarked body).length + 1)
      = body.length + 1 := by
    rw [unmarked]
    split_ifs with hmark
    · rw [List.length_drop]
      have := List.length_pos_iff.mpr h.ne_nil
      omega
    · omega
  rw [readSet_eq flags hdangling, hhead, unmarked_append h.ne_nil, toOption_map,
    readMembers_append h.members (fun _ => h.nonempty) hus, hlength, setOf?, Option.map_map,
    Option.map_map]
  rfl

/-- **Without a closing bracket there is no set.** -/
lemma readSet_unclosed (flags : Flags) (h : AreMembers true (unmarked body)) :
    (readSet flags body).toOption = none := by
  rw [readSet_eq flags (dangling_not_mem_of_members h), toOption_map,
    readMembers_unclosed h]
  rfl

end

end Regex

end PathExpansion
