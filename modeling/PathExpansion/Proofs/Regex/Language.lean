import Mathlib.Data.List.Basic
import PathExpansion.Regex.Matcher

/-!
# The texts that a pattern takes

A matcher tries alternatives in order and goes back when what follows does not succeed.  Which texts
a pattern takes does not depend on that, as long as the pattern neither looks around nor remembers:
then it takes a text wherever the text stands.

* `Takes`, `Records` — a pattern takes a text, without any position or order, and records groups on
  the way.
* `IsPlain` — a pattern that neither looks around nor remembers.
* **`run_of_takes`**, **`records_of_run`** — the matcher succeeds on a text that is taken, and only
  then.
* **`matchesAll_iff`** — the texts that a plain pattern matches from end to end.
-/

namespace PathExpansion

namespace Regex

/-- Some texts, one after the other, each of which satisfies `L`. -/
def Rounds (L : List Char → Prop) : (n : ℕ) → List Char → Prop
  | 0, u => u = []
  | n + 1, u => ∃ v w, u = v ++ w ∧ L v ∧ Rounds L n w

/-- **A pattern takes a text.**  One that looks around or refers to a group takes nothing. -/
def Takes : Regex → List Char → Prop
  | .empty, u => u = []
  | .one test, u => ∃ c, u = [c] ∧ test.accepts c
  | .seq r₁ r₂, u => ∃ v w, u = v ++ w ∧ r₁.Takes v ∧ r₂.Takes w
  | .alt r₁ r₂, u => r₁.Takes u ∨ r₂.Takes u
  | .capture _ r, u => r.Takes u
  | .repeated .greedy least most r, u =>
    ∃ v w, u = v ++ w ∧ Rounds r.Takes least v ∧
      ∃ n, (∀ m ∈ most, n ≤ m - least) ∧ Rounds r.Takes n w
  | _, _ => False

/-- The pattern neither looks around nor refers to a group, and all its repetitions are greedy. -/
def IsPlain : Regex → Prop
  | .empty | .one _ => True
  | .seq r₁ r₂ | .alt r₁ r₂ => r₁.IsPlain ∧ r₂.IsPlain
  | .capture _ r | .repeated .greedy _ _ r => r.IsPlain
  | _ => False

lemma rounds_one {test : CharacterTest} {u : List Char} (h : ∀ c ∈ u, test.accepts c) :
    Rounds (Regex.one test).Takes u.length u := by
  induction u with
  | nil => rfl
  | cons c u ih =>
    rw [List.forall_mem_cons] at h
    exact ⟨[c], u, rfl, ⟨c, rfl, h.1⟩, ih h.2⟩

/-- A test that may be repeated takes every text that it holds of throughout. -/
lemma takes_repeated_one {test : CharacterTest} {u : List Char} (h : ∀ c ∈ u, test.accepts c) :
    (repeated .greedy 0 none (.one test)).Takes u :=
  ⟨[], u, rfl, rfl, u.length, fun m hm => absurd hm (Option.not_mem_none m), rounds_one h⟩

/-! ## Sequences -/

section

variable {rs ss : List Regex} {u v w : List Char}

lemma takes_sequence_cons {r : Regex} (hv : r.Takes v) (hw : (sequence rs).Takes w) :
    (sequence (r :: rs)).Takes (v ++ w) := by
  cases rs with
  | nil =>
    rw [show w = [] from hw, List.append_nil]
    exact hv
  | cons r' rs => exact ⟨v, w, rfl, hv, hw⟩

lemma exists_of_takes_sequence_cons {r : Regex} (h : (sequence (r :: rs)).Takes u) :
    ∃ v w, u = v ++ w ∧ r.Takes v ∧ (sequence rs).Takes w := by
  cases rs with
  | nil => exact ⟨u, [], (List.append_nil u).symm, h, rfl⟩
  | cons r' rs => exact h

/-- Patterns in a row take texts in a row. -/
lemma takes_sequence_append (hv : (sequence rs).Takes v) (hw : (sequence ss).Takes w) :
    (sequence (rs ++ ss)).Takes (v ++ w) := by
  induction rs generalizing v with
  | nil =>
    rw [show v = [] from hv]
    exact hw
  | cons r rs ih =>
    obtain ⟨v₁, v₂, rfl, hv₁, hv₂⟩ := exists_of_takes_sequence_cons hv
    rw [List.append_assoc]
    exact takes_sequence_cons hv₁ (ih hv₂)

lemma isPlain_sequence (h : ∀ r ∈ rs, r.IsPlain) : (sequence rs).IsPlain := by
  induction rs with
  | nil => trivial
  | cons r rs ih =>
    rw [List.forall_mem_cons] at h
    cases rs with
    | nil => exact h.1
    | cons r' rs => exact ⟨h.1, ih h.2⟩

lemma run_sequence_cons (r : Regex) (rs : List Regex) (s : Spot) (k : Continuation) :
    (sequence (r :: rs)).run s k = r.run s fun t => (sequence rs).run t k := by
  cases rs <;> rfl

lemma run_sequence_append (rs ss : List Regex) (s : Spot) (k : Continuation) :
    (sequence (rs ++ ss)).run s k = (sequence rs).run s fun t => (sequence ss).run t k := by
  induction rs generalizing s with
  | nil => rfl
  | cons r rs ih =>
    rw [List.cons_append, run_sequence_cons, run_sequence_cons]
    simp only [ih]

end

/-! ## Group numbers

Which number a group has matters for nothing that is taken. -/

/-- A pattern with the number zero for all its groups. -/
def unnumbered : Regex → Regex
  | .capture _ r => .capture 0 r.unnumbered
  | .seq r₁ r₂ => .seq r₁.unnumbered r₂.unnumbered
  | .alt r₁ r₂ => .alt r₁.unnumbered r₂.unnumbered
  | .repeated greed least most r => .repeated greed least most r.unnumbered
  | r => r

lemma takes_unnumbered (r : Regex) : r.unnumbered.Takes = r.Takes := by
  induction r with
  | repeated greed least most r ih => cases greed <;> simp only [unnumbered, Takes, ih]
  | _ => simp only [unnumbered, Takes, *]

lemma isPlain_unnumbered (r : Regex) : r.unnumbered.IsPlain ↔ r.IsPlain := by
  induction r with
  | repeated greed least most r ih => cases greed <;> simp only [unnumbered, IsPlain, ih]
  | _ => simp only [unnumbered, IsPlain, *]

lemma unnumbered_sequence (rs : List Regex) :
    (sequence rs).unnumbered = sequence (rs.map unnumbered) := by
  induction rs with
  | nil => rfl
  | cons r rs ih =>
    cases rs with
    | nil => rfl
    | cons r' rs => exact congrArg (seq r.unnumbered) ih

lemma eq_anchor {r : Regex} {a : Anchor} (h : r.unnumbered = .anchor a) : r = .anchor a := by
  cases r with
  | anchor b => exact h
  | _ => cases h

/-- What stands between two anchors. -/
lemma exists_between {a b : Anchor} {rs ss : List Regex}
    (h : rs.map unnumbered = .anchor a :: (ss ++ [.anchor b])) :
    ∃ ts, rs = .anchor a :: (ts ++ [.anchor b]) ∧ (sequence ts).Takes = (sequence ss).Takes := by
  obtain ⟨first, rest, rfl, hfirst, hrest⟩ := List.map_eq_cons_iff.mp h
  obtain ⟨ts, last, rfl, hts, hlast⟩ := List.map_eq_append_iff.mp hrest
  obtain ⟨r, rs, rfl, hr, hrs⟩ := List.map_eq_cons_iff.mp hlast
  rw [List.map_eq_nil_iff.mp hrs, eq_anchor hfirst, eq_anchor hr]
  refine ⟨ts, rfl, ?_⟩
  rw [← takes_unnumbered, unnumbered_sequence, hts]

/-! ## Positions -/

namespace Spot

/-- A spot lies behind a text that starts at another; what groups have matched does not matter. -/
structure Behind (s : Spot) (u : List Char) (t : Spot) : Prop where
  before : t.before = u.reverse ++ s.before
  after : s.after = u ++ t.after

variable {s t t' : Spot} {u v : List Char}

lemma Behind.refl (s : Spot) : s.Behind [] s := ⟨rfl, rfl⟩

lemma Behind.trans (h : s.Behind u t) (h' : t.Behind v t') : s.Behind (u ++ v) t' :=
  ⟨by rw [h'.before, h.before, List.reverse_append, List.append_assoc],
    by rw [h.after, h'.after, List.append_assoc]⟩

lemma Behind.length_lt (h : s.Behind u t) (hu : u ≠ []) : t.after.length < s.after.length := by
  rw [h.after, List.length_append]
  exact Nat.lt_add_of_pos_left (List.length_pos_iff.mpr hu)

lemma Behind.isPrefix_of_append (h : s.Behind u t) (hv : u ++ v <+: s.after) : v <+: t.after := by
  rw [h.after] at hv
  exact (List.prefix_append_right_inj u).mp hv

lemma Behind.textTo (h : s.Behind u t) : s.textTo t = u := by
  rw [Spot.textTo, h.after, List.length_append, Nat.add_sub_cancel]
  exact List.take_left' rfl

/-- The texts of groups, latest first. -/
abbrev Record := List (ℕ × List Char)

/-- A spot lies behind a text that starts at another, and groups have been recorded on the way. -/
structure Reaches (s : Spot) (u : List Char) (record : Record) (t : Spot) : Prop
    extends s.Behind u t where
  groups : t.groups = record ++ s.groups

variable {record record' : Record}

lemma Reaches.refl (s : Spot) : s.Reaches [] [] s := ⟨.refl s, rfl⟩

lemma Reaches.trans (h : s.Reaches u record t) (h' : t.Reaches v record' t') :
    s.Reaches (u ++ v) (record' ++ record) t' :=
  ⟨h.toBehind.trans h'.toBehind, by rw [h'.groups, h.groups, List.append_assoc]⟩

end Spot

/-! ## What is taken is found -/

/-- A runner succeeds at each text of `L`, if what follows succeeds behind it. -/
def Runner.Finds (body : Runner) (L : List Char → Prop) : Prop :=
  ∀ {u : List Char} {s : Spot} {k : Continuation}, L u → u <+: s.after →
    (∀ t, s.Behind u t → (k t).isSome) → (body s k).isSome

section

variable {body : Runner} {L : List Char → Prop} {s : Spot} {k : Continuation} {u : List Char}

lemma Runner.Finds.exactly (h : body.Finds L) (n : ℕ) :
    Runner.Finds (exactly body n) (Rounds L n) := by
  induction n with
  | zero =>
    intro u s k hu _ hk
    subst hu
    exact hk s (.refl s)
  | succ n ih =>
    intro u s k hu hlead hk
    obtain ⟨v, w, rfl, hv, hw⟩ := hu
    refine h hv ((List.prefix_append v w).trans hlead) fun t ht => ?_
    exact ih hw (ht.isPrefix_of_append hlead) fun t' ht' => hk t' (ht.trans ht')

lemma isSome_orElse (a b : Option Spot) : (a <|> b).isSome = (a.isSome || b.isSome) := by
  cases a <;> rfl

lemma isSome_many_of_isSome {most : Option ℕ} (h : (k s).isSome) :
    (many body k most s).isSome := by
  rw [many]
  split_ifs
  · exact h
  · rw [isSome_orElse, h, Bool.or_true]

lemma Runner.Finds.many (h : body.Finds L) {n : ℕ} {most : Option ℕ} (hn : ∀ m ∈ most, n ≤ m)
    (hu : Rounds L n u) (hlead : u <+: s.after) (hk : ∀ t, s.Behind u t → (k t).isSome) :
    (many body k most s).isSome := by
  induction n generalizing s u most with
  | zero =>
    subst hu
    exact isSome_many_of_isSome (hk s (.refl s))
  | succ n ih =>
    obtain ⟨v, w, rfl, hv, hw⟩ := hu
    by_cases hempty : v = []
    · -- a round that takes nothing can be left out
      subst hempty
      exact ih (fun m hm => Nat.le_of_succ_le (hn m hm)) hw hlead hk
    · have hmost : most ≠ some 0 := fun hzero => by
        have := hn 0 hzero
        omega
      have hround : (body s fun t =>
          if t.after.length < s.after.length then
            Regex.many body k (most.map (· - 1)) t else k t).isSome := by
        refine h hv ((List.prefix_append v w).trans hlead) fun t ht => ?_
        rw [if_pos (ht.length_lt hempty)]
        refine ih (fun m hm => ?_) hw (ht.isPrefix_of_append hlead)
          fun t' ht' => hk t' (ht.trans ht')
        obtain ⟨m', hm', rfl⟩ := Option.map_eq_some_iff.mp hm
        exact Nat.le_sub_one_of_lt (hn m' hm')
      rw [Regex.many, if_neg hmost, isSome_orElse, hround, Bool.true_or]

end

/-- **A text that is taken is found**, if what follows succeeds behind it. -/
theorem run_of_takes (r : Regex) : Runner.Finds r.run r.Takes := by
  induction r with
  | empty =>
    intro u s k hu _ hk
    subst hu
    exact hk s (.refl s)
  | one test =>
    intro u s k hu hlead hk
    obtain ⟨c, rfl, hc⟩ := hu
    obtain ⟨rest, hrest⟩ := hlead
    have hstep : s.step? test = some { s with before := c :: s.before, after := rest } := by
      rw [Spot.step?, ← hrest]
      exact if_pos hc
    rw [run, hstep]
    exact hk _ ⟨rfl, hrest.symm⟩
  | seq r₁ r₂ ih₁ ih₂ =>
    intro u s k hu hlead hk
    obtain ⟨v, w, rfl, hv, hw⟩ := hu
    rw [run]
    refine ih₁ hv ((List.prefix_append v w).trans hlead) fun t ht => ?_
    exact ih₂ hw (ht.isPrefix_of_append hlead) fun t' ht' => hk t' (ht.trans ht')
  | alt r₁ r₂ ih₁ ih₂ =>
    intro u s k hu hlead hk
    rw [run, isSome_orElse, Bool.or_eq_true]
    rcases hu with hu | hu
    · exact Or.inl (ih₁ hu hlead hk)
    · exact Or.inr (ih₂ hu hlead hk)
  | capture i r ih =>
    intro u s k hu hlead hk
    rw [run]
    exact ih hu hlead fun t ht => hk _ ⟨ht.before, ht.after⟩
  | repeated greed least most r ih =>
    intro u s k hu hlead hk
    cases greed with
    | greedy =>
      obtain ⟨v, w, rfl, hv, n, hn, hw⟩ := hu
      rw [run, rounds]
      refine (ih.exactly least) hv ((List.prefix_append v w).trans hlead) fun t ht => ?_
      refine ih.many (fun m hm => ?_) hw (ht.isPrefix_of_append hlead)
        fun t' ht' => hk t' (ht.trans ht')
      obtain ⟨m', hm', rfl⟩ := Option.map_eq_some_iff.mp hm
      exact hn m' hm'
    | lazy => exact hu.elim
    | possessive => exact hu.elim
  | anchor a => intro u s k hu; exact hu.elim
  | reference how index => intro u s k hu; exact hu.elim
  | atomic body _ => intro u s k hu; exact hu.elim
  | ahead negated body _ => intro u s k hu; exact hu.elim
  | behind negated width body _ => intro u s k hu; exact hu.elim
  | ifMatched index yes no _ _ => intro u s k hu; exact hu.elim

/-! ## What is found is taken -/

/-- Some texts, one after the other, with what each of them records. -/
def RecordedRounds (L : List Char → Spot.Record → Prop) : (n : ℕ) → List Char → Spot.Record → Prop
  | 0, u, record => u = [] ∧ record = []
  | n + 1, u, record => ∃ v w first last, u = v ++ w ∧ record = last ++ first ∧ L v first ∧
      RecordedRounds L n w last

/-- **A pattern takes a text and records groups** on the way.  Which of the ways to take it is found
first is left open. -/
def Records : Regex → List Char → Spot.Record → Prop
  | .empty, u, record => u = [] ∧ record = []
  | .one test, u, record => (∃ c, u = [c] ∧ test.accepts c) ∧ record = []
  | .seq r₁ r₂, u, record => ∃ v w first last, u = v ++ w ∧ record = last ++ first ∧
      r₁.Records v first ∧ r₂.Records w last
  | .alt r₁ r₂, u, record => r₁.Records u record ∨ r₂.Records u record
  | .capture i r, u, record => ∃ inner, record = (i, u) :: inner ∧ r.Records u inner
  | .repeated .greedy least most r, u, record => ∃ v w first last, u = v ++ w ∧
      record = last ++ first ∧ RecordedRounds r.Records least v first ∧
      ∃ n, (∀ m ∈ most, n ≤ m - least) ∧ RecordedRounds r.Records n w last
  | _, _, _ => False

lemma RecordedRounds.rounds {L : List Char → Spot.Record → Prop} {M : List Char → Prop}
    (h : ∀ u record, L u record → M u) {n : ℕ} {u : List Char} {record : Spot.Record}
    (hu : RecordedRounds L n u record) : Rounds M n u := by
  induction n generalizing u record with
  | zero => exact hu.1
  | succ n ih =>
    obtain ⟨v, w, first, last, hvw, -, hv, hw⟩ := hu
    exact ⟨v, w, hvw, h v first hv, ih hw⟩

/-- What is recorded on the way does not matter for what is taken. -/
theorem Records.takes {r : Regex} {u : List Char} {record : Spot.Record} (h : r.Records u record) :
    r.Takes u := by
  induction r generalizing u record with
  | empty => exact h.1
  | one test => exact h.1
  | seq r₁ r₂ ih₁ ih₂ =>
    obtain ⟨v, w, first, last, hvw, -, hv, hw⟩ := h
    exact ⟨v, w, hvw, ih₁ hv, ih₂ hw⟩
  | alt r₁ r₂ ih₁ ih₂ => exact h.imp ih₁ ih₂
  | capture i r ih =>
    obtain ⟨inner, -, hr⟩ := h
    exact ih hr
  | repeated greed least most r ih =>
    cases greed with
    | greedy =>
      obtain ⟨v, w, first, last, hvw, -, hv, n, hn, hw⟩ := h
      have hrounds : ∀ {n u record}, RecordedRounds r.Records n u record → Rounds r.Takes n u :=
        fun hu => hu.rounds (M := r.Takes) fun _ _ => ih
      exact ⟨v, w, hvw, hrounds hv, n, hn, hrounds hw⟩
    | lazy => exact h.elim
    | possessive => exact h.elim
  | anchor a => exact h.elim
  | reference how index => exact h.elim
  | atomic body _ => exact h.elim
  | ahead negated body _ => exact h.elim
  | behind negated width body _ => exact h.elim
  | ifMatched index yes no _ _ => exact h.elim

/-- A runner that succeeds has found a text of `L`, and what follows has succeeded behind it. -/
def Runner.Tells (body : Runner) (L : List Char → Spot.Record → Prop) : Prop :=
  ∀ {s e : Spot} {k : Continuation}, body s k = some e →
    ∃ u record t, L u record ∧ s.Reaches u record t ∧ k t = some e

section

variable {body : Runner} {L : List Char → Spot.Record → Prop} {s e : Spot} {k : Continuation}

lemma Runner.Tells.exactly (h : body.Tells L) (n : ℕ) :
    Runner.Tells (exactly body n) (RecordedRounds L n) := by
  induction n with
  | zero => exact fun {s e k} hk => ⟨[], [], s, ⟨rfl, rfl⟩, .refl s, hk⟩
  | succ n ih =>
    intro s e k hrun
    obtain ⟨v, first, t, hv, hst, hrest⟩ := h hrun
    obtain ⟨w, last, t', hw, htt', hk⟩ := ih hrest
    exact ⟨v ++ w, last ++ first, t', ⟨v, w, first, last, rfl, rfl, hv, hw⟩, hst.trans htt', hk⟩

lemma orElse_eq_some {a b : Option Spot} (h : (a <|> b) = some e) : a = some e ∨ b = some e := by
  cases a with
  | none => exact Or.inr h
  | some a => exact Or.inl h

lemma Runner.Tells.many (h : body.Tells L) {most : Option ℕ}
    (hrun : many body k most s = some e) :
    ∃ u record t n, (∀ m ∈ most, n ≤ m) ∧ RecordedRounds L n u record ∧ s.Reaches u record t ∧
      k t = some e := by
  generalize hlength : s.after.length = length
  induction length using Nat.strongRecOn generalizing s most with
  | ind length ih =>
    have hnone : k s = some e → ∃ u record t n, (∀ m ∈ most, n ≤ m) ∧ RecordedRounds L n u record ∧
        s.Reaches u record t ∧ k t = some e :=
      fun hk => ⟨[], [], s, 0, fun _ _ => Nat.zero_le _, ⟨rfl, rfl⟩, .refl s, hk⟩
    rw [Regex.many] at hrun
    split_ifs at hrun with hmost
    · exact hnone hrun
    · rcases orElse_eq_some hrun with hrun | hrun
      · obtain ⟨v, first, t, hv, hst, hrest⟩ := h hrun
        have hpos : ∀ m ∈ most, 0 < m := fun m hm =>
          Nat.pos_of_ne_zero fun hzero => hmost (hzero ▸ hm)
        split_ifs at hrest with hless
        · obtain ⟨w, last, t', n, hn, hw, htt', hk⟩ :=
            ih t.after.length (hlength ▸ hless) hrest rfl
          refine ⟨v ++ w, last ++ first, t', n + 1, fun m hm => ?_,
            ⟨v, w, first, last, rfl, rfl, hv, hw⟩, hst.trans htt', hk⟩
          have := hn (m - 1) (Option.mem_map_of_mem (· - 1) hm)
          have := hpos m hm
          omega
        · exact ⟨v, first, t, 1, hpos,
            ⟨v, [], first, [], (List.append_nil v).symm, rfl, hv, rfl, rfl⟩, hst, hrest⟩
      · exact hnone hrun

end

/-- **What a plain pattern has found is a text that it takes**, with the groups that it records. -/
theorem records_of_run {r : Regex} (hr : r.IsPlain) : Runner.Tells r.run r.Records := by
  induction r with
  | empty => exact fun {s e k} hk => ⟨[], [], s, ⟨rfl, rfl⟩, .refl s, hk⟩
  | one test =>
    intro s e k hrun
    rw [run, Spot.step?] at hrun
    cases hafter : s.after with
    | nil =>
      rw [hafter] at hrun
      cases hrun
    | cons c rest =>
      rw [hafter] at hrun
      simp only at hrun
      split_ifs at hrun with hc
      · exact ⟨[c], [], { s with before := c :: s.before, after := rest }, ⟨⟨c, rfl, hc⟩, rfl⟩,
          ⟨⟨rfl, hafter⟩, rfl⟩, hrun⟩
      · cases hrun
  | seq r₁ r₂ ih₁ ih₂ =>
    intro s e k hrun
    obtain ⟨v, first, t, hv, hst, hrest⟩ := ih₁ hr.1 hrun
    obtain ⟨w, last, t', hw, htt', hk⟩ := ih₂ hr.2 hrest
    exact ⟨v ++ w, last ++ first, t', ⟨v, w, first, last, rfl, rfl, hv, hw⟩, hst.trans htt', hk⟩
  | alt r₁ r₂ ih₁ ih₂ =>
    intro s e k hrun
    rcases orElse_eq_some hrun with hrun | hrun
    · obtain ⟨u, record, t, hu, hst, hk⟩ := ih₁ hr.1 hrun
      exact ⟨u, record, t, Or.inl hu, hst, hk⟩
    · obtain ⟨u, record, t, hu, hst, hk⟩ := ih₂ hr.2 hrun
      exact ⟨u, record, t, Or.inr hu, hst, hk⟩
  | capture i r ih =>
    intro s e k hrun
    obtain ⟨u, inner, t, hu, hst, hk⟩ := ih hr hrun
    rw [hst.textTo] at hk
    exact ⟨u, (i, u) :: inner, { t with groups := (i, u) :: t.groups }, ⟨inner, rfl, hu⟩,
      ⟨⟨hst.before, hst.after⟩, congrArg ((i, u) :: ·) hst.groups⟩, hk⟩
  | repeated greed least most r ih =>
    intro s e k hrun
    cases greed with
    | greedy =>
      have hbody : Runner.Tells r.run r.Records := ih hr
      obtain ⟨v, first, t, hv, hst, hrest⟩ := hbody.exactly least hrun
      obtain ⟨w, last, t', n, hn, hw, htt', hk⟩ := hbody.many hrest
      refine ⟨v ++ w, last ++ first, t',
        ⟨v, w, first, last, rfl, rfl, hv, n, fun m hm => ?_, hw⟩, hst.trans htt', hk⟩
      exact hn _ (Option.mem_map_of_mem (· - least) hm)
    | lazy => exact hr.elim
    | possessive => exact hr.elim
  | anchor a => exact hr.elim
  | reference how index => exact hr.elim
  | atomic body _ => exact hr.elim
  | ahead negated body _ => exact hr.elim
  | behind negated width body _ => exact hr.elim
  | ifMatched index yes no _ _ => exact hr.elim

/-- **The texts that a plain pattern matches from end to end** are those that it takes. -/
theorem matchesAll_iff {r : Regex} (hr : r.IsPlain) (text : List Char) :
    r.matchesAll text ↔ r.Takes text := by
  rw [matchesAll, matchAll?]
  constructor
  · intro h
    obtain ⟨e, he⟩ := Option.isSome_iff_exists.mp h
    obtain ⟨u, record, t, hu, hbehind, hend⟩ := records_of_run hr he
    have hafter : t.after = [] := by
      split_ifs at hend with hempty
      exact List.isEmpty_iff.mp hempty
    have htext : text = u := by
      have := hbehind.after
      rwa [hafter, List.append_nil] at this
    rw [htext]
    exact hu.takes
  · intro h
    refine run_of_takes r h (List.prefix_refl text) fun t hbehind => ?_
    have hafter : t.after = [] := by
      exact List.append_cancel_left (hbehind.after.symm.trans (List.append_nil text).symm)
    rw [hafter]
    rfl

end Regex

end PathExpansion
