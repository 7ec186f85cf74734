import PathExpansion.Pattern
import PathExpansion.Proofs.Regex.Language

/-!
# What the groups of a pattern match

A pattern between the two ends of a text matches the whole text or nothing, and the texts of its
groups are those that are recorded when it takes the text.

* `Regex.captures` — the groups of a pattern, from left to right.
* **`Pattern.exists_records`** — a match of a pattern between the ends of the text.
-/

namespace PathExpansion

namespace Regex

/-- The groups of a pattern in the order in which they open, each with its number and the pattern in
it. -/
def captures : Regex → List (ℕ × Regex)
  | .capture i r => (i, r) :: r.captures
  | .seq r₁ r₂ | .alt r₁ r₂ | .ifMatched _ r₁ r₂ => r₁.captures ++ r₂.captures
  | .repeated _ _ _ r | .atomic r | .ahead _ r | .behind _ _ r => r.captures
  | .empty | .one _ | .anchor _ | .reference _ _ => []

lemma captures_sequence (rs : List Regex) : (sequence rs).captures = rs.flatMap captures := by
  induction rs with
  | nil => rfl
  | cons r rs ih =>
    cases rs with
    | nil => exact (List.flatMap_singleton captures r).symm
    | cons r' rs =>
      rw [List.flatMap_cons, ← ih]
      rfl

lemma RecordedRounds.eq_nil {L : List Char → Spot.Record → Prop}
    (h : ∀ u record, L u record → record = []) {n : ℕ} {u : List Char} {record : Spot.Record}
    (hu : RecordedRounds L n u record) : record = [] := by
  induction n generalizing u record with
  | zero => exact hu.2
  | succ n ih =>
    obtain ⟨v, w, first, last, -, rfl, hv, hw⟩ := hu
    rw [h v first hv, ih hw, List.append_nil]

/-- A pattern without groups records nothing. -/
lemma Records.eq_nil {r : Regex} {u : List Char} {record : Spot.Record} (h : r.Records u record)
    (hr : r.captures = []) : record = [] := by
  induction r generalizing u record with
  | empty => exact h.2
  | one test => exact h.2
  | seq r₁ r₂ ih₁ ih₂ =>
    obtain ⟨hr₁, hr₂⟩ := List.append_eq_nil_iff.mp hr
    obtain ⟨v, w, first, last, -, rfl, hv, hw⟩ := h
    rw [ih₁ hv hr₁, ih₂ hw hr₂, List.append_nil]
  | alt r₁ r₂ ih₁ ih₂ =>
    obtain ⟨hr₁, hr₂⟩ := List.append_eq_nil_iff.mp hr
    exact h.elim (ih₁ · hr₁) (ih₂ · hr₂)
  | capture i r _ => cases hr
  | repeated greed least most r ih =>
    cases greed with
    | greedy =>
      obtain ⟨v, w, first, last, -, rfl, hv, n, -, hw⟩ := h
      rw [hv.eq_nil fun _ _ h => ih h hr, hw.eq_nil fun _ _ h => ih h hr, List.append_nil]
    | lazy => exact h.elim
    | possessive => exact h.elim
  | anchor a => exact h.elim
  | reference how index => exact h.elim
  | atomic body _ => exact h.elim
  | ahead negated body _ => exact h.elim
  | behind negated width body _ => exact h.elim
  | ifMatched index yes no _ _ => exact h.elim

section

variable {rs : List Regex} {r : Regex} {u : List Char} {record : Spot.Record}

lemma exists_of_records_cons (h : (sequence (r :: rs)).Records u record) :
    ∃ v w first last, u = v ++ w ∧ record = last ++ first ∧ r.Records v first ∧
      (sequence rs).Records w last := by
  cases rs with
  | nil => exact ⟨u, [], record, [], (List.append_nil u).symm, rfl, h, rfl, rfl⟩
  | cons r' rs => exact h

/-! ## Between the ends of a text -/

/-- The start of a text is nowhere else. -/
lemma findFrom_textStart {before : List Char} (hbefore : before ≠ []) (after : List Char) :
    (sequence (.anchor .textStart :: rs)).findFrom before after = none := by
  have hrun : ∀ {before : List Char}, before ≠ [] → ∀ after,
      (sequence (.anchor .textStart :: rs)).run ⟨before, after, []⟩ some = none := by
    intro before hbefore after
    rw [run_sequence_cons, run, if_neg]
    simpa [Anchor.holdsAt] using hbefore
  induction after generalizing before with
  | nil => rw [findFrom, hrun hbefore, Option.map_none]
  | cons c rest ih =>
    rw [findFrom, hrun hbefore]
    exact ih (List.cons_ne_nil c before)

lemma find?_textStart (text : List Char) :
    (sequence (.anchor .textStart :: rs)).find? text
      = ((sequence rs).run (.start text) some).map (Spot.start text, ·) := by
  have hrun : (sequence (.anchor .textStart :: rs)).run (.start text) some
      = (sequence rs).run (.start text) some := by
    rw [run_sequence_cons, run]
    rfl
  rw [find?]
  cases text with
  | nil =>
    rw [findFrom, ← hrun]
    rfl
  | cons c rest =>
    rw [findFrom, ← hrun, Spot.start]
    cases (sequence (.anchor .textStart :: rs)).run ⟨[], c :: rest, []⟩ some with
    | none => exact findFrom_textStart (List.cons_ne_nil c []) rest
    | some e => rfl

/-- A pattern between the ends of a text takes all of it. -/
lemma exists_records_of_run (hplain : (sequence rs).IsPlain) {text : List Char} {e : Spot}
    (h : (sequence (rs ++ [.anchor .textEnd])).run (.start text) some = some e) :
    (sequence rs).Records text e.groups ∧ e.after = [] := by
  rw [run_sequence_append] at h
  obtain ⟨u, record, t, hu, hreach, hend⟩ := records_of_run hplain h
  rw [sequence, run] at hend
  split_ifs at hend with hat
  have hafter : t.after = [] := List.isEmpty_iff.mp hat
  have htext : text = u := by
    have hwhole := hreach.after
    rwa [hafter, List.append_nil] at hwhole
  have hgroups : t.groups = record := hreach.groups.trans (List.append_nil record)
  rw [← Option.some.inj hend, htext, hgroups]
  exact ⟨hu, hafter⟩

end

end Regex

/-- **A match of a pattern between the ends of the text** is the whole text, and its groups are
those that are recorded when the pattern takes the text. -/
theorem Pattern.exists_records {p : Pattern} {rs : List Regex}
    (hp : p.regex = Regex.sequence (.anchor .textStart :: (rs ++ [.anchor .textEnd])))
    (hplain : (Regex.sequence rs).IsPlain) {text : String} (h : p.finds text) :
    ∃ record, (Regex.sequence rs).Records text.toList record ∧
      p.search? text = some ⟨text, (List.range p.groups).map fun i =>
        (record.lookup (i + 1)).map String.ofList⟩ := by
  rw [finds, hp, Regex.find?_textStart, Option.isSome_map] at h
  obtain ⟨e, he⟩ := Option.isSome_iff_exists.mp h
  obtain ⟨hrecords, hafter⟩ := Regex.exists_records_of_run hplain he
  refine ⟨e.groups, hrecords, ?_⟩
  rw [search?, hp, Regex.find?_textStart, he, Option.map_some, Option.map_some, matchBetween,
    Regex.Spot.textTo, hafter, List.length_nil, Nat.sub_zero]
  simp only [Regex.Spot.start, List.take_length, String.ofList_toList]
  rfl

end PathExpansion
