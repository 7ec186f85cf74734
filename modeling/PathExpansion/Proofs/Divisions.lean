import Mathlib.Data.List.Nodup
import Mathlib.Data.Set.Card
import PathExpansion.PathSpec.Component

/-!
# Names divided among components

What a path means can be said without walking.  The names that lead to a place are divided among the
components, in order: a name takes itself, a glob one name that it matches, and an ellipsis any
number of names.

* `Component.takes`, **`IsDivision`** — the meaning.
* `divisions` — all divisions, each once (`mem_divisions`, `nodup_divisions`).
* `length_divisions_cons`, `length_divisions_ellipsis_cons` — how many there are.
-/

namespace PathExpansion

/-- The component stands for the names. -/
def Component.takes : Component → List String → Bool
  | .literal name _, names => names == [name]
  | .wildcard w, [name] => w.accepts name
  | .wildcard _, _ => false
  | .ellipsis, _ => true

/-- **A division of names among components**: one share for each component, in order, that it stands
for. -/
structure IsDivision (components : List Component) (names : List String)
    (shares : List (List String)) : Prop where
  taken : List.Forall₂ (fun c share => c.takes share) components shares
  whole : shares.flatten = names

/-- All divisions of names among components. -/
def divisions : List Component → List String → List (List (List String))
  | [], names => if names = [] then [[]] else []
  | .ellipsis :: rest, names =>
    (List.range (names.length + 1)).flatMap fun i =>
      (divisions rest (names.drop i)).map (names.take i :: ·)
  | _ :: _, [] => []
  | c :: rest, name :: names =>
    if c.takes [name] then (divisions rest names).map ([name] :: ·) else []

section

variable {c : Component} {rest : List Component}

/-- What is no ellipsis stands for one name. -/
lemma Component.exists_of_takes (hc : c.isEllipsis = false) {share : List String}
    (h : c.takes share) : ∃ name, share = [name] := by
  cases c with
  | literal name descent => exact ⟨name, beq_iff_eq.mp h⟩
  | wildcard w =>
    match share with
    | [name] => exact ⟨name, rfl⟩
    | [] => cases h
    | _ :: _ :: _ => cases h
  | ellipsis => cases hc

lemma divisions_cons_nil (hc : c.isEllipsis = false) : divisions (c :: rest) [] = [] := by
  cases c with
  | ellipsis => cases hc
  | _ => rfl

lemma divisions_cons_cons (hc : c.isEllipsis = false) (name : String) (names : List String) :
    divisions (c :: rest) (name :: names)
      = if c.takes [name] then (divisions rest names).map ([name] :: ·) else [] := by
  cases c with
  | ellipsis => cases hc
  | _ => rfl

lemma mem_divisions_ellipsis {names : List String} {shares : List (List String)} :
    shares ∈ divisions (.ellipsis :: rest) names
      ↔ ∃ i ≤ names.length, ∃ tail ∈ divisions rest (names.drop i),
          names.take i :: tail = shares := by
  rw [divisions, List.mem_flatMap]
  simp only [List.mem_range, List.mem_map, Nat.lt_succ_iff]

/-- **The list of divisions has all of them.** -/
theorem mem_divisions {components : List Component} {names : List String}
    {shares : List (List String)} :
    shares ∈ divisions components names ↔ IsDivision components names shares := by
  induction components generalizing names shares with
  | nil =>
    rw [divisions]
    constructor
    · intro h
      split_ifs at h with hnames
      · rw [List.mem_singleton.mp h, hnames]
        exact ⟨.nil, rfl⟩
      · cases h
    · rintro ⟨hshares, hnames⟩
      cases hshares
      rw [← hnames]
      exact List.mem_singleton.mpr rfl
  | cons c rest ih =>
    cases hc : c.isEllipsis with
    | true =>
      obtain rfl := Component.eq_ellipsis hc
      rw [mem_divisions_ellipsis]
      constructor
      · rintro ⟨i, _, tail, htail, rfl⟩
        obtain ⟨hshares, hnames⟩ := ih.mp htail
        exact ⟨.cons rfl hshares, by rw [List.flatten_cons, hnames, List.take_append_drop]⟩
      · rintro ⟨hshares, hnames⟩
        cases hshares with
        | @cons _ share _ tail _ htail =>
        rw [List.flatten_cons] at hnames
        refine ⟨share.length, ?_, tail, ih.mpr ⟨htail, ?_⟩, ?_⟩
        · rw [← hnames, List.length_append]
          exact Nat.le_add_right _ _
        · rw [← hnames, List.drop_left]
        · rw [← hnames, List.take_left]
    | false =>
      constructor
      · intro h
        cases names with
        | nil =>
          rw [divisions_cons_nil hc] at h
          cases h
        | cons name names =>
          rw [divisions_cons_cons hc] at h
          split_ifs at h with htakes
          · obtain ⟨tail, htail, rfl⟩ := List.mem_map.mp h
            obtain ⟨hshares, hnames⟩ := ih.mp htail
            exact ⟨.cons htakes hshares, by rw [List.flatten_cons, hnames, List.singleton_append]⟩
          · cases h
      · rintro ⟨hshares, hnames⟩
        cases hshares with
        | @cons _ share _ tail htakes htail =>
        obtain ⟨name, rfl⟩ := Component.exists_of_takes hc htakes
        rw [List.flatten_cons, List.singleton_append] at hnames
        rw [← hnames, divisions_cons_cons hc, if_pos htakes]
        exact List.mem_map_of_mem (ih.mpr ⟨htail, rfl⟩)

/-- **The list of divisions has each only once.** -/
theorem nodup_divisions (components : List Component) (names : List String) :
    (divisions components names).Nodup := by
  have hcons : ∀ {share : List String} {ds : List (List (List String))}, ds.Nodup →
      (ds.map (share :: ·)).Nodup := fun h => h.map (List.cons_injective)
  induction components generalizing names with
  | nil =>
    rw [divisions]
    split_ifs <;> simp
  | cons c rest ih =>
    cases hc : c.isEllipsis with
    | true =>
      obtain rfl := Component.eq_ellipsis hc
      rw [divisions, List.nodup_flatMap]
      refine ⟨fun i _ => hcons (ih _), ?_⟩
      refine List.Pairwise.imp_of_mem ?_ List.pairwise_lt_range
      intro i j hi hj hless shares hshares hshares'
      obtain ⟨tail, _, rfl⟩ := List.mem_map.mp hshares
      obtain ⟨tail', _, heq⟩ := List.mem_map.mp hshares'
      have hlength := congrArg List.length (List.cons.inj heq).1
      rw [List.length_take, List.length_take] at hlength
      rw [List.mem_range] at hi hj
      omega
    | false =>
      cases names with
      | nil =>
        rw [divisions_cons_nil hc]
        exact List.nodup_nil
      | cons name names =>
        rw [divisions_cons_cons hc]
        split_ifs
        · exact hcons (ih names)
        · exact List.nodup_nil

/-! ## How many there are -/

/-- As many divisions are in the list as there are. -/
lemma encard_divisions (components : List Component) (names : List String) :
    {shares | IsDivision components names shares}.encard = (divisions components names).length := by
  have hset : {shares | IsDivision components names shares}
      = ((divisions components names).toFinset : Set (List (List String))) := by
    ext shares
    rw [Set.mem_ofPred_eq, Finset.mem_coe, List.mem_toFinset, mem_divisions]
  rw [hset, Set.encard_coe_eq_coe_finsetCard, List.toFinset_card_of_nodup (nodup_divisions _ _)]

lemma length_divisions_cons (hc : c.isEllipsis = false) (name : String) (names : List String) :
    (divisions (c :: rest) (name :: names)).length
      = if c.takes [name] then (divisions rest names).length else 0 := by
  rw [divisions_cons_cons hc]
  split_ifs
  · exact List.length_map _
  · rfl

lemma length_divisions_ellipsis_nil :
    (divisions (.ellipsis :: rest) []).length = (divisions rest []).length := by
  simp [divisions]

/-- An ellipsis takes no name, or the first and those that it takes of the others. -/
lemma length_divisions_ellipsis_cons (name : String) (names : List String) :
    (divisions (.ellipsis :: rest) (name :: names)).length
      = (divisions rest (name :: names)).length
        + (divisions (.ellipsis :: rest) names).length := by
  rw [divisions, divisions, List.length_cons, List.range_succ_eq_map, List.flatMap_cons,
    List.length_append, List.flatMap_map]
  simp [List.length_flatMap]

end

end PathExpansion
