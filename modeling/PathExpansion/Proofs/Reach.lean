import PathExpansion.Proofs.Divisions
import PathExpansion.Proofs.Tree.Plain

/-!
# Where components lead

In a tree without links, going down by components can be said in terms of places alone: by a name or
a glob to the entries that it takes, by an ellipsis to any place below.  A place is reached as often
as the names that lead there can be divided among the components.

* `Tree.reach` — the places that are reached.
* `Tree.IsPlain.reach_ellipsis` — an ellipsis, one level at a time.
* **`Tree.IsPlain.count_reach`** — how often a place is reached.
-/

namespace PathExpansion

namespace Tree

/-- The places that components lead to from a place on, each as often as they do. -/
def reach (t : Tree) : List Component → Place → List Place
  | [], p => [p]
  | .ellipsis :: rest, p => (t.below p).flatMap (reach t rest)
  | c :: rest, p =>
    ((t.names p).filter fun name => c.takes [name]).flatMap fun name => reach t rest (name :: p)

variable {t : Tree} {p q : Place} {c : Component} {rest components : List Component}

lemma reach_cons (hc : c.isEllipsis = false) (p : Place) :
    t.reach (c :: rest) p
      = ((t.names p).filter fun name => c.takes [name]).flatMap fun name =>
          t.reach rest (name :: p) := by
  cases c with
  | ellipsis => cases hc
  | _ => rfl

/-- A name leads to the entry of that name, if there is one. -/
lemma IsPlain.reach_literal (ht : t.IsPlain) (name : String) (descent : Bool) :
    t.reach (.literal name descent :: rest) p
      = if (t.node? (name :: p)).isSome then t.reach rest (name :: p) else [] := by
  have htakes : (fun other => (Component.literal name descent).takes [other]) = (· == name) := by
    funext other
    simp [Component.takes]
  rw [reach_cons rfl, htakes, List.filter_beq, ht.isRooted.nodup_names.count]
  simp only [mem_names]
  split_ifs
  · exact List.flatMap_singleton _ name
  · rfl

/-- **An ellipsis, one level at a time**: what remains is reached here, and from every entry on
behind another ellipsis. -/
lemma IsPlain.reach_ellipsis (ht : t.IsPlain) (rest : List Component) (h : (t.node? p).isSome) :
    (t.reach (.ellipsis :: rest) p).Perm
      (t.reach rest p ++
        (t.names p).flatMap fun name => t.reach (.ellipsis :: rest) (name :: p)) := by
  have hperm := (ht.isRooted.below_perm h).flatMap_right (t.reach rest)
  rwa [List.flatMap_cons, List.flatMap_assoc] at hperm

/-- What is reached exists, and is below. -/
lemma mem_reach (h : (t.node? p).isSome) (hq : q ∈ t.reach components p) :
    (t.node? q).isSome ∧ p <:+ q := by
  induction components generalizing p with
  | nil =>
    rw [reach, List.mem_singleton] at hq
    rw [hq]
    exact ⟨h, List.suffix_rfl⟩
  | cons c rest ih =>
    cases hc : c.isEllipsis with
    | true =>
      rw [Component.eq_ellipsis hc, reach, List.mem_flatMap] at hq
      obtain ⟨q', hq', hq⟩ := hq
      obtain ⟨hsome, hsuffix⟩ := mem_below.mp hq'
      obtain ⟨hnode, hbelow⟩ := ih hsome hq
      exact ⟨hnode, hsuffix.trans hbelow⟩
    | false =>
      rw [reach_cons hc, List.mem_flatMap] at hq
      obtain ⟨name, hname, hq⟩ := hq
      obtain ⟨hnode, hbelow⟩ := ih (mem_names.mp (List.mem_of_mem_filter hname)) hq
      exact ⟨hnode, (List.suffix_cons name p).trans hbelow⟩

/-- Inside a file nothing is reached. -/
lemma IsPlain.reach_eq_nil (ht : t.IsPlain) (hp : (t.node? p).isSome)
    (hdir : t.isDirectoryAt p = false) (hdeep : needsDirectory components) :
    t.reach components p = [] := by
  induction components with
  | nil => cases hdeep
  | cons c rest ih =>
    have hnames := ht.isRooted.names_eq_nil hdir
    cases hc : c.isEllipsis with
    | true =>
      rw [Component.eq_ellipsis hc, needsDirectory, List.any_cons] at hdeep
      have hperm := ht.reach_ellipsis rest hp
      rw [ih hdeep, hnames] at hperm
      rw [Component.eq_ellipsis hc]
      exact hperm.eq_nil
    | false =>
      rw [reach_cons hc, hnames]
      rfl

/-! ## How often -/

section

variable {names : List String}

/-- Going down by entries does not lead back. -/
lemma count_flatMap_self (hnames : ∀ name ∈ names, name ∈ t.names p) :
    (names.flatMap fun name => t.reach components (name :: p)).count p = 0 := by
  refine List.count_eq_zero_of_not_mem fun hp => ?_
  obtain ⟨name, hname, hp⟩ := List.mem_flatMap.mp hp
  have hle := (mem_reach (mem_names.mp (hnames name hname)) hp).2.length_le
  simp at hle

/-- Just one entry leads to a place. -/
lemma count_flatMap_entries {name : String} (hname : name :: p <:+ q) (hnodup : names.Nodup)
    (hnames : ∀ name ∈ names, name ∈ t.names p) :
    (names.flatMap fun name => t.reach components (name :: p)).count q
      = if name ∈ names then (t.reach components (name :: p)).count q else 0 := by
  induction names with
  | nil => rfl
  | cons other names ih =>
    rw [List.nodup_cons] at hnodup
    rw [List.forall_mem_cons] at hnames
    rw [List.flatMap_cons, List.count_append, ih hnodup.2 hnames.2]
    by_cases hother : other = name
    · subst hother
      rw [if_neg hnodup.1, if_pos List.mem_cons_self, Nat.add_zero]
    · have hnone : (t.reach components (other :: p)).count q = 0 := by
        refine List.count_eq_zero_of_not_mem fun hq => hother ?_
        exact eq_of_suffix (mem_reach (mem_names.mp hnames.1) hq).2 hname
      rw [hnone, Nat.zero_add]
      simp [Ne.symm hother]

end

/-- **A place is reached as often as its names can be divided among the components.** -/
theorem IsPlain.count_reach (ht : t.IsPlain) (components : List Component) (names : List String)
    (h : (t.node? (names.reverse ++ p)).isSome) :
    (t.reach components p).count (names.reverse ++ p) = (divisions components names).length := by
  induction components generalizing names p with
  | nil =>
    rw [reach, divisions]
    cases names with
    | nil => simp
    | cons name names =>
      rw [if_neg (List.cons_ne_nil name names)]
      refine List.count_eq_zero_of_not_mem fun hmem => ?_
      have hlength := congrArg List.length (List.mem_singleton.mp hmem)
      rw [List.length_append, List.length_reverse, List.length_cons] at hlength
      omega
  | cons c rest ih =>
    cases hc : c.isEllipsis with
    | true =>
      obtain rfl := Component.eq_ellipsis hc
      -- the induction goes down by the names
      induction names generalizing p with
      | nil =>
        have hperm := ht.reach_ellipsis (p := p) rest h
        rw [List.reverse_nil, List.nil_append] at h ⊢
        rw [hperm.count_eq, List.count_append, count_flatMap_self fun _ hname => hname,
          Nat.add_zero, length_divisions_ellipsis_nil]
        exact ih [] h
      | cons name names ihNames =>
        have hplace : (name :: names).reverse ++ p = names.reverse ++ name :: p := by simp
        have hsuffix : name :: p <:+ (name :: names).reverse ++ p := by
          rw [hplace]
          exact List.suffix_append _ _
        have hentry := ht.isRooted.isSome_of_suffix h hsuffix
        have hp := ht.isRooted.isSome_of_suffix h (List.suffix_append _ _)
        rw [(ht.reach_ellipsis rest hp).count_eq, List.count_append,
          count_flatMap_entries hsuffix ht.isRooted.nodup_names fun _ hname => hname,
          if_pos (mem_names.mpr hentry), ih (name :: names) h, length_divisions_ellipsis_cons,
          hplace, ihNames (hplace ▸ h)]
    | false =>
      rw [reach_cons hc]
      cases names with
      | nil =>
        rw [divisions_cons_nil hc]
        exact count_flatMap_self fun _ hname => List.mem_of_mem_filter hname
      | cons name names =>
        have hplace : (name :: names).reverse ++ p = names.reverse ++ name :: p := by simp
        have hsuffix : name :: p <:+ (name :: names).reverse ++ p := by
          rw [hplace]
          exact List.suffix_append _ _
        have hentry := ht.isRooted.isSome_of_suffix h hsuffix
        rw [count_flatMap_entries hsuffix (ht.isRooted.nodup_names.filter _)
          fun _ hname => List.mem_of_mem_filter hname, length_divisions_cons hc]
        simp only [List.mem_filter, mem_names.mpr hentry, true_and]
        split_ifs
        · rw [hplace]
          exact ih names (hplace ▸ h)
        · rfl

end Tree

end PathExpansion
