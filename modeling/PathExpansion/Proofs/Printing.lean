import PathExpansion.Proofs.Spelling
import PathExpansion.Proofs.Unrolling

/-!
# Printing a specification as a path

A specification is printed as its components with slashes between them, a third slash being added to
every pair.  That is meant to be a path that is split into the same parts again.  It is one as long
as every ellipsis stands between two names.  An ellipsis at either end is printed as a slash that
splitting drops, or takes for the root; of several in a row some get lost, since splitting takes
more slashes away than printing adds; and a dot in front of a slash is dropped.  Whatever gets lost,
the other parts stay as they are.

* `PathSpec.widen_slashes`, `PathSpec.widen_written` — each run of slashes is widened.
* `PathSpec.exists_layout`, `PathSpec.toList_intercalate_layout` — parts as names with ellipses
  behind them, and how they are printed.
* `PathSpec.PrintsBack` — the parts that printing keeps.
* `PathSpec.Respells`, `PathSpec.respells_layout` — what becomes of the other parts.
* **`PathSpec.text_respells_iff`** — a printed path is split into the same parts exactly if these
  print back.
-/

namespace PathExpansion.PathSpec

/-! ## Widening -/

/-- What a run of slashes is widened to: every pair becomes three. -/
def widened (slashes : ℕ) : ℕ := slashes + slashes / 2

lemma widen_cons {c : Char} (hc : c ≠ '/') (rest : List Char) :
    widen (c :: rest) = c :: widen rest := by
  rw [widen]
  exact fun _ h => absurd h hc

/-- **Of a run of slashes every pair becomes three**, and one that is left over stays. -/
lemma widen_slashes {rest : List Char} (h : rest.head? ≠ some '/') (n : ℕ) :
    widen (slashes n ++ rest) = slashes (widened n) ++ widen rest := by
  induction n using Nat.twoStepInduction with
  | zero => rfl
  | one =>
    have hone : widen ('/' :: rest) = '/' :: widen rest := by
      rw [widen]
      rintro rest' - rfl
      exact h rfl
    exact hone
  | more n ih _ =>
    have hwidened : widened (n + 2) = widened n + 3 := by
      unfold widened
      omega
    rw [slashes_succ, slashes_succ, hwidened, slashes_succ, slashes_succ, slashes_succ]
    simp only [List.cons_append, widen, ih]

/-- **Each run of slashes is widened.** -/
lemma widen_written {names : List (String × ℕ)} (h : ∀ n ∈ names, IsName n.1) (leading : ℕ) :
    widen (written leading names)
      = written (widened leading) (names.map fun n => (n.1, widened n.2)) :=
  runs_changed widen_cons rfl widen_slashes h leading

/-! ## Parts between slashes -/

/-- Parts without slashes are ellipses, and names with ellipses behind each. -/
lemma exists_layout {parts : List String} (h : ∀ part ∈ parts, '/' ∉ part.toList) :
    ∃ leading names, (∀ n ∈ names, IsName n.1) ∧
      parts = List.replicate leading "" ++ partsOf id names := by
  induction parts with
  | nil => exact ⟨0, [], List.forall_mem_nil _, rfl⟩
  | cons part parts ih =>
    obtain ⟨hpart, hrest⟩ := List.forall_mem_cons.mp h
    obtain ⟨leading, names, hnames, rfl⟩ := ih hrest
    by_cases hempty : part = ""
    · exact ⟨leading + 1, names, hnames, by rw [hempty]; rfl⟩
    · exact ⟨0, (part, leading) :: names, List.forall_mem_cons.mpr ⟨⟨hempty, hpart⟩, hnames⟩,
        by simp [partsOf]⟩

/-- Ellipses in front are a slash each. -/
lemma toList_intercalate_leading (leading : ℕ) {parts : List String} (h : parts ≠ []) :
    ("/".intercalate (List.replicate leading "" ++ parts)).toList
      = slashes leading ++ ("/".intercalate parts).toList := by
  induction leading with
  | zero => rfl
  | succ n ih =>
    have hrest : List.replicate n "" ++ parts ≠ [] := List.append_ne_nil_of_right_ne_nil _ h
    rw [List.replicate_succ, List.cons_append, String.intercalate_cons_of_ne_nil hrest,
      String.toList_append, ih]
    rfl

/-- Ellipses behind a name are a slash each. -/
lemma toList_intercalate_name (name : String) (ellipses : ℕ) :
    ("/".intercalate (name :: List.replicate ellipses "")).toList
      = name.toList ++ slashes ellipses := by
  induction ellipses with
  | zero => simp
  | succ n ih =>
    rw [List.replicate_succ', ← List.cons_append,
      String.intercalate_append_of_ne_nil (List.cons_ne_nil _ _) (List.cons_ne_nil _ _),
      String.intercalate_singleton, String.append_empty, String.toList_append, ih, slashes, slashes,
      List.replicate_succ', List.append_assoc]
    rfl

/-- Names with the slashes that are put between parts: behind each one more than there are ellipses,
but for the last. -/
def spaced (names : List (String × ℕ)) (last : String × ℕ) : List (String × ℕ) :=
  names.map (fun n => (n.1, n.2 + 1)) ++ [last]

lemma spaced_cons (n : String × ℕ) (names : List (String × ℕ)) (last : String × ℕ) :
    spaced (n :: names) last = (n.1, n.2 + 1) :: spaced names last := rfl

lemma isName_spaced {names : List (String × ℕ)} {last : String × ℕ}
    (h : ∀ n ∈ names ++ [last], IsName n.1) : ∀ n ∈ spaced names last, IsName n.1 := by
  rw [spaced, List.forall_mem_append, List.forall_mem_map]
  exact List.forall_mem_append.mp h

lemma divided_spaced (names : List (String × ℕ)) (last : String × ℕ) :
    ∀ n ∈ (spaced names last).dropLast, 1 ≤ n.2 := by
  rw [spaced, List.dropLast_concat, List.forall_mem_map]
  exact fun n _ => Nat.le_add_left 1 n.2

/-- **Parts between slashes.** -/
lemma toList_intercalate_layout (names : List (String × ℕ)) (last : String × ℕ) :
    ("/".intercalate (partsOf id (names ++ [last]))).toList = namesText (spaced names last) := by
  induction names with
  | nil =>
    have hlast : partsOf id [last] = last.1 :: List.replicate last.2 "" := by simp [partsOf]
    rw [List.nil_append, hlast, toList_intercalate_name]
    simp [namesText, spaced]
  | cons n names ih =>
    have hcons : partsOf id (n :: (names ++ [last]))
        = (n.1 :: List.replicate n.2 "") ++ partsOf id (names ++ [last]) := by
      simp [partsOf]
    have hrest : partsOf id (names ++ [last]) ≠ [] := by simp [partsOf]
    rw [List.cons_append, hcons, String.intercalate_append_of_ne_nil (List.cons_ne_nil _ _) hrest,
      String.toList_append, String.toList_append, toList_intercalate_name, ih, spaced_cons,
      namesText_cons, slashes, slashes, List.replicate_succ']
    simp

/-! ## Parts that printing keeps -/

/-- **The parts that printing keeps**: an ellipsis is neither the first of them nor the last, and of
two neighbours one is no ellipsis.  If the first is a dot, it is the only one. -/
structure PrintsBack (parts : List String) : Prop where
  front : parts.head? ≠ some ""
  back : parts.getLast? ≠ some ""
  apart : parts.IsChain fun p q => p ≠ "" ∨ q ≠ ""
  dot : parts.head? = some "." → parts = ["."]

lemma partsOf_cons (ellipses : ℕ → ℕ) (n : String × ℕ) (names : List (String × ℕ)) :
    partsOf ellipses (n :: names)
      = n.1 :: (List.replicate (ellipses n.2) "" ++ partsOf ellipses names) := by
  simp [partsOf]

lemma partsOf_concat (ellipses : ℕ → ℕ) (names : List (String × ℕ)) (last : String × ℕ) :
    partsOf ellipses (names ++ [last])
      = partsOf ellipses names ++ last.1 :: List.replicate (ellipses last.2) "" := by
  simp [partsOf]

lemma head?_partsOf (ellipses : ℕ → ℕ) (names : List (String × ℕ)) :
    (partsOf ellipses names).head? = names.head?.map (·.1) := by
  cases names with
  | nil => rfl
  | cons n names => rw [partsOf_cons, List.head?_cons, List.head?_cons, Option.map_some]

lemma head?_partsOf_ne {names : List (String × ℕ)} (h : ∀ n ∈ names, IsName n.1)
    (ellipses : ℕ → ℕ) :
    (partsOf ellipses names).head? ≠ some "" := by
  rw [head?_partsOf]
  intro hempty
  obtain ⟨n, hn, hname⟩ := Option.map_eq_some_iff.mp hempty
  exact (h n (List.mem_of_head? hn)).1 hname

lemma getLast?_partsOf_concat {last : String × ℕ} (h : IsName last.1) (names : List (String × ℕ)) :
    (partsOf id (names ++ [last])).getLast? ≠ some "" ↔ last.2 = 0 := by
  obtain ⟨name, ellipses⟩ := last
  rw [partsOf_concat, List.getLast?_append_of_ne_nil _ (List.cons_ne_nil _ _)]
  cases ellipses with
  | zero => simpa using h.1
  | succ n => simp [List.replicate_succ', List.getLast?_cons]

/-- Of two neighbours one is no ellipsis if there is no more than one behind each name. -/
lemma isChain_partsOf_iff {names : List (String × ℕ)} (h : ∀ n ∈ names, IsName n.1) :
    (partsOf id names).IsChain (fun p q => p ≠ "" ∨ q ≠ "") ↔ ∀ n ∈ names, n.2 ≤ 1 := by
  induction names with
  | nil => simp [partsOf]
  | cons n names ih =>
    obtain ⟨hn, hrest⟩ := List.forall_mem_cons.mp h
    have hhead : ∀ y ∈ (partsOf id names).head?, y ≠ "" := by
      rintro y hy rfl
      exact head?_partsOf_ne hrest id hy
    rw [partsOf_cons, List.forall_mem_cons, List.isChain_cons, ← ih hrest]
    obtain ⟨name, _ | _ | ellipses⟩ := n
    · simp [hn.1]
    · simp only [id, Nat.zero_add, List.replicate_one, List.singleton_append, List.isChain_cons]
      simpa [hn.1] using fun _ => hhead
    · simp [List.replicate_succ]

/-- **Which parts printing keeps**, by the ellipses in front of the first name and behind each. -/
lemma printsBack_layout_iff {leading : ℕ} {names : List (String × ℕ)} {last : String × ℕ}
    (h : ∀ n ∈ names ++ [last], IsName n.1) :
    PrintsBack (List.replicate leading "" ++ partsOf id (names ++ [last])) ↔
      leading = 0 ∧ (∀ n ∈ names, n.2 ≤ 1) ∧ last.2 = 0 ∧ ∀ n ∈ names.head?, n.1 ≠ "." := by
  have hlast : IsName last.1 := h last (by simp)
  cases leading with
  | succ n =>
    refine ⟨fun hback => absurd ?_ hback.front, fun hback => absurd hback.1 (Nat.succ_ne_zero n)⟩
    rfl
  | zero =>
    rw [List.replicate_zero, List.nil_append]
    have hends := getLast?_partsOf_concat hlast names
    have hchain := isChain_partsOf_iff h
    rw [List.forall_mem_append, List.forall_mem_singleton] at hchain
    have hdot : last.2 = 0 → (((partsOf id (names ++ [last])).head? = some "." →
        partsOf id (names ++ [last]) = ["."]) ↔ ∀ n ∈ names.head?, n.1 ≠ ".") := by
      intro hnone
      rw [head?_partsOf]
      cases names with
      | nil => simp [partsOf, hnone]
      | cons n names => simp [partsOf]
    constructor
    · rintro ⟨-, hback, hapart, hsole⟩
      have hnone := hends.mp hback
      exact ⟨rfl, (hchain.mp hapart).1, hnone, (hdot hnone).mp hsole⟩
    · rintro ⟨-, hapart, hnone, hsole⟩
      exact ⟨head?_partsOf_ne h id, hends.mpr hnone, hchain.mpr ⟨hapart, by omega⟩,
        (hdot hnone).mpr hsole⟩

/-! ## What is lost -/

/-- The ellipses that are made of a run of slashes once it is widened. -/
def ellipsesOf (slashes : ℕ) : ℕ := halved (widened slashes) - 1

lemma ellipsesOf_le (ellipses : ℕ) : ellipsesOf ellipses ≤ ellipses := by
  unfold ellipsesOf halved widened
  omega

lemma ellipsesOf_eq_iff {ellipses : ℕ} : ellipsesOf ellipses = ellipses ↔ ellipses = 0 := by
  unfold ellipsesOf halved widened
  omega

/-- Between two names there is one more slash than there are ellipses. -/
lemma ellipsesOf_succ_le (ellipses : ℕ) : ellipsesOf (ellipses + 1) ≤ ellipses := by
  unfold ellipsesOf halved widened
  omega

lemma ellipsesOf_succ_eq_iff {ellipses : ℕ} :
    ellipsesOf (ellipses + 1) = ellipses ↔ ellipses ≤ 1 := by
  unfold ellipsesOf halved widened
  omega

section

variable {slashes ellipses : ℕ} (h : slashes ≤ 1 + widened ellipses)

include h

/-- In front of the names there is at most one more, that of the root. -/
lemma leadingOf_le : halved slashes - 2 ≤ ellipses := by
  unfold widened at h
  unfold halved
  omega

lemma leadingOf_eq_iff : halved slashes - 2 = ellipses ↔ ellipses = 0 := by
  unfold widened at h
  unfold halved
  omega

end

section

variable {α : Type} {as as' bs bs' : List α}

/-- Of two lists one behind the other nothing is lost if nothing is lost of either. -/
lemma append_eq_append_iff_of_sublist (has : as'.Sublist as) (hbs : bs'.Sublist bs) :
    as' ++ bs' = as ++ bs ↔ as' = as ∧ bs' = bs := by
  constructor
  · intro h
    have hlength := congrArg List.length h
    have hle := has.length_le
    have hle' := hbs.length_le
    rw [List.length_append, List.length_append] at hlength
    exact List.append_inj' h (by omega)
  · rintro ⟨rfl, rfl⟩
    rfl

lemma ite_tail_sublist (h : as'.Sublist as) (drop : Bool) :
    (if drop then as'.tail else as').Sublist as := by
  split_ifs
  · exact (List.tail_sublist as').trans h
  · exact h

lemma ite_tail_eq_iff (h : as'.Sublist as) (hne : as' ≠ []) (drop : Bool) :
    (if drop then as'.tail else as') = as ↔ drop = false ∧ as' = as := by
  cases drop with
  | false => simp
  | true =>
    have hpos := List.length_pos_iff.mpr hne
    have hle := h.length_le
    refine iff_of_false (fun htail => ?_) (by simp)
    have hlength := congrArg List.length htail
    rw [if_pos rfl, List.length_tail] at hlength
    omega

end

section

variable {ellipses ellipses' : ℕ → ℕ} {names : List (String × ℕ)}

/-- With fewer ellipses behind the names, some parts are lost. -/
lemma partsOf_sublist (h : ∀ n ∈ names, ellipses n.2 ≤ ellipses' n.2) :
    (partsOf ellipses names).Sublist (partsOf ellipses' names) := by
  induction names with
  | nil => exact List.Sublist.refl _
  | cons n names ih =>
    obtain ⟨hn, hrest⟩ := List.forall_mem_cons.mp h
    rw [partsOf_cons, partsOf_cons]
    exact (((List.replicate_sublist_replicate "").mpr hn).append (ih hrest)).cons_cons n.1

/-- They are the same parts only if there are as many behind each. -/
lemma partsOf_eq_iff (h : ∀ n ∈ names, ellipses n.2 ≤ ellipses' n.2) :
    partsOf ellipses names = partsOf ellipses' names ↔
      ∀ n ∈ names, ellipses n.2 = ellipses' n.2 := by
  induction names with
  | nil => simp [partsOf]
  | cons n names ih =>
    obtain ⟨hn, hrest⟩ := List.forall_mem_cons.mp h
    rw [partsOf_cons, partsOf_cons, List.cons_inj_right, append_eq_append_iff_of_sublist
      ((List.replicate_sublist_replicate "").mpr hn) (partsOf_sublist hrest), ih hrest,
      List.forall_mem_cons]
    simp

end

section

variable (names : List (String × ℕ)) (last : String × ℕ)

/-- What is left of names and the ellipses behind each: between two names one if there is any, and
none behind the last. -/
def partsLeft : List String :=
  partsOf (fun ellipses => ellipsesOf (ellipses + 1)) names
    ++ last.1 :: List.replicate (ellipsesOf last.2) ""

lemma partsLeft_ne_nil : partsLeft names last ≠ [] :=
  List.append_ne_nil_of_right_ne_nil _ (List.cons_ne_nil _ _)

lemma between_sublist :
    (partsOf (fun ellipses => ellipsesOf (ellipses + 1)) names).Sublist (partsOf id names) :=
  partsOf_sublist fun n _ => ellipsesOf_succ_le n.2

lemma behind_sublist :
    (last.1 :: List.replicate (ellipsesOf last.2) "").Sublist
      (last.1 :: List.replicate last.2 "") :=
  ((List.replicate_sublist_replicate "").mpr (ellipsesOf_le last.2)).cons_cons last.1

lemma partsLeft_sublist : (partsLeft names last).Sublist (partsOf id (names ++ [last])) := by
  rw [partsLeft, partsOf_concat]
  exact (between_sublist names).append (behind_sublist last)

/-- **Nothing is lost** if there is one ellipsis at most between two names, and none behind the
last. -/
lemma partsLeft_eq_iff : partsLeft names last = partsOf id (names ++ [last]) ↔
    (∀ n ∈ names, n.2 ≤ 1) ∧ last.2 = 0 := by
  rw [partsLeft, partsOf_concat, id_eq,
    append_eq_append_iff_of_sublist (between_sublist names) (behind_sublist last),
    partsOf_eq_iff fun n _ => ellipsesOf_succ_le n.2]
  simp [ellipsesOf_succ_eq_iff, ellipsesOf_eq_iff]

end

/-! ## Splitting what is printed -/

namespace Spelling

/-- A dot is left out if it is the first name and there is a slash behind it. -/
lemma hidesDot_iff (w : Spelling) :
    w.hidesDot = true ↔ w.leading ≤ 2 ∧ ∃ n ∈ w.names.head?, n.1 = "." ∧ 1 ≤ n.2 := by
  rw [hidesDot]
  cases w.names with
  | nil => simp
  | cons n names =>
    simp only [Bool.and_eq_true, decide_eq_true_eq, List.head?_cons, Option.mem_some_iff,
      exists_eq_left']
    tauto

/-- Nothing else is left out. -/
lemma kept_cases (w : Spelling) :
    w.names.map (·.1) = w.kept ∨ w.names.map (·.1) = "." :: w.kept := by
  rw [kept]
  split_ifs with hdot
  · obtain ⟨-, n, hn, hname, -⟩ := w.hidesDot_iff.mp hdot
    obtain ⟨names, hnames⟩ := List.head?_eq_some_iff.mp hn
    rw [hnames, List.map_cons, hname]
    exact .inr rfl
  · exact .inl rfl

end Spelling

/-- **What is known of a path that is printed and split again**: which parts are all there, and what
is lost of others. -/
structure Respells (parts : List String) (absolute : Bool) (split : List String × Bool) : Prop where
  eq_iff : split = (parts, absolute) ↔ PrintsBack parts
  sublist : split.1.Sublist parts
  names : parts.filter (· ≠ "") = split.1.filter (· ≠ "") ∨
    parts.filter (· ≠ "") = "." :: split.1.filter (· ≠ "")

section

variable {spec : PathSpec} {leading : ℕ} {names : List (String × ℕ)} {last : String × ℕ}

/-- **A printed path is spelled** by the names that its components come to, and widened runs of
slashes. -/
lemma exists_printed (h : ∀ n ∈ names, IsName n.1) (hdivided : ∀ n ∈ names.dropLast, 1 ≤ n.2)
    (hbody : ("/".intercalate (spec.components.map Component.text)).toList
      = written leading names) :
    ∃ w : Spelling, w.text = spec.text ∧ w.leading = spec.absolute.toNat + widened leading ∧
      w.names = names.map fun n => (n.1, widened n.2) := by
  refine ⟨⟨spec.absolute.toNat + widened leading, names.map fun n => (n.1, widened n.2),
    List.forall_mem_map.mpr h, ?_⟩, ?_, rfl, rfl⟩
  · rw [← List.map_dropLast, List.forall_mem_map]
    exact fun n hn => Nat.le_add_right_of_le (hdivided n hn)
  · have hroot : spec.rootPath.toList = slashes spec.absolute.toNat := by
      rw [rootPath]
      cases spec.absolute <;> rfl
    rw [← String.toList_inj, Spelling.text, PathSpec.text]
    simp only [String.toList_ofList, String.toList_append, hbody, widen_written h, hroot]
    rw [written, written, ← List.append_assoc, slashes, slashes, slashes,
      List.replicate_append_replicate]

/-- Of ellipses alone nothing is printed but slashes. -/
lemma respells_ellipses (h : spec.components.map Component.text = List.replicate leading "") :
    Respells (List.replicate leading "") spec.absolute (splitText spec.text) := by
  have hbody : ("/".intercalate (spec.components.map Component.text)).toList
      = written (leading - 1) [] := by
    rw [h]
    cases leading with
    | zero => rfl
    | succ n =>
      rw [List.replicate_succ', toList_intercalate_leading n (List.cons_ne_nil _ _)]
      rfl
  obtain ⟨w, htext, hleading, hnames⟩ := exists_printed (List.forall_mem_nil _) (by simp) hbody
  have hparts : w.parts = List.replicate (halved w.leading - 2) "" := by
    simp [Spelling.parts, Spelling.hidesDot, hnames, partsOf]
  have hslashes : w.leading ≤ 1 + widened leading := by
    have hroot : spec.absolute.toNat ≤ 1 := Bool.toNat_le _
    rw [hleading]
    unfold widened
    omega
  rw [← htext, w.splitText_text, hparts]
  refine ⟨?_, (List.replicate_sublist_replicate "").mpr (leadingOf_le hslashes), .inl (by simp)⟩
  rw [Prod.mk.injEq, List.replicate_left_inj, leadingOf_eq_iff hslashes]
  constructor
  · rintro ⟨rfl, -⟩
    exact ⟨by simp, by simp, .nil, by simp⟩
  · intro hback
    cases leading with
    | succ n => exact absurd rfl hback.front
    | zero => exact ⟨rfl, by rw [hleading]; cases spec.absolute <;> rfl⟩

/-- A printed path that has names is spelled by them, as they are spaced. -/
lemma exists_printed_layout (hnames : ∀ n ∈ names ++ [last], IsName n.1)
    (h : spec.components.map Component.text
      = List.replicate leading "" ++ partsOf id (names ++ [last])) :
    ∃ w : Spelling, w.text = spec.text ∧ w.leading = spec.absolute.toNat + widened leading ∧
      w.names = names.map (fun n => (n.1, widened (n.2 + 1))) ++ [(last.1, widened last.2)] := by
  have hbody : ("/".intercalate (spec.components.map Component.text)).toList
      = written leading (spaced names last) := by
    rw [h, toList_intercalate_leading leading (by simp [partsOf]), toList_intercalate_layout]
    rfl
  obtain ⟨w, htext, hleading, hw⟩ :=
    exists_printed (isName_spaced hnames) (divided_spaced names last) hbody
  rw [spaced, List.map_append, List.map_map] at hw
  exact ⟨w, htext, hleading, hw⟩

/-- **What the printed path is split into**, if there are names. -/
lemma respells_layout (hnames : ∀ n ∈ names ++ [last], IsName n.1)
    (h : spec.components.map Component.text
      = List.replicate leading "" ++ partsOf id (names ++ [last])) :
    Respells (List.replicate leading "" ++ partsOf id (names ++ [last])) spec.absolute
      (splitText spec.text) := by
  obtain ⟨w, htext, hleading, hw⟩ := exists_printed_layout hnames h
  have hroot : spec.absolute.toNat ≤ 1 := Bool.toNat_le _
  have hslashes : w.leading ≤ 1 + widened leading := by
    rw [hleading]
    exact Nat.add_le_add_right hroot _
  have hbehind : partsOf (fun slashes => halved slashes - 1) w.names = partsLeft names last := by
    rw [hw, partsOf_concat, partsOf, List.flatMap_map]
    rfl
  have hfront : (List.replicate (halved w.leading - 2) "").Sublist (List.replicate leading "") :=
    (List.replicate_sublist_replicate "").mpr (leadingOf_le hslashes)
  have hrest := ite_tail_sublist (partsLeft_sublist names last) w.hidesDot
  rw [← htext, w.splitText_text]
  refine ⟨?_, ?_, ?_⟩
  · -- a dot in front is dropped if there is anything behind it
    have hdot : leading = 0 → last.2 = 0 →
        (w.hidesDot = false ↔ ∀ n ∈ names.head?, n.1 ≠ ".") := by
      intro hnone hlast
      rw [← Bool.not_eq_true, w.hidesDot_iff, hleading, hw, hnone, hlast]
      cases names with
      | nil => simp [widened]
      | cons n names =>
        have hslash : 1 ≤ widened (n.2 + 1) := Nat.le_add_right_of_le (Nat.le_add_left 1 n.2)
        have hrelative : spec.absolute.toNat + widened 0 ≤ 2 := Nat.le_succ_of_le hroot
        simp [hslash, hrelative]
    rw [printsBack_layout_iff hnames, Spelling.parts, hbehind, Prod.mk.injEq,
      append_eq_append_iff_of_sublist hfront hrest, List.replicate_left_inj,
      leadingOf_eq_iff hslashes, ite_tail_eq_iff (partsLeft_sublist names last)
        (partsLeft_ne_nil names last), partsLeft_eq_iff]
    constructor
    · rintro ⟨⟨hnone, hshown, hsingle, hlast⟩, -⟩
      exact ⟨hnone, hsingle, hlast, (hdot hnone hlast).mp hshown⟩
    · rintro ⟨hnone, hsingle, hlast, hhead⟩
      refine ⟨⟨hnone, (hdot hnone hlast).mpr hhead, hsingle, hlast⟩, ?_⟩
      rw [hleading, hnone]
      cases spec.absolute <;> rfl
  · rw [Spelling.parts, hbehind]
    exact hfront.append hrest
  · have hall : w.names.map (·.1) = (names ++ [last]).map (·.1) := by
      rw [hw]
      simp
    have hfilter : (List.replicate leading "" ++ partsOf id (names ++ [last])).filter (· ≠ "")
        = w.names.map (·.1) := by
      rw [List.filter_append, Spelling.filter_partsOf id hnames, hall]
      simp
    rw [hfilter, w.filter_parts]
    exact w.kept_cases

end

/-- **Printing re-spells a path** exactly if its parts print back, wherever its ellipses stand.  If
they do not, only ellipses get lost, and perhaps a dot in front. -/
theorem text_respells_iff {ignoreCase follow : Bool} {path : String} {absolute : Option Bool}
    {matching : Option PatternInput} {spec : PathSpec}
    (h : compile ignoreCase (.text path) absolute matching follow = .ok spec) :
    (splitText spec.text = splitText path ↔ PrintsBack (splitText path).1) ∧
      (splitText spec.text).1.Sublist (splitText path).1 ∧
      ((splitText path).1.filter (· ≠ "") = (splitText spec.text).1.filter (· ≠ "") ∨
        (splitText path).1.filter (· ≠ "") = "." :: (splitText spec.text).1.filter (· ≠ "")) := by
  have hsplit : (PathInput.text path).split absolute
      = .ok ((splitText path).1, (splitText path).2) := rfl
  obtain ⟨hcomponents, habsolute, -⟩ := of_compile_of_split hsplit h
  have htexts := text_of_mapM_compile hcomponents
  have hrespells : Respells (splitText path).1 spec.absolute (splitText spec.text) := by
    have hslash : ∀ part ∈ (splitText path).1, '/' ∉ part.toList := fun _ hpart =>
      slash_not_mem_of_splitText hpart
    obtain ⟨leading, names, hnames, hparts⟩ := exists_layout hslash
    rw [hparts] at htexts ⊢
    rcases List.eq_nil_or_concat names with rfl | ⟨front, last, rfl⟩
    · rw [partsOf, List.flatMap_nil, List.append_nil] at htexts ⊢
      exact respells_ellipses htexts
    · rw [List.concat_eq_append] at hnames htexts ⊢
      exact respells_layout hnames htexts
  rw [habsolute] at hrespells
  exact ⟨hrespells.eq_iff, hrespells.sublist, hrespells.names⟩

/-- A path with more slashes than it needs, and a dot that is not in front. -/
theorem text_respells_iff_loose :
    ∃ spec, compile false (.text "//a////./*.c///[x]/") none none false = .ok spec ∧
      PrintsBack (splitText "//a////./*.c///[x]/").1 ∧ spec.text = "/a///./*.c///[x]" ∧
      splitText spec.text = splitText "//a////./*.c///[x]/" := by
  obtain ⟨spec, hspec, htext⟩ := exists_compile false false (.text "//a////./*.c///[x]/") none
    (fun spec => decide (spec.text = "/a///./*.c///[x]")) (by decide +kernel)
  have hparts : (splitText "//a////./*.c///[x]/").1 = ["a", "", ".", "*.c", "", "[x]"] := by
    decide +kernel
  have hback : PrintsBack (splitText "//a////./*.c///[x]/").1 := by
    rw [hparts]
    exact ⟨by decide, by decide, by decide, by decide⟩
  exact ⟨spec, hspec, hback, of_decide_eq_true htext, (text_respells_iff hspec).1.mpr hback⟩

/-- **Not every path is spelled again**: an ellipsis gets lost in front, behind, or beside another
one, and so does a dot in front. -/
theorem text_loses_ellipses :
    ∃ front back beside dot : PathSpec,
      (compile false (.text "/////a") none none false = .ok front ∧
        splitText "/////a" = (["", "a"], true) ∧ splitText front.text = (["a"], true)) ∧
      (compile false (.text "a///") none none false = .ok back ∧
        splitText "a///" = (["a", ""], false) ∧ splitText back.text = (["a"], false)) ∧
      (compile false (.text "a//////b") none none false = .ok beside ∧
        splitText "a//////b" = (["a", "", "", "b"], false) ∧
        splitText beside.text = (["a", "", "b"], false)) ∧
      (compile false (.text "././a") none none false = .ok dot ∧
        splitText "././a" = ([".", "a"], false) ∧ splitText dot.text = (["a"], false)) := by
  obtain ⟨front, hfront, hfront'⟩ := exists_compile false false (.text "/////a") none
    (fun spec => decide (splitText spec.text = (["a"], true))) (by decide +kernel)
  obtain ⟨back, hback, hback'⟩ := exists_compile false false (.text "a///") none
    (fun spec => decide (splitText spec.text = (["a"], false))) (by decide +kernel)
  obtain ⟨beside, hbeside, hbeside'⟩ := exists_compile false false (.text "a//////b") none
    (fun spec => decide (splitText spec.text = (["a", "", "b"], false))) (by decide +kernel)
  obtain ⟨dot, hdot, hdot'⟩ := exists_compile false false (.text "././a") none
    (fun spec => decide (splitText spec.text = (["a"], false))) (by decide +kernel)
  exact ⟨front, back, beside, dot,
    ⟨hfront, by decide +kernel, of_decide_eq_true hfront'⟩,
    ⟨hback, by decide +kernel, of_decide_eq_true hback'⟩,
    ⟨hbeside, by decide +kernel, of_decide_eq_true hbeside'⟩,
    ⟨hdot, by decide +kernel, of_decide_eq_true hdot'⟩⟩

end PathExpansion.PathSpec
